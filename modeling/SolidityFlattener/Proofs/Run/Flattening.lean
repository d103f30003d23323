import SolidityFlattener.Proofs.Artifact.FlatText
import SolidityFlattener.Proofs.Graph.Levels
import SolidityFlattener.Proofs.Outcomes
import SolidityFlattener.Run.Flatten

/-!
What a root file goes through until its bundle is made.

`Flattening` holds what the stages of one run answer, and a run succeeds exactly where there is
one. All three artifacts of its bundle list the files in the order that was computed, the manifest
from its end. So where the bodies stand in the flat text is told by that order, the root apart,
which is written last.
-/

namespace SolidityFlattener

/-- What the stages of a run over one root file answer on the way to a bundle. -/
structure Flattening (t : Tree) (cwd : Location) (o : Options) (extractor : Source.Extractor)
    (file : Path) (bundle : Bundle) where
  packageRoot : Option Path
  registry : Registry
  order : List Node
  leveled : Registry
  newline : Text
  base : Option Path
  root : Node
  packageRoot_eq : packageRootOf t cwd o = .ok packageRoot
  discovered : (discover ⟨t, cwd, packageRoot⟩ extractor o.resolveWeight file).outcome =
    .ok (root.path, registry)
  ordered : registry.order = .ok order
  leveled_eq : registry.level = .ok leveled
  newline_eq : o.newline = some newline
  base_eq : labelBase t cwd o root.path leveled = .ok base
  root_mem : root ∈ leveled.nodes
  assembled : Bundle.assemble leveled root.path newline base = .ok bundle

variable {t : Tree} {cwd : Location} {o : Options} {extractor : Source.Extractor} {file : Path}
  {bundle : Bundle}

/-- A bundle is made of the files by level and of the root, where all have levels and it is one of
them. -/
theorem Bundle.assemble_eq_ok_iff {r : Registry} {root : Path} {newline : Text}
    {base : Option Path} :
    assemble r root newline base = .ok bundle ↔
      ∃ ascending node, r.byLevel = .ok ascending ∧ r.get? root = some node ∧
        bundle = {
          root := node.path
          manifest := ascending.map fun n => (n.path, n.level.getD 0)
          flatText := SolidityFlattener.flatText node r.nodes newline base
          sources := r.nodes.map fun n => (n.path, sourceContent n newline) } := by
  unfold assemble
  constructor
  · intro h
    obtain ⟨ascending, hascending, h⟩ := bind_eq_ok_iff.1 h
    cases hnode : r.get? root with
    | none => simp [hnode] at h
    | some node =>
        rw [hnode] at h
        exact ⟨ascending, node, hascending, rfl, (Except.ok.inj h).symm⟩
  · rintro ⟨ascending, node, hascending, hnode, rfl⟩
    rw [hascending, hnode]
    rfl

theorem Bundle.exists_assemble {r : Registry} {root : Node} (hroot : root ∈ r.nodes)
    (hlevels : ∀ n ∈ r.nodes, n.level.isSome) (newline : Text) (base : Option Path) :
    ∃ bundle, assemble r root.path newline base = .ok bundle :=
  ⟨_, assemble_eq_ok_iff.2
    ⟨_, root, Registry.byLevel_eq_mergeSort hlevels, Registry.get?_path hroot, rfl⟩⟩

/-- A run makes a bundle exactly where each of its stages has an answer. -/
theorem flattenSource_eq_ok_iff :
    (flattenSource t cwd o extractor file).outcome = .ok bundle ↔
      Nonempty (Flattening t cwd o extractor file bundle) := by
  unfold flattenSource
  constructor
  · intro h
    -- one stage after another, each with the answer of the ones before
    obtain ⟨-, -, h⟩ := Trace.outcome_bind_eq_ok_iff.1 h
    obtain ⟨packageRoot, hpackageRoot, h⟩ := Trace.outcome_bind_eq_ok_iff.1 h
    obtain ⟨⟨path, registry⟩, hdiscover, h⟩ := Trace.outcome_bind_eq_ok_iff.1 h
    obtain ⟨-, -, h⟩ := Trace.outcome_bind_eq_ok_iff.1 h
    obtain ⟨-, -, h⟩ := Trace.outcome_bind_eq_ok_iff.1 h
    obtain ⟨leveled, hleveled, h⟩ := Trace.outcome_bind_eq_ok_iff.1 h
    split at h
    · cases h
    · next newline hnewline =>
      obtain ⟨base, hbase, h⟩ := Trace.outcome_bind_eq_ok_iff.1 h
      obtain ⟨order, horder, -⟩ := Registry.exists_order_of_level hleveled
      obtain ⟨-, root, -, hroot, -⟩ := Bundle.assemble_eq_ok_iff.1 h
      obtain ⟨hmem, rfl⟩ := Registry.get?_eq_some_iff.1 hroot
      exact ⟨{
        packageRoot := packageRoot
        registry := registry
        order := order
        leveled := leveled
        newline := newline
        base := base
        root := root
        packageRoot_eq := mapError_eq_ok_iff.1 hpackageRoot
        discovered := hdiscover
        ordered := horder
        leveled_eq := hleveled
        newline_eq := hnewline
        base_eq := mapError_eq_ok_iff.1 hbase
        root_mem := hmem
        assembled := h }⟩
  · rintro ⟨f⟩
    refine Trace.outcome_bind_eq_ok_iff.2 ⟨(), rfl, ?_⟩
    refine Trace.outcome_bind_eq_ok_iff.2
      ⟨f.packageRoot, mapError_eq_ok_iff.2 f.packageRoot_eq, ?_⟩
    refine Trace.outcome_bind_eq_ok_iff.2 ⟨(f.root.path, f.registry), f.discovered, ?_⟩
    refine Trace.outcome_bind_eq_ok_iff.2 ⟨(), rfl, ?_⟩
    refine Trace.outcome_bind_eq_ok_iff.2 ⟨(), rfl, ?_⟩
    refine Trace.outcome_bind_eq_ok_iff.2 ⟨f.leveled, f.leveled_eq, ?_⟩
    rw [f.newline_eq]
    exact Trace.outcome_bind_eq_ok_iff.2 ⟨f.base, mapError_eq_ok_iff.2 f.base_eq, f.assembled⟩

/-- A bundle is made wherever the imports are found and the files can be ordered. -/
theorem exists_flattening (root : Node) {packageRoot : Option Path} {registry : Registry}
    {order : List Node} {newline : Text}
    (hpackageRoot : packageRootOf t cwd o = .ok packageRoot)
    (hdiscover : (discover ⟨t, cwd, packageRoot⟩ extractor o.resolveWeight file).outcome =
      .ok (root.path, registry))
    (horder : registry.order = .ok order) (hroot : root ∈ order)
    (hnewline : o.newline = some newline)
    (hbase : ∀ r, ∃ base, labelBase t cwd o root.path r = .ok base) :
    ∃ bundle, ∃ f : Flattening t cwd o extractor file bundle,
      f.registry = registry ∧ f.order = order ∧ f.root.path = root.path := by
  obtain ⟨leveled, hleveled, hnodes⟩ := Registry.exists_level horder
  obtain ⟨base, hbase⟩ := hbase leveled
  have hmem : Registry.withLevel order root ∈ leveled.nodes := by
    rw [hnodes]
    exact List.mem_map_of_mem hroot
  obtain ⟨bundle, hbundle⟩ := Bundle.exists_assemble hmem
    (Registry.level_isSome_of_nodes_eq hnodes) newline base
  exact ⟨bundle, {
    packageRoot := packageRoot
    registry := registry
    order := order
    leveled := leveled
    newline := newline
    base := base
    root := Registry.withLevel order root
    packageRoot_eq := hpackageRoot
    discovered := hdiscover
    ordered := horder
    leveled_eq := hleveled
    newline_eq := hnewline
    base_eq := hbase
    root_mem := hmem
    assembled := hbundle }, rfl, rfl, rfl⟩

/-- There is a base for labels where a base is asked for that has a canonical path. -/
theorem exists_labelBase {base place : Path} (ho : o.baseDir = some base)
    (hreal : t.realPath false cwd base = .ok place) (root : Path) (r : Registry) :
    ∃ base, labelBase t cwd o root r = .ok base := by
  unfold labelBase
  simp only [ho, hreal]
  split
  · exact ⟨none, rfl⟩
  · exact ⟨some place, rfl⟩

namespace Flattening

def body (f : Flattening t cwd o extractor file bundle) (n : Node) : Text :=
  joinLines f.newline n.body

/-- Where the body of the file under a path starts in the flat text. -/
def start (f : Flattening t cwd o extractor file bundle) (p : Path) : ℕ :=
  bodyStart f.root f.leveled.nodes f.newline f.base p

/-- The body of one file ends before that of another starts. -/
def StandsBefore (f : Flattening t cwd o extractor file bundle) (a b : Node) : Prop :=
  f.start a.path + (f.body a).length ≤ f.start b.path

variable (f : Flattening t cwd o extractor file bundle) {a b n : Node}

/-- There is only one registry that a run goes through. -/
theorem registry_eq (g : Flattening t cwd o extractor file bundle) : f.registry = g.registry := by
  have hroot : f.packageRoot = g.packageRoot :=
    Except.ok.inj (f.packageRoot_eq.symm.trans g.packageRoot_eq)
  have hdiscovered := f.discovered
  rw [hroot, g.discovered] at hdiscovered
  exact (Prod.mk.inj (Except.ok.inj hdiscovered)).2.symm

theorem nodes_eq : f.leveled.nodes = f.order.map (Registry.withLevel f.order) := by
  obtain ⟨order, horder, hnodes⟩ := Registry.exists_order_of_level f.leveled_eq
  obtain rfl : order = f.order := Except.ok.inj (horder.symm.trans f.ordered)
  exact hnodes

theorem paths_eq : f.leveled.nodes.map Node.path = f.order.map Node.path := by
  simp [f.nodes_eq]

/-- The three artifacts list the files as they are ordered, the manifest from the last one on. -/
theorem bundle_eq : bundle = {
    root := f.root.path
    manifest := f.leveled.nodes.reverse.map fun n => (n.path, n.level.getD 0)
    flatText := flatText f.root f.leveled.nodes f.newline f.base
    sources := f.leveled.nodes.map fun n => (n.path, sourceContent n f.newline) } := by
  obtain ⟨ascending, root, hascending, hroot, hbundle⟩ := Bundle.assemble_eq_ok_iff.1 f.assembled
  have hnodup : (f.order.map Node.path).Nodup := f.paths_eq ▸ f.leveled.nodup_paths
  rw [Registry.get?_path f.root_mem] at hroot
  rw [Registry.byLevel_eq_reverse hnodup f.nodes_eq] at hascending
  refine hbundle.trans ?_
  rw [← Option.some.inj hroot, ← Except.ok.inj hascending]

theorem text_eq : bundle.root = f.root.path ∧
    bundle.flatText = flatText f.root f.leveled.nodes f.newline f.base :=
  ⟨congrArg Bundle.root f.bundle_eq, congrArg Bundle.flatText f.bundle_eq⟩

theorem keys_eq : bundle.sources.map Prod.fst = f.leveled.paths := by
  have hsources := congrArg Bundle.sources f.bundle_eq
  simp [hsources, Registry.paths]

theorem manifest_eq :
    bundle.manifest = f.leveled.nodes.reverse.map fun n => (n.path, n.level.getD 0) :=
  congrArg Bundle.manifest f.bundle_eq

theorem levels_eq :
    bundle.manifest.map Prod.snd = (List.range f.order.length).map fun i : ℕ => (i : Int) + 1 := by
  have hnodup : (f.order.map Node.path).Nodup := f.paths_eq ▸ f.leveled.nodup_paths
  rw [f.manifest_eq, List.map_map, ← Registry.map_level_reverse_withLevel hnodup, ← f.nodes_eq]
  rfl

theorem withLevel_mem (hn : n ∈ f.registry.nodes) :
    Registry.withLevel f.order n ∈ f.leveled.nodes := by
  rw [f.nodes_eq]
  exact List.mem_map_of_mem ((Registry.order_perm f.ordered).mem_iff.2 hn)

/-- Every registered file has its body where it is said to start. -/
theorem body_prefix (hn : n ∈ f.registry.nodes) :
    f.body n <+: bundle.flatText.drop (f.start n.path) := by
  rw [f.text_eq.2]
  exact body_prefix_drop (n := Registry.withLevel f.order n) f.root_mem f.leveled.nodup_paths
    (f.withLevel_mem hn)

/-- The root is a registered file, and the text ends with its body. -/
theorem exists_root_body : ∃ n ∈ f.registry.nodes, n.path = bundle.root ∧
    bundle.flatText.drop (f.start n.path) = f.body n := by
  have hroot := f.root_mem
  rw [f.nodes_eq] at hroot
  obtain ⟨n, hn, heq⟩ := List.mem_map.1 hroot
  -- a level changes neither the path nor the body
  have hpath : n.path = f.root.path := heq ▸ rfl
  have hbody : n.body = f.root.body := heq ▸ rfl
  refine ⟨n, (Registry.order_perm f.ordered).mem_iff.1 hn, hpath.trans f.text_eq.1.symm, ?_⟩
  rw [f.text_eq.2, start, hpath, body, hbody]
  exact drop_bodyStart_root _ _ _ _

/-- What stands before what: a file before the root, and before what is later in the order. -/
theorem standsBefore (ha : a ∈ f.registry.nodes) (hroot : a.path ≠ f.root.path)
    (hbefore : b.path = f.root.path ∨
      (f.order.map Node.path).idxOf a.path < (f.order.map Node.path).idxOf b.path) :
    f.StandsBefore a b := by
  rw [← f.paths_eq] at hbefore
  exact bodyStart_add_le (b := Registry.withLevel f.order a) f.leveled.nodup_paths
    (f.withLevel_mem ha) hroot hbefore

/-- Of two files only one stands before the other, unless both bodies are empty. -/
theorem not_standsBefore (h : f.StandsBefore a b) (hbody : f.body b ≠ []) :
    ¬f.StandsBefore b a := by
  have hpos := List.length_pos_iff.2 hbody
  unfold StandsBefore at *
  omega

end Flattening

end SolidityFlattener
