import SolidityFlattener.Proofs.Graph.Rounds
import SolidityFlattener.Proofs.Imports.Discovery
import SolidityFlattener.Proofs.Run.Flattening

/-!
Which bases stand before the files that derive from them.

A file that leaves by its imports has seen all of them go, and one that leaves by its inheritance
has seen all its bases go. So a base stands first if it is reached by what the files on the way had
to wait for. Where a file on the way left by inheritance with imports still open, what lies behind
those may come later; and the root comes last whatever derives from it.
-/

namespace SolidityFlattener

namespace Registry

variable {r : Registry} {order : List Node} {p q : Path}

/-- A file had to wait for another before it could leave. -/
def Awaits (r : Registry) (p q : Path) : Prop := ∃ kind, r.Leaves kind p ∧ r.Requires kind p q

theorem Requires.mem_paths {kind : RoundKind} (h : r.Requires kind p q) : p ∈ r.paths := by
  obtain ⟨n, hn, rfl, -⟩ := h
  exact path_mem_paths hn

/-- What is required in both kinds is waited for. -/
theorem awaits_of_requires (h : r.order = .ok order)
    (hrequires : ∀ kind, r.Requires kind p q) : r.Awaits p q := by
  obtain ⟨kind, hleaves⟩ := exists_leaves h (hrequires .imports).mem_paths
  exact ⟨kind, hleaves, hrequires kind⟩

/-- Where all files leave by their imports, they wait for all of them. -/
theorem awaits_of_imports (h : r.order = .ok order)
    (hrounds : ∀ round ∈ r.peeling.rounds, round.kind = .imports)
    (hrequires : r.Requires .imports p q) : r.Awaits p q := by
  obtain ⟨kind, round, hround, rfl, hp⟩ := exists_leaves h hrequires.mem_paths
  exact ⟨.imports, ⟨round, hround, hrounds round hround, hp⟩, hrequires⟩

theorem idxOf_lt_of_awaits (hawaits : Relation.TransGen r.Awaits p q) (h : r.order = .ok order) :
    (order.map Node.path).idxOf q < (order.map Node.path).idxOf p := by
  induction hawaits with
  | single hawaits =>
      obtain ⟨kind, hleaves, hrequires⟩ := hawaits
      exact hleaves.idxOf_lt h hrequires
  | tail _ hawaits ih =>
      obtain ⟨kind, hleaves, hrequires⟩ := hawaits
      exact (hleaves.idxOf_lt h hrequires).trans ih

end Registry

variable {t : Tree} {cwd : Location} {o : Options} {extractor : Source.Extractor} {file : Path}
  {bundle : Bundle}

/-! ### The ring -/

/-- The first and the second file of the ring, with their bases. -/
def ringFirst : Node := { ringA 2 with inherits := [Path.top "B.sol"] }

def ringSecond : Node := { ringB 1 with inherits := [Path.top "C.sol"] }

theorem nodes_ring : ringRegistry.nodes = [ringC 3, ringSecond, ringFirst] := rfl

/-- The ring breaks at its root, which derives from nothing, and comes apart by imports. -/
theorem order_ring : ringRegistry.order = .ok [ringC 3, ringFirst, ringSecond] := by
  cbv

theorem requires_ring_first : ringRegistry.Requires .imports ringFirst.path (Path.top "C.sol") :=
  ⟨ringFirst, by simp [nodes_ring], rfl, List.mem_singleton.2 rfl⟩

theorem requires_ring_root : ringRegistry.Requires .imports (Path.top "C.sol") ringSecond.path :=
  ⟨ringC 3, by simp [nodes_ring], rfl, List.mem_singleton.2 rfl⟩

theorem requires_ring_second : ringRegistry.Requires .imports ringSecond.path ringFirst.path :=
  ⟨ringSecond, by simp [nodes_ring], rfl, List.mem_singleton.2 rfl⟩

theorem exists_flattening_ring :
    ∃ bundle, ∃ f : Flattening ringSite.tree [] (Options.default []) Source.byLines
      (.ofText "C.sol".toList) bundle, f.registry = ringRegistry ∧
        f.order = [ringC 3, ringFirst, ringSecond] ∧ f.root.path = Path.top "C.sol" := by
  have hbase : ringSite.tree.realPath false [] (.ofLocation []) = .ok (.ofLocation []) := by cbv
  exact exists_flattening (ringC 3) (by cbv) discover_ring order_ring (by simp) rfl
    (exists_labelBase rfl hbase _)

theorem body_ne_nil {f : Flattening t cwd o extractor file bundle} {n : Node} {line : Text}
    (hbody : n.body = [line]) (hline : line ≠ []) : f.body n ≠ [] := by
  have hjoin : f.body n = line := by simp [Flattening.body, hbody, joinLines, List.intercalate]
  rwa [hjoin]

/-! ### Files and their bases -/

/-- A flat text ends with the body of the root, which nothing follows. Of two files in it of which
one derives from the other, the base stands last if it is the root. If it is not, it stands first,
provided that the file that derives from it is the root, imports it directly, left by its
inheritance, or reaches it by what files had to wait for; and that holds for all imports where every
file left by its imports. -/
theorem bases_stand_first (h : (flattenSource t cwd o extractor file).outcome = .ok bundle) :
    ∃ f : Flattening t cwd o extractor file bundle,
      (∀ n ∈ f.registry.nodes, f.body n <+: bundle.flatText.drop (f.start n.path)) ∧
      (∃ n ∈ f.registry.nodes, n.path = bundle.root ∧
        bundle.flatText.drop (f.start n.path) = f.body n) ∧
      ∀ a ∈ f.registry.nodes, ∀ b ∈ f.registry.nodes, a.path ≠ b.path → b.path ∈ a.inherits →
        (b.path = bundle.root → f.StandsBefore a b) ∧
        (b.path ≠ bundle.root →
          (a.path = bundle.root ∨ b.path ∈ a.imports ∨ f.registry.Leaves .inherits a.path ∨
            Relation.TransGen f.registry.Awaits a.path b.path ∨
            (∀ round ∈ f.registry.peeling.rounds, round.kind = .imports) ∧
              Relation.TransGen (f.registry.Requires .imports) a.path b.path) →
          f.StandsBefore b a) := by
  obtain ⟨f⟩ := flattenSource_eq_ok_iff.1 h
  refine ⟨f, fun n hn => f.body_prefix hn, f.exists_root_body, ?_⟩
  intro a ha b hb hne hinherits
  rw [f.text_eq.1]
  have hbase : f.registry.Requires .inherits a.path b.path := ⟨a, ha, rfl, hinherits⟩
  constructor
  · intro hroot
    exact f.standsBefore ha (fun heq => hne (heq.trans hroot.symm)) (.inl hroot)
  · intro hroot hcase
    -- every case but the first is a way of waiting
    have hawaits : a.path = f.root.path ∨ Relation.TransGen f.registry.Awaits a.path b.path := by
      rcases hcase with ha' | himports | hleaves | hawaits | ⟨hrounds, hway⟩
      · exact .inl ha'
      · refine .inr (.single (Registry.awaits_of_requires f.ordered fun kind => ?_))
        cases kind with
        | imports => exact ⟨a, ha, rfl, himports⟩
        | inherits => exact hbase
      · exact .inr (.single ⟨.inherits, hleaves, hbase⟩)
      · exact .inr hawaits
      · have hle : ∀ p q, f.registry.Requires .imports p q → f.registry.Awaits p q :=
          fun _ _ => Registry.awaits_of_imports f.ordered hrounds
        exact .inr (Relation.TransGen.mono hle _ _ hway)
    exact f.standsBefore hb hroot <|
      hawaits.imp_right fun hawaits => Registry.idxOf_lt_of_awaits hawaits f.ordered

theorem ring_base_stands_last :
    ∃ bundle, (flattenSource ringSite.tree [] (Options.default []) Source.byLines
        (.ofText "C.sol".toList)).outcome = .ok bundle ∧
      ∃ f : Flattening ringSite.tree [] (Options.default []) Source.byLines
        (.ofText "C.sol".toList) bundle, f.StandsBefore ringSecond (ringC 3) := by
  obtain ⟨bundle, g, hregistry, -, hroot⟩ := exists_flattening_ring
  have h := flattenSource_eq_ok_iff.2 ⟨g⟩
  obtain ⟨f, -, -, hbases⟩ := bases_stand_first h
  have hnodes : f.registry = ringRegistry := (f.registry_eq g).trans hregistry
  refine ⟨bundle, h, f, (hbases ringSecond ?_ (ringC 3) ?_ (by decide) ?_).1 ?_⟩
  · simp [hnodes, nodes_ring]
  · simp [hnodes, nodes_ring]
  · exact List.mem_singleton.2 rfl
  · rw [g.text_eq.1, hroot]
    rfl

/-- Of the three files in the ring the first derives from the second and reaches it by imports, and
so does the second with the third, which is the root; yet the first stands before the second and
the second before the third. -/
theorem ring_derived_before_base :
    ∃ bundle, (flattenSource ringSite.tree [] (Options.default []) Source.byLines
        (.ofText "C.sol".toList)).outcome = .ok bundle ∧
      ∃ f : Flattening ringSite.tree [] (Options.default []) Source.byLines
        (.ofText "C.sol".toList) bundle,
      ∃ a ∈ f.registry.nodes, ∃ b ∈ f.registry.nodes, ∃ c ∈ f.registry.nodes,
        (a.path ≠ b.path ∧ b.path ∈ a.inherits ∧
          Relation.TransGen (f.registry.Requires .imports) a.path b.path ∧
          b.path ≠ bundle.root ∧ ¬f.StandsBefore b a) ∧
        (b.path ≠ c.path ∧ c.path ∈ b.inherits ∧
          Relation.TransGen (f.registry.Requires .imports) b.path c.path ∧
          c.path = bundle.root ∧ ¬f.StandsBefore c b) := by
  obtain ⟨bundle, f, hregistry, horder, hroot⟩ := exists_flattening_ring
  have hfirst : ringFirst ∈ f.registry.nodes := by simp [hregistry, nodes_ring]
  have hsecond : ringSecond ∈ f.registry.nodes := by simp [hregistry, nodes_ring]
  have hthird : ringC 3 ∈ f.registry.nodes := by simp [hregistry, nodes_ring]
  have hfirst_before : f.StandsBefore ringFirst ringSecond := by
    refine f.standsBefore hfirst ?_ (.inr ?_)
    · rw [hroot]
      decide
    · rw [horder]
      decide
  have hsecond_before : f.StandsBefore ringSecond (ringC 3) := by
    refine f.standsBefore hsecond ?_ (.inl hroot.symm)
    rw [hroot]
    decide
  refine ⟨bundle, flattenSource_eq_ok_iff.2 ⟨f⟩, f, ringFirst, hfirst, ringSecond, hsecond,
    ringC 3, hthird, ⟨by decide, List.mem_singleton.2 rfl, ?_, ?_, ?_⟩,
    ⟨by decide, List.mem_singleton.2 rfl, ?_, ?_, ?_⟩⟩
  · rw [hregistry]
    exact .tail (.single requires_ring_first) requires_ring_root
  · rw [f.text_eq.1, hroot]
    decide
  · exact f.not_standsBefore hfirst_before (body_ne_nil rfl (by decide))
  · rw [hregistry]
    exact .tail (.single requires_ring_second) requires_ring_first
  · rw [f.text_eq.1, hroot]
    rfl
  · exact f.not_standsBefore hsecond_before (body_ne_nil rfl (by decide))

end SolidityFlattener
