import SolidityFlattener.Proofs.Graph.FirstImports
import SolidityFlattener.Proofs.Graph.History
import SolidityFlattener.Proofs.Imports.Discovery

/-!
Base names linked to files.

Which files are meant by a base name depends on the registered paths alone. These do not change
while files are linked, so it makes no difference that one file after another is changed in the
registry that is searched, and linking again finds nothing new. What is noted for a file is told
base by base: a file has one stem, so no two bases mean the same file, and a base that is repeated
is the only way in which a file is met twice.
-/

namespace SolidityFlattener

/-! ### First occurrences -/

/-- Parts that share nothing have the first occurrences of the whole, part by part. -/
theorem eraseDups_flatMap {α : Type} [BEq α] [LawfulBEq α] {f : α → List Path}
    (hnodup : ∀ a, (f a).Nodup) (hdisjoint : ∀ a b, a ≠ b → (f a).Disjoint (f b)) (as : List α) :
    (as.flatMap f).eraseDups = as.eraseDups.flatMap f := by
  induction as using List.reverseRecOn with
  | nil => rfl
  | append_singleton as a ih =>
      rw [eraseDups_concat, List.flatMap_append, List.flatMap_singleton, List.eraseDups_append, ih]
      by_cases ha : a ∈ as
      · have hmet : (f a).removeAll (as.flatMap f) = [] := by
          refine List.filter_eq_nil_iff.2 fun p hp => ?_
          simpa using ⟨a, ha, hp⟩
        rw [if_pos ha, hmet]
        simp
      · have hnew : (f a).removeAll (as.flatMap f) = f a := by
          refine List.filter_eq_self.2 fun p hp => ?_
          have hnot : p ∉ as.flatMap f := by
            intro hmem
            obtain ⟨b, hb, hpb⟩ := List.mem_flatMap.1 hmem
            have hne : a ≠ b := fun heq => ha (heq ▸ hb)
            exact hdisjoint a b hne hp hpb
          simpa using hnot
        rw [if_neg ha, hnew, Registry.eraseDups_of_nodup (hnodup a), List.flatMap_append,
          List.flatMap_singleton]

namespace Registry

variable {r r' linked : Registry} {n : Node} {p q : Path} {base : Text} {bases : List Text}

/-! ### The files that are meant -/

/-- What a base name means is read off the registered paths. -/
theorem matching_eq (r : Registry) (bases : List Text) :
    r.matching bases = bases.flatMap fun base => r.paths.filter fun p => p.stem == base := by
  have hstem : ∀ base,
      (r.withStem base).map Node.path = r.paths.filter fun p => p.stem == base := by
    intro base
    rw [withStem, paths, List.filter_map]
    rfl
  rw [matching, List.map_flatMap]
  simp only [hstem]

theorem matching_congr (h : r.paths = r'.paths) (bases : List Text) :
    r.matching bases = r'.matching bases := by
  rw [matching_eq, matching_eq, h]

theorem linkNode_congr (h : r.paths = r'.paths) (n : Node) : r.linkNode n = r'.linkNode n := by
  rw [linkNode, linkNode, matching_congr h]

/-- The registered files that a base name of a file means and that are not noted for it yet. -/
def meant (r : Registry) (n : Node) (base : Text) : List Path :=
  r.paths.filter fun p => p.stem = base ∧ p ≠ n.path ∧ p ∉ n.inherits

/-- What linking adds to a file, base by base. -/
def newInherits (r : Registry) (n : Node) : List Path := n.bases.eraseDups.flatMap (r.meant n)

theorem mem_meant : p ∈ r.meant n base ↔
    p ∈ r.paths ∧ p.stem = base ∧ p ≠ n.path ∧ p ∉ n.inherits := by
  simp [meant]

theorem nodup_meant (r : Registry) (n : Node) (base : Text) : (r.meant n base).Nodup :=
  r.nodup_paths.filter _

theorem disjoint_meant {other : Text} (h : base ≠ other) :
    (r.meant n base).Disjoint (r.meant n other) := by
  intro p hbase hother
  obtain ⟨-, rfl, -⟩ := mem_meant.1 hbase
  exact h (mem_meant.1 hother).2.1

theorem mem_newInherits : p ∈ r.newInherits n ↔
    p ∈ r.paths ∧ p.stem ∈ n.bases ∧ p ≠ n.path ∧ p ∉ n.inherits := by
  constructor
  · intro h
    obtain ⟨base, hbase, hp⟩ := List.mem_flatMap.1 h
    obtain ⟨hregistered, rfl, hnew⟩ := mem_meant.1 hp
    exact ⟨hregistered, List.mem_eraseDups.1 hbase, hnew⟩
  · rintro ⟨hregistered, hbase, hnew⟩
    refine List.mem_flatMap.2 ⟨p.stem, List.mem_eraseDups.2 hbase, ?_⟩
    exact mem_meant.2 ⟨hregistered, rfl, hnew⟩

theorem newInherits_eq (r : Registry) (n : Node) :
    r.newInherits n =
      ((r.matching n.bases).filter fun p => p ≠ n.path ∧ p ∉ n.inherits).eraseDups := by
  have hmeant : ∀ base, ((r.paths.filter fun p => p.stem == base).filter
      fun p => p ≠ n.path ∧ p ∉ n.inherits) = r.meant n base := by
    intro base
    rw [List.filter_filter]
    refine List.filter_congr fun p _ => ?_
    by_cases hp : p.stem = base <;> simp [hp]
  rw [matching_eq, List.filter_flatMap]
  simp only [hmeant]
  rw [eraseDups_flatMap (r.nodup_meant n) (fun _ _ => disjoint_meant), newInherits]

theorem nodup_newInherits (r : Registry) (n : Node) : (r.newInherits n).Nodup := by
  rw [newInherits_eq]
  exact nodup_eraseDups _

theorem linkNode_eq (r : Registry) (n : Node) :
    r.linkNode n = { n with inherits := n.inherits ++ r.newInherits n } := by
  rw [linkNode, Node.foldl_noteRequirement, newInherits_eq]

/-! ### Linking again, and in another order -/

theorem newInherits_linkNode (r : Registry) (n : Node) : r.newInherits (r.linkNode n) = [] := by
  refine List.eq_nil_iff_forall_not_mem.2 fun p hp => ?_
  rw [linkNode_eq] at hp
  obtain ⟨hregistered, hbase, hself, hnew⟩ := mem_newInherits.1 hp
  obtain ⟨hold, hadded⟩ := not_or.1 (mt List.mem_append.2 hnew)
  exact hadded (mem_newInherits.2 ⟨hregistered, hbase, hself, hold⟩)

theorem linkNode_linkNode (r : Registry) (n : Node) : r.linkNode (r.linkNode n) = r.linkNode n := by
  rw [linkNode_eq r (r.linkNode n), newInherits_linkNode, List.append_nil]

theorem nodes_linkInheritance (r : Registry) : r.linkInheritance.nodes = r.nodes.map r.linkNode :=
  rfl

theorem linkInheritance_linkInheritance (r : Registry) :
    r.linkInheritance.linkInheritance = r.linkInheritance := by
  ext1
  rw [nodes_linkInheritance, nodes_linkInheritance, List.map_map]
  refine List.map_congr_left fun n _ => ?_
  rw [Function.comp_apply, linkNode_congr paths_linkInheritance, linkNode_linkNode]

/-- In another order of the registry the same files are noted. -/
theorem newInherits_perm (h : r.paths.Perm r'.paths) (n : Node) :
    (r.newInherits n).Perm (r'.newInherits n) := by
  refine (List.perm_ext_iff_of_nodup (r.nodup_newInherits n) (r'.nodup_newInherits n)).2 fun p => ?_
  rw [mem_newInherits, mem_newInherits, h.mem_iff]

/-! ### Linking in place -/

/-- The files that a base name means, noted one by one for the file under a path. -/
def noteBase (p : Path) (r : Registry) (base : Text) : Registry :=
  (r.withStem base).foldl (fun linked m => linked.modify p (·.requireInherit m.path)) r

/-- The files linked one after another, each in the registry that the others left. -/
def linkInPlace (r : Registry) : Registry :=
  r.nodes.foldl (fun linked n => n.bases.foldl (noteBase n.path) linked) r

theorem foldl_modify_requireInherit (p : Path) (targets : List Path) (r : Registry) :
    targets.foldl (fun linked q => linked.modify p (·.requireInherit q)) r =
      r.modify p fun n => targets.foldl Node.requireInherit n := by
  induction targets generalizing r with
  | nil =>
      ext1
      exact (List.map_id'' (fun n => by split <;> rfl) _).symm
  | cons q targets ih =>
      rw [List.foldl_cons, ih]
      ext1
      rw [nodes_modify, nodes_modify, nodes_modify, List.map_map]
      refine List.map_congr_left fun n _ => ?_
      by_cases hn : n.path = p <;> simp [hn, Node.requireInherit]

theorem noteBase_eq (p : Path) (r : Registry) (base : Text) :
    noteBase p r base =
      ((r.withStem base).map Node.path).foldl
        (fun linked q => linked.modify p (·.requireInherit q)) r := by
  rw [List.foldl_map]
  rfl

theorem foldl_noteBase (p : Path) (bases : List Text) (r : Registry) :
    bases.foldl (noteBase p) r =
      (r.matching bases).foldl (fun linked q => linked.modify p (·.requireInherit q)) r := by
  induction bases generalizing r with
  | nil => rfl
  | cons base bases ih =>
      -- noting for one base leaves the paths, so the others mean what they meant
      have hpaths : (noteBase p r base).paths = r.paths := by
        rw [noteBase_eq, foldl_modify_requireInherit, paths_modify]
      rw [List.foldl_cons, ih, matching_congr hpaths, noteBase_eq, ← List.foldl_append, matching,
        matching, List.flatMap_cons, List.map_append]

theorem foldl_requireInherit (n : Node) (targets : List Path) :
    targets.foldl Node.requireInherit n =
      { n with
        inherits := targets.foldl (fun noted target => Node.noteRequirement n.path target noted)
          n.inherits } := by
  induction targets generalizing n with
  | nil => rfl
  | cons target targets ih =>
      rw [List.foldl_cons, ih]
      rfl

/-- The files whose paths are met are linked and the others stay, also where a path is met again:
a file that is linked stays as it is. -/
theorem nodes_foldl_noteBase {nodes : List Node} (hpaths : linked.paths = r.paths)
    (hbases : ∀ n ∈ nodes, ∀ m ∈ linked.nodes, m.path = n.path → m.bases = n.bases) :
    (nodes.foldl (fun linked n => n.bases.foldl (noteBase n.path) linked) linked).nodes =
      linked.nodes.map fun m => if m.path ∈ nodes.map Node.path then r.linkNode m else m := by
  induction nodes generalizing linked with
  | nil => simp
  | cons n nodes ih =>
      obtain ⟨hn, hothers⟩ := List.forall_mem_cons.1 hbases
      have hstep : (n.bases.foldl (noteBase n.path) linked).nodes =
          linked.nodes.map fun m => if m.path = n.path then r.linkNode m else m := by
        rw [foldl_noteBase, foldl_modify_requireInherit, nodes_modify]
        refine List.map_congr_left fun m hm => ?_
        by_cases hpath : m.path = n.path
        · rw [if_pos hpath, if_pos hpath, foldl_requireInherit, linkNode, hn m hm hpath,
            matching_congr hpaths]
        · rw [if_neg hpath, if_neg hpath]
      rw [List.foldl_cons, ih _ _, hstep, List.map_map]
      · refine List.map_congr_left fun m _ => ?_
        by_cases hpath : m.path = n.path <;> simp [hpath, linkNode_linkNode]
      · rw [← hpaths, foldl_noteBase, foldl_modify_requireInherit, paths_modify]
      · intro k hk m hm hpath
        rw [hstep] at hm
        obtain ⟨before, hbefore, rfl⟩ := List.mem_map.1 hm
        split_ifs at hpath ⊢ <;> exact hothers k hk before hbefore hpath

/-- One file after another in the registry that is searched is as good as all at once. -/
theorem linkInPlace_eq (r : Registry) : r.linkInPlace = r.linkInheritance := by
  have hbases : ∀ n ∈ r.nodes, ∀ m ∈ r.nodes, m.path = n.path → m.bases = n.bases :=
    fun n hn m hm hpath => by rw [eq_of_path_eq hm hn hpath]
  ext1
  rw [linkInPlace, nodes_foldl_noteBase rfl hbases, nodes_linkInheritance]
  refine List.map_congr_left fun m hm => ?_
  exact if_pos (path_mem_paths hm)

/-- Linking keeps the order and all of a file but the files its types derive from. To these are
added, base by base and in registry order within a base, the registered files with the stem of a
base, none of them twice, the file itself and what was noted already apart; and linking one file
after another in place comes to the same. Linking again changes nothing. In another order of the
registry the same files are noted for each. -/
theorem linkInheritance_adds_bases (r : Registry) :
    r.linkInheritance.nodes =
      r.nodes.map (fun n => { n with inherits := n.inherits ++ r.newInherits n }) ∧
    r.linkInPlace = r.linkInheritance ∧
    (∀ n, (r.newInherits n).Nodup ∧ ∀ p, p ∈ r.newInherits n ↔
      p ∈ r.paths ∧ p.stem ∈ n.bases ∧ p ≠ n.path ∧ p ∉ n.inherits) ∧
    r.linkInheritance.linkInheritance = r.linkInheritance ∧
    ∀ r' : Registry, r'.nodes.Perm r.nodes → ∀ n ∈ r.linkInheritance.nodes,
      ∃ inherits, inherits.Perm n.inherits ∧
        { n with inherits := inherits } ∈ r'.linkInheritance.nodes := by
  refine ⟨?_, linkInPlace_eq r, ?_, linkInheritance_linkInheritance r, ?_⟩
  · exact List.map_congr_left fun n _ => linkNode_eq r n
  · exact fun n => ⟨nodup_newInherits r n, fun p => mem_newInherits⟩
  · intro r' hperm n hn
    obtain ⟨m, hm, rfl⟩ := mem_nodes_linkInheritance.1 hn
    refine ⟨m.inherits ++ r'.newInherits m, ?_, ?_⟩
    · rw [linkNode_eq]
      exact (newInherits_perm (hperm.map Node.path) m).append_left m.inherits
    · refine mem_nodes_linkInheritance.2 ⟨m, hperm.mem_iff.2 hm, ?_⟩
      rw [linkNode_eq]
      rfl

/-- One of two files with the same stem. -/
def innerBase : Path := .ofLocation ["lib".toList, "B.sol".toList]

/-- A file that names a base twice, one that it has noted, and itself. -/
def derivedFile (inherits : List Path) : Node :=
  { Node.ofPath (.top "R.sol") with
    inherits := inherits, bases := ["B", "A", "B", "R"].map String.toList }

/-- A file beside others, two of which have one stem. -/
def twoOfOneStem : Registry where
  nodes := [derivedFile [.top "A.sol"], .ofPath innerBase, .ofPath (.top "A.sol"),
    .ofPath (.top "B.sol")]
  nodup_paths := by decide

def twoOfOneStemReversed : Registry where
  nodes := twoOfOneStem.nodes.reverse
  nodup_paths := by decide

theorem linkInheritance_of_twoOfOneStem :
    twoOfOneStem.linkInheritance.nodes.head? =
      some (derivedFile [.top "A.sol", innerBase, .top "B.sol"]) ∧
    ∃ inherits : List Path,
      inherits.Perm [.top "A.sol", innerBase, .top "B.sol"] ∧
        derivedFile inherits ∈ twoOfOneStemReversed.linkInheritance.nodes := by
  obtain ⟨hnodes, -, -, -, horders⟩ := linkInheritance_adds_bases twoOfOneStem
  have hhead : twoOfOneStem.linkInheritance.nodes.head? =
      some (derivedFile [.top "A.sol", innerBase, .top "B.sol"]) := by
    rw [hnodes]
    decide
  refine ⟨hhead, ?_⟩
  obtain ⟨inherits, hinherits, hn⟩ :=
    horders twoOfOneStemReversed twoOfOneStem.nodes.reverse_perm _ (List.mem_of_head? hhead)
  exact ⟨inherits, hinherits, hn⟩

end Registry

end SolidityFlattener
