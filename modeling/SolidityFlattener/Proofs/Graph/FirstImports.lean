import SolidityFlattener.Proofs.Graph.Edges
import SolidityFlattener.Proofs.Imports.BreadthFirst
import Mathlib.Data.Prod.Lex
import Mathlib.Order.Bounds.Basic

/-!
Registries in breadth-first order.

A registry is in breadth-first order from a root if its paths are the root and then, file by file,
what the files import, each path where it is met first. The order of two files is then that of
their first imports: an earlier importer decides, and among the imports of one file the position
there. From this alone it follows that no file stands before one that is fewer imports away from
the root, by an induction on the number of imports.
-/

namespace SolidityFlattener

/-! ### First occurrences -/

section Occurrences

variable {α : Type} [BEq α] [LawfulBEq α] {as : List α} {a b : α}

theorem nodup_eraseDups (as : List α) : as.eraseDups.Nodup := by
  induction as using List.reverseRecOn with
  | nil => exact List.nodup_nil
  | append_singleton as a ih =>
      rw [eraseDups_concat]
      split_ifs with ha
      · exact ih
      · refine List.nodup_append.2 ⟨ih, by simp, ?_⟩
        rintro b hb c hc rfl
        rw [List.mem_singleton.1 hc] at hb
        exact ha (List.mem_eraseDups.1 hb)

/-- Without its repetitions a list keeps the order in which its members are met first. -/
theorem idxOf_eraseDups_lt_iff (ha : a ∈ as) (hb : b ∈ as) :
    as.eraseDups.idxOf a < as.eraseDups.idxOf b ↔ as.idxOf a < as.idxOf b := by
  induction as using List.reverseRecOn with
  | nil => simp at ha
  | append_singleton as c ih =>
      have hlength : ∀ {d}, d ∈ as → as.idxOf d < as.length := List.idxOf_lt_length_iff.2
      have hlength' : ∀ {d}, d ∈ as → as.eraseDups.idxOf d < as.eraseDups.length := fun hd =>
        List.idxOf_lt_length_iff.2 (List.mem_eraseDups.2 hd)
      rw [eraseDups_concat]
      by_cases hc : c ∈ as
      · have hmem : ∀ {d}, d ∈ as ++ [c] → d ∈ as := by
          intro d hd
          rcases List.mem_append.1 hd with hd | hd
          · exact hd
          · rwa [List.mem_singleton.1 hd]
        rw [if_pos hc, List.idxOf_append_of_mem (hmem ha), List.idxOf_append_of_mem (hmem hb)]
        exact ih (hmem ha) (hmem hb)
      · -- the new member is met behind all others, in both lists
        have hnew : (as ++ [c]).idxOf c = as.length := by
          rw [List.idxOf_append_of_notMem hc]
          simp
        have hnew' : (as.eraseDups ++ [c]).idxOf c = as.eraseDups.length := by
          rw [List.idxOf_append_of_notMem (by rwa [List.mem_eraseDups])]
          simp
        have hold : ∀ {d}, d ∈ as → (as ++ [c]).idxOf d = as.idxOf d ∧
            (as.eraseDups ++ [c]).idxOf d = as.eraseDups.idxOf d := fun hd =>
          ⟨List.idxOf_append_of_mem hd, List.idxOf_append_of_mem (List.mem_eraseDups.2 hd)⟩
        rw [if_neg hc]
        rw [List.mem_append, List.mem_singleton] at ha hb
        rcases ha with ha | rfl <;> rcases hb with hb | rfl
        · rw [(hold ha).1, (hold ha).2, (hold hb).1, (hold hb).2]
          exact ih ha hb
        · rw [(hold ha).1, (hold ha).2, hnew, hnew']
          exact iff_of_true (hlength' ha) (hlength ha)
        · rw [(hold hb).1, (hold hb).2, hnew, hnew']
          exact iff_of_false (hlength' hb).not_gt (hlength hb).not_gt
        · simp

end Occurrences

/-! ### Distances -/

/-- The paths that a root leads to in a given number of steps. -/
inductive LeadsIn (edge : Path → Path → Prop) (root : Path) : ℕ → Path → Prop
  | start : LeadsIn edge root 0 root
  | step {steps : ℕ} {p q : Path} :
      LeadsIn edge root steps p → edge p q → LeadsIn edge root (steps + 1) q

variable {edge : Path → Path → Prop} {root p q : Path}

theorem exists_leadsIn (h : Relation.ReflTransGen edge root p) :
    ∃ steps, LeadsIn edge root steps p := by
  induction h with
  | refl => exact ⟨0, .start⟩
  | tail _ hedge ih =>
      obtain ⟨steps, hsteps⟩ := ih
      exact ⟨steps + 1, hsteps.step hedge⟩

namespace Registry

variable {r : Registry} {n m : Node} {i j k l d e steps : ℕ}

/-- The least number of imports from a root to a path. -/
def IsDistance (r : Registry) (root p : Path) (d : ℕ) : Prop :=
  IsLeast {steps | LeadsIn (r.Requires .imports) root steps p} d

theorem exists_isDistance (h : Relation.ReflTransGen (r.Requires .imports) root p) :
    ∃ d, r.IsDistance root p d := by
  classical
  exact ⟨_, Nat.isLeast_find (exists_leadsIn h)⟩

/-! ### First imports -/

/-- The place of the first import of a path: the index of the first file that imports it, and the
position of the import there. -/
def FirstImportedAt (r : Registry) (p : Path) (i j : ℕ) : Prop :=
  ∃ n, r.nodes[i]? = some n ∧ n.imports[j]? = some p ∧ ∀ m ∈ r.nodes.take i, p ∉ m.imports

theorem idxOf_path (hn : r.nodes[i]? = some n) : r.paths.idxOf n.path = i := by
  obtain ⟨hi, rfl⟩ := List.getElem?_eq_some_iff.1 hn
  have hlength : i < r.paths.length := by simpa [paths] using hi
  have hpath : r.paths[i] = r.nodes[i].path := List.getElem_map _
  rw [← hpath]
  exact List.Nodup.idxOf_getElem r.nodup_paths i hlength

/-- What some file imports is imported first somewhere, not behind that file. -/
theorem exists_firstImportedAt (hn : n ∈ r.nodes) (hp : p ∈ n.imports) :
    ∃ i j, r.FirstImportedAt p i j ∧ i ≤ r.paths.idxOf n.path := by
  obtain ⟨k, hk⟩ := List.mem_iff_getElem?.1 hn
  have hexists : ∃ i, ∃ n : Node, r.nodes[i]? = some n ∧ p ∈ n.imports := ⟨k, n, hk, hp⟩
  classical
  obtain ⟨first, hfirst, himports⟩ := Nat.find_spec hexists
  obtain ⟨j, hj⟩ := List.mem_iff_getElem?.1 himports
  refine ⟨Nat.find hexists, j, ⟨first, hfirst, hj, ?_⟩, ?_⟩
  · intro m hm hmp
    obtain ⟨i, hi, rfl⟩ := List.mem_take_iff_getElem.1 hm
    obtain ⟨hlt, hlength⟩ := lt_min_iff.1 hi
    exact Nat.find_min hexists hlt ⟨_, List.getElem?_eq_getElem hlength, hmp⟩
  · rw [idxOf_path hk]
    exact Nat.find_min' hexists ⟨n, hk, hp⟩

/-- How many imports the files before an index have in all. -/
def importsBefore (r : Registry) (i : ℕ) : ℕ := ((r.nodes.take i).flatMap Node.imports).length

theorem importsBefore_add_le (hn : r.nodes[i]? = some n) (hik : i < k) :
    r.importsBefore i + n.imports.length ≤ r.importsBefore k := by
  have hprefix : (r.nodes.take (i + 1)).flatMap Node.imports <+:
      (r.nodes.take k).flatMap Node.imports :=
    (List.take_prefix_take_left hik).flatMap _
  have hnext : (r.nodes.take (i + 1)).flatMap Node.imports =
      (r.nodes.take i).flatMap Node.imports ++ n.imports := by
    simp [List.take_add_one, hn]
  have hle := hprefix.length_le
  rw [hnext, List.length_append] at hle
  exact hle

theorem FirstImportedAt.idxOf_flatMap (h : r.FirstImportedAt p i j)
    (hnodup : ∀ n ∈ r.nodes, n.imports.Nodup) :
    (r.nodes.flatMap Node.imports).idxOf p = r.importsBefore i + j := by
  obtain ⟨n, hn, hp, hfirst⟩ := h
  obtain ⟨hj, rfl⟩ := List.getElem?_eq_some_iff.1 hp
  obtain ⟨hi, rfl⟩ := List.getElem?_eq_some_iff.1 hn
  have hbefore : r.nodes[i].imports[j] ∉ (r.nodes.take i).flatMap Node.imports := by
    intro hmem
    obtain ⟨m, hm, hmp⟩ := List.mem_flatMap.1 hmem
    exact hfirst m hm hmp
  have hsplit : r.nodes.flatMap Node.imports = (r.nodes.take i).flatMap Node.imports ++
      (r.nodes[i].imports ++ (r.nodes.drop (i + 1)).flatMap Node.imports) := by
    rw [← List.flatMap_cons, ← List.drop_eq_getElem_cons hi, ← List.flatMap_append,
      List.take_append_drop]
  rw [hsplit, List.idxOf_append_of_notMem hbefore, List.idxOf_append_of_mem (List.getElem_mem hj),
    (hnodup _ (List.getElem_mem hi)).idxOf_getElem]
  rfl

/-- A later first import is one further on among all imports. -/
theorem FirstImportedAt.importsBefore_lt (hp : r.FirstImportedAt p i j) (hik : i < k) :
    r.importsBefore i + j < r.importsBefore k := by
  obtain ⟨n, hn, hp, -⟩ := hp
  obtain ⟨hj, -⟩ := List.getElem?_eq_some_iff.1 hp
  have hle := importsBefore_add_le hn hik
  omega

/-! ### Breadth-first order -/

/-- The files stand in breadth-first order from a root, and no file imports another twice. -/
structure BreadthFirst (r : Registry) (root : Path) : Prop where
  paths_eq : r.paths = (root :: r.nodes.flatMap Node.imports).eraseDups
  nodup_imports : ∀ n ∈ r.nodes, n.imports.Nodup

namespace BreadthFirst

theorem head?_paths (h : r.BreadthFirst root) : r.paths.head? = some root := by
  rw [h.paths_eq, List.eraseDups_cons]
  rfl

theorem idxOf_root (h : r.BreadthFirst root) : r.paths.idxOf root = 0 := by
  rw [h.paths_eq, List.eraseDups_cons, List.idxOf_cons_self]

theorem eq_root_of_idxOf_le (h : r.BreadthFirst root) (hp : p ∈ r.paths)
    (hle : r.paths.idxOf p ≤ r.paths.idxOf root) : p = root := by
  have hget := List.getElem?_idxOf hp
  rw [h.idxOf_root, Nat.le_zero] at hle
  rw [hle, ← List.head?_eq_getElem?, h.head?_paths] at hget
  exact (Option.some.inj hget).symm

theorem exists_firstImportedAt (h : r.BreadthFirst root) (hp : p ∈ r.paths) (hroot : p ≠ root) :
    ∃ i j, r.FirstImportedAt p i j := by
  rw [h.paths_eq, List.mem_eraseDups, List.mem_cons] at hp
  obtain ⟨n, hn, himports⟩ := List.mem_flatMap.1 (hp.resolve_left hroot)
  obtain ⟨i, j, hfirst, -⟩ := Registry.exists_firstImportedAt hn himports
  exact ⟨i, j, hfirst⟩

/-- Files stand in the order of their first imports. -/
theorem idxOf_lt_iff (h : r.BreadthFirst root) (hp : r.FirstImportedAt p i j) (hproot : p ≠ root)
    (hq : r.FirstImportedAt q k l) (hqroot : q ≠ root) :
    r.paths.idxOf p < r.paths.idxOf q ↔ toLex (i, j) < toLex (k, l) := by
  have hmem : ∀ {p i j}, r.FirstImportedAt p i j → p ∈ root :: r.nodes.flatMap Node.imports := by
    rintro p i j ⟨n, hn, hp, -⟩
    exact List.mem_cons_of_mem _ (List.mem_flatMap.2
      ⟨n, List.mem_of_getElem? hn, List.mem_of_getElem? hp⟩)
  rw [h.paths_eq, idxOf_eraseDups_lt_iff (hmem hp) (hmem hq), List.idxOf_cons_ne _ hproot.symm,
    List.idxOf_cons_ne _ hqroot.symm, hp.idxOf_flatMap h.nodup_imports,
    hq.idxOf_flatMap h.nodup_imports, Prod.Lex.toLex_lt_toLex]
  rcases lt_trichotomy i k with hik | rfl | hki
  · have hlt := hp.importsBefore_lt hik
    show _ ↔ i < k ∨ _
    omega
  · show _ ↔ i < i ∨ i = i ∧ j < l
    omega
  · have hlt := hq.importsBefore_lt hki
    show _ ↔ i < k ∨ i = k ∧ _
    omega

/-- What stands before a path is led to in no more steps. -/
theorem exists_leadsIn_of_idxOf_le (h : r.BreadthFirst root)
    (hq : LeadsIn (r.Requires .imports) root steps q) (hp : p ∈ r.paths)
    (hle : r.paths.idxOf p ≤ r.paths.idxOf q) :
    ∃ less ≤ steps, LeadsIn (r.Requires .imports) root less p := by
  induction hq generalizing p with
  | start => exact ⟨0, le_rfl, h.eq_root_of_idxOf_le hp hle ▸ .start⟩
  | @step steps a q _ hedge ih =>
      by_cases hproot : p = root
      · exact ⟨0, Nat.zero_le _, hproot ▸ .start⟩
      -- the first importer of the one path stands no later than that of the other, and this no
      -- later than the file through which the other is led to
      obtain ⟨i, j, hpfirst⟩ := h.exists_firstImportedAt hp hproot
      obtain ⟨m, hm, rfl, hq⟩ := hedge
      obtain ⟨k, l, hqfirst, hk⟩ := Registry.exists_firstImportedAt hm hq
      have hqroot : q ≠ root := by
        rintro rfl
        exact hproot (h.eq_root_of_idxOf_le hp hle)
      have hnot := mt (h.idxOf_lt_iff hqfirst hqroot hpfirst hproot).2 hle.not_gt
      rw [Prod.Lex.toLex_lt_toLex, not_or] at hnot
      obtain ⟨n, hn, himports, -⟩ := hpfirst
      have hmem : n ∈ r.nodes := List.mem_of_getElem? hn
      have hbefore : r.paths.idxOf n.path ≤ r.paths.idxOf m.path := by
        rw [idxOf_path hn]
        exact (not_lt.1 hnot.1).trans hk
      obtain ⟨less, hless, hway⟩ := ih (path_mem_paths hmem) hbefore
      exact ⟨less + 1, by omega, hway.step ⟨n, hmem, rfl, List.mem_of_getElem? himports⟩⟩

/-- A path that is led to is imported by a file before it: the last one on a shortest way. -/
theorem exists_importer_before (h : r.BreadthFirst root) (hp : p ∈ r.paths) (hroot : p ≠ root)
    (hreach : Relation.ReflTransGen (r.Requires .imports) root p) :
    ∃ n ∈ r.nodes, p ∈ n.imports ∧ r.paths.idxOf n.path < r.paths.idxOf p := by
  obtain ⟨d, hway, hleast⟩ := exists_isDistance hreach
  cases hway with
  | start => exact absurd rfl hroot
  | @step steps a _ hway hedge =>
      obtain ⟨n, hn, rfl, himports⟩ := hedge
      refine ⟨n, hn, himports, ?_⟩
      by_contra hbehind
      obtain ⟨less, hless, hshort⟩ :=
        h.exists_leadsIn_of_idxOf_le hway hp (not_lt.1 hbehind)
      have hle := hleast hshort
      omega

/-- No file stands before one that is fewer imports away from the root. -/
theorem distance_le (h : r.BreadthFirst root) (hp : p ∈ r.paths)
    (hle : r.paths.idxOf p ≤ r.paths.idxOf q) (hd : r.IsDistance root p d)
    (he : r.IsDistance root q e) : d ≤ e := by
  obtain ⟨less, hless, hway⟩ := h.exists_leadsIn_of_idxOf_le he.1 hp hle
  exact (hd.2 hway).trans hless

end BreadthFirst

end Registry

end SolidityFlattener
