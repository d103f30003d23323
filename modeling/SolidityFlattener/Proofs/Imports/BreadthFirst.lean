import SolidityFlattener.Path
import Mathlib.Data.List.Infix
import Mathlib.Logic.Relation

/-!
The breadth-first order of what a root leads to, told without a search.

The order is built up from the root by a step that lists the root and then, in turn, what each path
listed so far leads to, and keeps first occurrences. Each step only adds at the end, so the lists
grow into one order, and "the first in breadth-first order" means the same in all of them that are
long enough.
-/

namespace SolidityFlattener

variable {next : Path → List Path} {root p q : Path} {as bs : List Path} {steps more : ℕ}
  {bad : Path → Prop}

/-! ### First occurrences -/

theorem eraseDups_concat {α : Type} [BEq α] [LawfulBEq α] (as : List α) (a : α) :
    (as ++ [a]).eraseDups = if a ∈ as then as.eraseDups else as.eraseDups ++ [a] := by
  rw [List.eraseDups_append]
  split
  · next h => simp [List.removeAll, h]
  · next h => simp [List.removeAll, h, List.eraseDups_cons]

/-- What the members of a list give is met first where they are. -/
theorem eraseDups_filterMap_eraseDups {α β : Type} [BEq α] [LawfulBEq α] [BEq β] [LawfulBEq β]
    (f : α → Option β) (as : List α) :
    (as.eraseDups.filterMap f).eraseDups = (as.filterMap f).eraseDups := by
  induction as using List.reverseRecOn with
  | nil => rfl
  | append_singleton as a ih =>
      rw [eraseDups_concat, List.filterMap_append]
      cases hf : f a with
      | none => split_ifs <;> simp [hf, ih]
      | some b =>
          split_ifs with ha
          · -- a member that is met again gives nothing new
            have hb : b ∈ as.filterMap f := List.mem_filterMap.2 ⟨a, ha, hf⟩
            simp [hf, eraseDups_concat, hb, ih]
          · have hmem : b ∈ as.eraseDups.filterMap f ↔ b ∈ as.filterMap f := by
              simp [List.mem_filterMap, List.mem_eraseDups]
            by_cases hb : b ∈ as.filterMap f
            · simp [hf, eraseDups_concat, hmem.2 hb, hb, ih]
            · simp [hf, eraseDups_concat, hmem.not.2 hb, hb, ih]

theorem eraseDups_eraseDups_append {α : Type} [BEq α] [LawfulBEq α] (as bs : List α) :
    (as.eraseDups ++ bs).eraseDups = (as ++ bs).eraseDups := by
  induction bs using List.reverseRecOn with
  | nil => simpa using eraseDups_filterMap_eraseDups some as
  | append_singleton bs b ih =>
      rw [← List.append_assoc, ← List.append_assoc, eraseDups_concat, eraseDups_concat, ih]
      simp only [List.mem_append, List.mem_eraseDups]

theorem findSome?_eraseDups {α β : Type} [BEq α] [LawfulBEq α] (f : α → Option β)
    (as : List α) :
    as.eraseDups.findSome? f = as.findSome? f := by
  induction as using List.reverseRecOn with
  | nil => rfl
  | append_singleton as a ih =>
      rw [eraseDups_concat, List.findSome?_append, ← ih]
      split_ifs with ha
      · cases hfirst : as.eraseDups.findSome? f with
        | some b => rfl
        | none =>
            have hnone := List.findSome?_eq_none_iff.1 hfirst a (List.mem_eraseDups.2 ha)
            simp [hnone]
      · rw [List.findSome?_append]

theorem eraseDups_mono (h : as <+: bs) : as.eraseDups <+: bs.eraseDups := by
  obtain ⟨rest, rfl⟩ := h
  rw [List.eraseDups_append]
  exact List.prefix_append _ _

/-! ### The order -/

/-- The root and what some paths lead to, path by path, each where it is met first. -/
def metFrom (next : Path → List Path) (root : Path) (paths : List Path) : List Path :=
  (root :: paths.flatMap next).eraseDups

/-- What a root leads to within a number of steps, in breadth-first order. -/
def breadthFirst (next : Path → List Path) (root : Path) : ℕ → List Path
  | 0 => [root]
  | steps + 1 => metFrom next root (breadthFirst next root steps)

theorem metFrom_mono (h : as <+: bs) : metFrom next root as <+: metFrom next root bs :=
  eraseDups_mono (List.prefix_append_right_inj [root] |>.2 (h.flatMap next))

theorem mem_metFrom : p ∈ metFrom next root as ↔ p = root ∨ ∃ q ∈ as, p ∈ next q := by
  simp [metFrom, List.mem_eraseDups]

theorem breadthFirst_mono_succ (next : Path → List Path) (root : Path) (steps : ℕ) :
    breadthFirst next root steps <+: breadthFirst next root (steps + 1) := by
  induction steps with
  | zero => exact eraseDups_mono (List.prefix_append [root] _)
  | succ steps ih => exact metFrom_mono ih

theorem breadthFirst_mono (h : steps ≤ more) :
    breadthFirst next root steps <+: breadthFirst next root more := by
  induction more, h using Nat.le_induction with
  | base => exact List.prefix_refl _
  | succ more _ ih => exact ih.trans (breadthFirst_mono_succ next root more)

/-- The order lists exactly what can be reached. -/
theorem exists_mem_breadthFirst_iff :
    (∃ steps, p ∈ breadthFirst next root steps) ↔
      Relation.ReflTransGen (fun p q => q ∈ next p) root p := by
  constructor
  · rintro ⟨steps, hp⟩
    induction steps generalizing p with
    | zero =>
        obtain rfl : p = root := by simpa [breadthFirst] using hp
        exact .refl
    | succ steps ih =>
        rcases mem_metFrom.1 hp with rfl | ⟨q, hq, hedge⟩
        · exact .refl
        · exact (ih hq).tail hedge
  · intro hreach
    induction hreach with
    | refl => exact ⟨0, by simp [breadthFirst]⟩
    | tail _ hedge ih =>
        obtain ⟨steps, hq⟩ := ih
        exact ⟨steps + 1, mem_metFrom.2 (.inr ⟨_, hq, hedge⟩)⟩

/-! ### The first of a kind -/

/-- The first path in breadth-first order that has a property. -/
def FirstMet (next : Path → List Path) (root : Path) (bad : Path → Prop) (p : Path) : Prop :=
  ∃ steps before after, breadthFirst next root steps = before ++ p :: after ∧ bad p ∧
    ∀ q ∈ before, ¬bad q

theorem FirstMet.is_bad (h : FirstMet next root bad p) : bad p := by
  obtain ⟨-, -, -, -, hbad, -⟩ := h
  exact hbad

theorem FirstMet.reached (h : FirstMet next root bad p) :
    Relation.ReflTransGen (fun p q => q ∈ next p) root p := by
  obtain ⟨steps, before, after, hsplit, -⟩ := h
  exact exists_mem_breadthFirst_iff.1 ⟨steps, by simp [hsplit]⟩

/-- The property matters only where it is reached. -/
theorem firstMet_congr {other : Path → Prop}
    (h : ∀ q, Relation.ReflTransGen (fun p q => q ∈ next p) root q → (bad q ↔ other q)) :
    FirstMet next root bad p ↔ FirstMet next root other p := by
  refine exists_congr fun steps => exists_congr fun before => exists_congr fun after => ?_
  refine and_congr_right fun hsplit => ?_
  have hiff : ∀ q ∈ before ++ p :: after, (bad q ↔ other q) := fun q hq =>
    h q (exists_mem_breadthFirst_iff.1 ⟨steps, hsplit ▸ hq⟩)
  refine and_congr (hiff p (by simp)) (forall₂_congr fun q hq => not_congr (hiff q ?_))
  exact List.mem_append_left _ hq

theorem FirstMet.unique (hp : FirstMet next root bad p) (hq : FirstMet next root bad q) :
    p = q := by
  classical
  have hfind : ∀ {r}, FirstMet next root bad r →
      ∃ steps, (breadthFirst next root steps).find? (fun s => decide (bad s)) = some r := by
    rintro r ⟨steps, before, after, hsplit, hbad, hbefore⟩
    exact ⟨steps, List.find?_eq_some_iff_append.2
      ⟨by simpa using hbad, before, after, hsplit, by simpa using hbefore⟩⟩
  obtain ⟨steps, hp⟩ := hfind hp
  obtain ⟨more, hq⟩ := hfind hq
  have hlong := (breadthFirst_mono (le_max_left steps more)).find?_eq_some hp
  have hlong' := (breadthFirst_mono (le_max_right steps more)).find?_eq_some hq
  exact Option.some.inj (hlong.symm.trans hlong')

end SolidityFlattener
