import SolidityFlattener.Proofs.Tree.Advance
import SolidityFlattener.Tree.Access

/-!
What an access to a tree looks up, and on what its answer depends.

The lookups of an access are the locations on the way of the path that it asks for, in this tree:
those of the walk, and of the search for a canonical path those that the search comes to. Two trees
that have the same kinds of things there answer the same, whatever else they hold; what a file holds
matters only to the access that reads it. A search for a canonical path asks for the links of the
tree as well, to know which ones it has not tried yet.
-/

namespace SolidityFlattener.Tree

variable {t t' : Tree} {cwd here place : Location} {names : List Text} {p : Path} {aim : Aim}
  {strict : Bool} {untried : List Location} {text : Text}

/-! ### Ways to a location -/

/-- Where the walk along a path starts. -/
def startOf (cwd : Location) (p : Path) : Standing := ⟨linkLimit, p.origin cwd, p.parts⟩

/-- A path that is asked for at all: it holds no null character and is not too long. -/
def Askable (p : Path) : Prop :=
  Char.ofNat 0 ∉ p.text ∧ Text.utf8Size p.text < pathLimit

instance (p : Path) : Decidable (Askable p) := inferInstanceAs (Decidable (_ ∧ _))

theorem locate_of_askable (h : Askable p) :
    t.locate aim cwd p = t.walk aim linkLimit (p.origin cwd) p.parts := by
  have hlong := Nat.not_le.2 h.2
  simp [locate, h.1, hlong]

theorem locate_of_not_askable (h : ¬Askable p) : t'.locate aim cwd p = t.locate aim cwd p := by
  unfold locate
  split_ifs with hnul hlong
  · rfl
  · rfl
  · exact absurd ⟨by simpa using hnul, Nat.not_le.1 hlong⟩ h

theorem locate_eq_ok_iff :
    t.locate aim cwd p = .ok place ↔ Askable p ∧ t.Leads aim (startOf cwd p) place := by
  constructor
  · intro h
    have hask : Askable p := by
      unfold locate at h
      split_ifs at h with hnul hlong
      exact ⟨by simpa using hnul, Nat.not_le.1 hlong⟩
    rw [locate_of_askable hask] at h
    exact ⟨hask, walk_eq_ok_iff.1 h⟩
  · rintro ⟨hask, hleads⟩
    rw [locate_of_askable hask]
    exact walk_eq_ok_iff.2 hleads

/-- The locations on the way of a path. -/
def locateLookups (t : Tree) (aim : Aim) (cwd : Location) (p : Path) : List Location :=
  if Askable p then t.walkLookups aim (startOf cwd p) else []

theorem locateLookups_of_askable (h : Askable p) :
    t.locateLookups aim cwd p = t.walkLookups aim (startOf cwd p) := if_pos h

theorem mem_locateLookups (h : t.locate aim cwd p = .ok place) :
    place ∈ t.locateLookups aim cwd p := by
  obtain ⟨hask, hleads⟩ := locate_eq_ok_iff.1 h
  rw [locateLookups_of_askable hask]
  exact mem_walkLookups_of_leads hleads

theorem locate_congr (h : ∀ place ∈ t.locateLookups aim cwd p,
    t'.shapeAt place = t.shapeAt place) : t'.locate aim cwd p = t.locate aim cwd p := by
  by_cases hask : Askable p
  · rw [locateLookups_of_askable hask] at h
    rw [locate_of_askable hask, locate_of_askable hask]
    exact walk_congr h
  · exact locate_of_not_askable hask

/-! ### Questions -/

theorem asks_eq (t : Tree) (cwd : Location) (p : Path) (answer : Entry → Bool)
    (hanswer : ∀ entry, answer entry.shape = answer entry) :
    t.asks cwd p answer =
      match t.locate .target cwd p with
      | .ok place => .ok ((t.shapeAt place).any answer)
      | .error .nameTooLong => .error .nameTooLong
      | .error _ => .ok false := by
  unfold asks find
  cases t.locate .target cwd p with
  | error fault => cases fault <;> rfl
  | ok place =>
      unfold shapeAt
      cases hlookup : t.lookup place with
      | none => simp [hlookup, bind, Except.bind]
      | some entry => simp [hlookup, bind, Except.bind, hanswer]

theorem asks_congr {answer : Entry → Bool} (hanswer : ∀ entry, answer entry.shape = answer entry)
    (h : ∀ place ∈ t.locateLookups .target cwd p, t'.shapeAt place = t.shapeAt place) :
    t'.asks cwd p answer = t.asks cwd p answer := by
  rw [asks_eq t' cwd p answer hanswer, asks_eq t cwd p answer hanswer, locate_congr h]
  cases hlocate : t.locate .target cwd p with
  | error fault => cases fault <;> rfl
  | ok place => simp only [h place (mem_locateLookups hlocate)]

theorem isFile_congr
    (h : ∀ place ∈ t.locateLookups .target cwd p, t'.shapeAt place = t.shapeAt place) :
    t'.isFile cwd p = t.isFile cwd p :=
  asks_congr (by rintro (_ | _ | _) <;> rfl) h

theorem isDirectory_congr
    (h : ∀ place ∈ t.locateLookups .target cwd p, t'.shapeAt place = t.shapeAt place) :
    t'.isDirectory cwd p = t.isDirectory cwd p :=
  asks_congr (by rintro (_ | _ | _) <;> rfl) h

/-- What a file holds matters where it is read, and only there. -/
theorem readText_congr
    (h : ∀ place ∈ t.locateLookups .target cwd p, t'.shapeAt place = t.shapeAt place)
    (hread : ∀ place, t.locate .target cwd p = .ok place → t'.lookup place = t.lookup place) :
    t'.readText cwd p = t.readText cwd p := by
  have hfind : t'.find cwd p = t.find cwd p := by
    unfold find
    rw [locate_congr h]
    cases hlocate : t.locate .target cwd p with
    | error fault => rfl
    | ok place => simp [hread place hlocate, bind, Except.bind]
  unfold readText readBytes
  rw [hfind]

/-! ### Canonical paths -/

/-- The search for a canonical path asks for the kinds of things only. -/
theorem canonical_cons (t : Tree) (strict : Bool) (untried : List Location) (here : Location)
    (name : Text) (rest : List Text) :
    t.canonical strict untried here (name :: rest) =
      if name = ['.', '.'] then t.canonical strict untried here.dropLast rest
      else if name.contains (Char.ofNat 0) then .error (.ofNul name)
      else match t.shapeAt (here ++ [name]) with
        | some (.link target) =>
          if here ++ [name] ∈ untried then
            match t.canonical strict (untried.erase (here ++ [name])) (targetOrigin target here)
                (linkNames target) with
            | .error e => .error e
            | .ok (.circle link more) => .ok (.circle link (more ++ rest))
            | .ok (.place reached) => t.canonical strict untried reached rest
          else .ok (.circle (here ++ [name]) rest)
        | some _ => t.canonical strict untried (here ++ [name]) rest
        | none =>
          if strict then .error (t.absence here name)
          else t.canonical strict untried (here ++ [name]) rest := by
  rw [canonical, shapeAt]
  cases t.lookup (here ++ [name]) with
  | none => rfl
  | some entry => cases entry <;> rfl

/-- The locations that the search for a canonical path looks up. -/
def canonicalLookups (t : Tree) (strict : Bool) (untried : List Location) (here : Location) :
    List Text → List Location
  | [] => []
  | name :: rest =>
    if name = ['.', '.'] then canonicalLookups t strict untried here.dropLast rest
    else if name.contains (Char.ofNat 0) then []
    else (here ++ [name]) ::
      match t.lookup (here ++ [name]) with
      | some (.link target) =>
        if here ++ [name] ∈ untried then
          canonicalLookups t strict (untried.erase (here ++ [name])) (targetOrigin target here)
              (linkNames target) ++
            match t.canonical strict (untried.erase (here ++ [name])) (targetOrigin target here)
                (linkNames target) with
            | .ok (.place reached) => canonicalLookups t strict untried reached rest
            | _ => []
        else []
      | some _ => canonicalLookups t strict untried (here ++ [name]) rest
      -- why a name is missing is told by what it would be in
      | none => if strict then [here] else canonicalLookups t strict untried (here ++ [name]) rest
termination_by names => (untried.length, names.length)
decreasing_by
  · exact .right _ (by simp)
  · next h => exact .left _ _ (length_erase_lt h)
  · exact .right _ (by simp)
  · exact .right _ (by simp)
  · exact .right _ (by simp)

theorem canonical_congr (h : ∀ place ∈ t.canonicalLookups strict untried here names,
    t'.shapeAt place = t.shapeAt place) :
    t'.canonical strict untried here names = t.canonical strict untried here names := by
  fun_induction canonicalLookups t strict untried here names with
  | case1 => rw [canonical, canonical]
  | case2 untried here rest ih => simpa [canonical_cons] using ih h
  | case3 untried here name rest hparent hnul =>
      have hmem : Char.ofNat 0 ∈ name := by simpa using hnul
      simp [canonical_cons, hparent, hmem]
  | case4 untried here name rest hparent hnul ihtarget ihrest ihnext =>
      obtain ⟨hname, hmore⟩ := List.forall_mem_cons.1 h
      simp only [canonical_cons, if_neg hparent, if_neg hnul, hname]
      unfold shapeAt
      cases hentry : t.lookup (here ++ [name]) with
      | none =>
          simp only [hentry, Option.map_none] at hmore ⊢
          cases strict with
          | true =>
              have hhere := isDirectoryAt_congr (hmore here (by simp))
              simp [absence, hhere]
          | false => simp [ihnext (by simpa using hmore)]
      | some entry =>
          cases entry with
          | file content => simp [Entry.shape, ihnext (by simpa [hentry] using hmore)]
          | directory => simp [Entry.shape, ihnext (by simpa [hentry] using hmore)]
          | link target =>
              simp only [hentry, Option.map_some, Entry.shape] at hmore ⊢
              by_cases hmem : here ++ [name] ∈ untried
              · simp only [hmem, if_true, List.forall_mem_append] at hmore
                obtain ⟨htarget, hafter⟩ := hmore
                simp only [hmem, if_true, ihtarget target hmem htarget]
                cases hreach : t.canonical strict (untried.erase (here ++ [name]))
                    (targetOrigin target here) (linkNames target) with
                | error fault => rfl
                | ok reach =>
                    rw [hreach] at hafter
                    cases reach with
                    | circle link more => rfl
                    | place reached => exact ihrest reached hafter
              · simp [hmem]

/-- The locations that are looked up for a canonical path. -/
def realPathLookups (t : Tree) (strict : Bool) (cwd : Location) (p : Path) : List Location :=
  t.canonicalLookups strict t.links (p.origin cwd) p.parts ++
    match t.canonical strict t.links (p.origin cwd) p.parts with
    | .ok (.circle link rest) =>
      t.locateLookups .target [] (Path.ofLocation (if strict then link else lexical (link ++ rest)))
    | _ => []

theorem realPath_congr (hlinks : t'.links = t.links)
    (h : ∀ place ∈ t.realPathLookups strict cwd p, t'.shapeAt place = t.shapeAt place) :
    t'.realPath strict cwd p = t.realPath strict cwd p := by
  obtain ⟨hcanonical, hcircle⟩ := List.forall_mem_append.1 h
  unfold realPath
  rw [hlinks, canonical_congr hcanonical]
  cases hreach : t.canonical strict t.links (p.origin cwd) p.parts with
  | error fault => rfl
  | ok reach =>
      cases reach with
      | place place => rfl
      | circle link rest =>
          rw [hreach] at hcircle
          simp only [bind, Except.bind, circleFault, locate_congr hcircle]

end SolidityFlattener.Tree
