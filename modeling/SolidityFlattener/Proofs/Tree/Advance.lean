import SolidityFlattener.Proofs.Tree.Walks

/-!
A walk as a run of single steps, and what each of them looks up.

`Tree.advance` says what a walk does at one standing, and `Tree.walk_eq_advance` that the walk does
just that until it ends. A step asks only for the kinds of what stands at its `glances`, so what
holds of one step by looking at these holds of a whole walk by `Tree.advance_induction`.
-/

namespace SolidityFlattener

/-- An entry without what a file holds. -/
def Entry.shape : Entry → Entry
  | .file _ => .file .empty
  | .directory => .directory
  | .link target => .link target

namespace Tree

variable {t t' : Tree} {here place : Location} {name : Text} {rest : List Text} {aim : Aim}
  {links : ℕ} {s next : Standing} {outcome : Except Fault Location}

/-- What kind of thing stands at a location. -/
def shapeAt (t : Tree) (place : Location) : Option Entry := (t.lookup place).map Entry.shape

theorem shapeAt_congr (h : t'.lookup place = t.lookup place) : t'.shapeAt place = t.shapeAt place :=
  congrArg (Option.map Entry.shape) h

theorem isDirectoryAt_eq_shape (t : Tree) (place : Location) :
    t.isDirectoryAt place = match t.shapeAt place with | some .directory => true | _ => false := by
  unfold isDirectoryAt shapeAt
  cases t.lookup place with
  | none => rfl
  | some entry => cases entry <;> rfl

theorem isDirectoryAt_congr (h : t'.shapeAt place = t.shapeAt place) :
    t'.isDirectoryAt place = t.isDirectoryAt place := by
  rw [isDirectoryAt_eq_shape, isDirectoryAt_eq_shape, h]

/-! ### One step -/

/-- What a walk does next: it ends, or it goes on from another standing. -/
inductive Advance
  | ends (outcome : Except Fault Location)
  | goes (next : Standing)

/-- A name for which a walk looks up what stands below the location it has reached. -/
def Asks (aim : Aim) (name : Text) (rest : List Text) : Prop :=
  ¬(name = [] ∨ name = ['.']) ∧ name ≠ ['.', '.'] ∧ ¬(aim = .newFile ∧ rest = [[]]) ∧
    ¬nameLimit < Text.utf8Size name

instance (aim : Aim) (name : Text) (rest : List Text) : Decidable (Asks aim name rest) :=
  inferInstanceAs (Decidable (_ ∧ _))

/-- What a walk does once it knows what stands below. -/
def advanceTo (aim : Aim) (links : ℕ) (here : Location) (name : Text) (rest : List Text) :
    Option Entry → Advance
  | none => .ends (if rest.isEmpty then .ok (here ++ [name]) else .error .missing)
  | some (.link target) =>
    if rest = [] ∧ aim = .entry then .ends (.ok (here ++ [name]))
    else match links with
      | 0 => .ends (.error .tooManyLinks)
      | left + 1 => .goes ⟨left, targetOrigin target here, targetNames target ++ rest⟩
  | some _ => .goes ⟨links, here ++ [name], rest⟩

def advance (t : Tree) (aim : Aim) : Standing → Advance
  | ⟨_, here, []⟩ => .ends (.ok here)
  | ⟨links, here, name :: rest⟩ =>
    if !t.isDirectoryAt here then .ends (.error .notDirectory)
    else if name = [] ∨ name = ['.'] then .goes ⟨links, here, rest⟩
    else if name = ['.', '.'] then .goes ⟨links, here.dropLast, rest⟩
    else if aim = .newFile ∧ rest = [[]] then .ends (.error .isDirectory)
    else if nameLimit < Text.utf8Size name then .ends (.error .nameTooLong)
    else advanceTo aim links here name rest (t.shapeAt (here ++ [name]))

theorem advance_of_asks (hdir : t.isDirectoryAt here) (hasks : Asks aim name rest) :
    t.advance aim ⟨links, here, name :: rest⟩ =
      advanceTo aim links here name rest (t.shapeAt (here ++ [name])) := by
  obtain ⟨hblank, hparent, hslash, hlong⟩ := hasks
  simp [advance, hdir, hblank, hparent, hslash, hlong]

/-- Without a question about the next name only the location reached matters. -/
theorem advance_of_not_asks (hdir : t'.isDirectoryAt here = t.isDirectoryAt here)
    (hasks : ¬(t.isDirectoryAt here ∧ Asks aim name rest)) :
    t'.advance aim ⟨links, here, name :: rest⟩ = t.advance aim ⟨links, here, name :: rest⟩ := by
  simp only [advance, hdir]
  split_ifs with hhere hblank hparent hslash hlong
  · rfl
  · rfl
  · rfl
  · rfl
  · rfl
  · exact absurd ⟨by simpa using hhere, hblank, hparent, hslash, hlong⟩ hasks

theorem walk_eq_advance (t : Tree) (aim : Aim) (s : Standing) :
    t.walk aim s.links s.here s.names =
      match t.advance aim s with
      | .ends outcome => outcome
      | .goes next => t.walk aim next.links next.here next.names := by
  obtain ⟨links, here, names⟩ := s
  cases names with
  | nil => rw [walk]; rfl
  | cons name rest =>
      simp only [walk, advance, shapeAt]
      cases t.lookup (here ++ [name]) with
      | none => simp only [Option.map_none, advanceTo]; split_ifs <;> rfl
      | some entry =>
          cases entry with
          | file content => simp only [Option.map_some, Entry.shape, advanceTo]; split_ifs <;> rfl
          | directory => simp only [Option.map_some, Entry.shape, advanceTo]; split_ifs <;> rfl
          | link target =>
              simp only [Option.map_some, Entry.shape, advanceTo]
              cases links <;> split_ifs <;> rfl

theorem walk_of_ends (h : t.advance aim s = .ends outcome) :
    t.walk aim s.links s.here s.names = outcome := by
  rw [walk_eq_advance, h]

theorem walk_of_goes (h : t.advance aim s = .goes next) :
    t.walk aim s.links s.here s.names = t.walk aim next.links next.here next.names := by
  rw [walk_eq_advance, h]

/-- How a walk gets from one standing to the next. -/
inductive Goes (t : Tree) (aim : Aim) : Standing → Standing → Prop
  | skip {links : ℕ} {here : Location} {name : Text} {rest : List Text} :
      t.isDirectoryAt here → name = [] ∨ name = ['.'] →
        Goes t aim ⟨links, here, name :: rest⟩ ⟨links, here, rest⟩
  | parent {links : ℕ} {here : Location} {rest : List Text} :
      t.isDirectoryAt here →
        Goes t aim ⟨links, here, ['.', '.'] :: rest⟩ ⟨links, here.dropLast, rest⟩
  | child {links : ℕ} {here : Location} {name : Text} {rest : List Text} {entry : Entry} :
      t.isDirectoryAt here → Asks aim name rest → t.shapeAt (here ++ [name]) = some entry →
        (∀ target, entry ≠ .link target) →
          Goes t aim ⟨links, here, name :: rest⟩ ⟨links, here ++ [name], rest⟩
  | follow {left : ℕ} {here : Location} {name : Text} {rest : List Text} {target : Text} :
      t.isDirectoryAt here → Asks aim name rest →
        t.shapeAt (here ++ [name]) = some (.link target) → ¬(rest = [] ∧ aim = .entry) →
          Goes t aim ⟨left + 1, here, name :: rest⟩
            ⟨left, targetOrigin target here, targetNames target ++ rest⟩

/-- How a walk comes to its end. -/
inductive Ends (t : Tree) (aim : Aim) : Standing → Location → Prop
  | here {links : ℕ} {here : Location} : Ends t aim ⟨links, here, []⟩ here
  | missing {links : ℕ} {here : Location} {name : Text} :
      t.isDirectoryAt here → Asks aim name [] → t.shapeAt (here ++ [name]) = none →
        Ends t aim ⟨links, here, [name]⟩ (here ++ [name])
  | link {links : ℕ} {here : Location} {name target : Text} :
      t.isDirectoryAt here → Asks aim name [] → t.shapeAt (here ++ [name]) = some (.link target) →
        aim = .entry → Ends t aim ⟨links, here, [name]⟩ (here ++ [name])

theorem advance_eq_goes_iff : t.advance aim s = .goes next ↔ t.Goes aim s next := by
  constructor
  · intro h
    obtain ⟨links, here, names⟩ := s
    cases names with
    | nil => cases h
    | cons name rest =>
        simp only [advance] at h
        split_ifs at h with hhere hblank hparent hslash hlong
        · cases h; exact .skip (by simpa using hhere) hblank
        · cases h; rw [hparent]; exact .parent (by simpa using hhere)
        · have hdir : t.isDirectoryAt here := by simpa using hhere
          have hasks : Asks aim name rest := ⟨hblank, hparent, hslash, hlong⟩
          cases hshape : t.shapeAt (here ++ [name]) with
          | none => simp [hshape, advanceTo] at h
          | some entry =>
              rw [hshape] at h
              cases entry with
              | file content => cases h; exact .child hdir hasks hshape (by simp)
              | directory => cases h; exact .child hdir hasks hshape (by simp)
              | link target =>
                  simp only [advanceTo] at h
                  split_ifs at h with hlast
                  cases links with
                  | zero => cases h
                  | succ left => cases h; exact .follow hdir hasks hshape hlast
  · intro h
    cases h with
    | skip hdir hblank => simp [advance, hdir, hblank]
    | parent hdir => simp [advance, hdir]
    | @child _ _ _ _ entry hdir hasks hshape hlink =>
        rw [advance_of_asks hdir hasks, hshape]
        cases entry with
        | file content => rfl
        | directory => rfl
        | link target => exact absurd rfl (hlink target)
    | follow hdir hasks hshape hlast =>
        rw [advance_of_asks hdir hasks, hshape]
        simp [advanceTo, hlast]

theorem advance_eq_ends_iff : t.advance aim s = .ends (.ok place) ↔ t.Ends aim s place := by
  constructor
  · intro h
    obtain ⟨links, here, names⟩ := s
    cases names with
    | nil => cases h; exact .here
    | cons name rest =>
        simp only [advance] at h
        split_ifs at h with hhere hblank hparent hslash hlong
        · simp at h
        · simp at h
        · simp at h
        · have hdir : t.isDirectoryAt here := by simpa using hhere
          have hasks : Asks aim name rest := ⟨hblank, hparent, hslash, hlong⟩
          cases hshape : t.shapeAt (here ++ [name]) with
          | none =>
              rw [hshape, advanceTo] at h
              split_ifs at h with hrest
              · obtain rfl : here ++ [name] = place := Except.ok.inj (Advance.ends.inj h)
                obtain rfl : rest = [] := by simpa using hrest
                exact .missing hdir hasks hshape
              · simp at h
          | some entry =>
              rw [hshape] at h
              cases entry with
              | file content => cases h
              | directory => cases h
              | link target =>
                  simp only [advanceTo] at h
                  split_ifs at h with hlast
                  · obtain rfl : here ++ [name] = place := Except.ok.inj (Advance.ends.inj h)
                    obtain ⟨rfl, haim⟩ := hlast
                    exact .link hdir hasks hshape haim
                  · split at h <;> simp at h
  · intro h
    cases h with
    | here => rfl
    | missing hdir hasks hshape => rw [advance_of_asks hdir hasks, hshape]; rfl
    | link hdir hasks hshape haim =>
        rw [advance_of_asks hdir hasks, hshape]
        simp [advanceTo, haim]

/-- A step leaves fewer links, or as many and fewer names. -/
theorem lt_of_advance (h : t.advance aim s = .goes next) :
    Prod.Lex (· < ·) (· < ·) (next.links, next.names.length) (s.links, s.names.length) := by
  cases advance_eq_goes_iff.1 h with
  | skip => exact .right _ (by simp)
  | parent => exact .right _ (by simp)
  | child => exact .right _ (by simp)
  | follow => exact .left _ _ (by simp)

/-- What holds where a walk ends, and before a step wherever it holds after it, holds everywhere. -/
theorem advance_induction (t : Tree) (aim : Aim) {motive : Standing → Prop}
    (ends : ∀ s outcome, t.advance aim s = .ends outcome → motive s)
    (goes : ∀ s next, t.advance aim s = .goes next → motive next → motive s) (s : Standing) :
    motive s := by
  cases h : t.advance aim s with
  | ends outcome => exact ends s outcome h
  | goes next => exact goes s next h (advance_induction t aim ends goes next)
termination_by (s.links, s.names.length)
decreasing_by exact lt_of_advance h

/-- A walk leads from a standing to a location. -/
inductive Leads (t : Tree) (aim : Aim) : Standing → Location → Prop
  | ends {s : Standing} {place : Location} : t.Ends aim s place → Leads t aim s place
  | goes {s next : Standing} {place : Location} :
      t.Goes aim s next → Leads t aim next place → Leads t aim s place

theorem walk_eq_ok_iff :
    t.walk aim s.links s.here s.names = .ok place ↔ t.Leads aim s place := by
  constructor
  · induction s using advance_induction t aim with
    | ends s outcome hends =>
        intro h
        obtain rfl : outcome = .ok place := (walk_of_ends hends).symm.trans h
        exact .ends (advance_eq_ends_iff.1 hends)
    | goes s next hgoes ih =>
        intro h
        exact .goes (advance_eq_goes_iff.1 hgoes) (ih ((walk_of_goes hgoes).symm.trans h))
  · intro h
    induction h with
    | ends hends => exact walk_of_ends (advance_eq_ends_iff.2 hends)
    | goes hgoes _ ih => exact (walk_of_goes (advance_eq_goes_iff.2 hgoes)).trans ih

/-! ### Lookups -/

/-- The locations that one step looks up. -/
def glances (t : Tree) (aim : Aim) : Standing → List Location
  | ⟨_, here, []⟩ => [here]
  | ⟨_, here, name :: rest⟩ =>
    if t.isDirectoryAt here ∧ Asks aim name rest then [here, here ++ [name]] else [here]

/-- The locations that a walk looks up. -/
def walkLookups (t : Tree) (aim : Aim) (s : Standing) : List Location :=
  t.glances aim s ++
    match _h : t.advance aim s with
    | .ends _ => []
    | .goes next => walkLookups t aim next
termination_by (s.links, s.names.length)
decreasing_by exact lt_of_advance _h

theorem walkLookups_of_ends (h : t.advance aim s = .ends outcome) :
    t.walkLookups aim s = t.glances aim s := by
  rw [walkLookups]
  split
  · simp
  · next hgoes => cases h.symm.trans hgoes

theorem walkLookups_of_goes (h : t.advance aim s = .goes next) :
    t.walkLookups aim s = t.glances aim s ++ t.walkLookups aim next := by
  rw [walkLookups]
  split
  · next hends => cases h.symm.trans hends
  · next hgoes => rw [Advance.goes.inj (h.symm.trans hgoes)]

theorem glances_subset (t : Tree) (aim : Aim) (s : Standing) :
    t.glances aim s ⊆ t.walkLookups aim s := by
  rw [walkLookups]
  exact List.subset_append_left _ _

theorem here_mem_glances (t : Tree) (aim : Aim) (s : Standing) : s.here ∈ t.glances aim s := by
  obtain ⟨links, here, names⟩ := s
  cases names with
  | nil => simp [glances]
  | cons name rest => simp only [glances]; split_ifs <;> simp

/-- A step depends on the kinds of what it looks up. -/
theorem advance_congr (h : ∀ place ∈ t.glances aim s, t'.shapeAt place = t.shapeAt place) :
    t'.advance aim s = t.advance aim s := by
  have hhere := isDirectoryAt_congr (h s.here (here_mem_glances t aim s))
  obtain ⟨links, here, names⟩ := s
  cases names with
  | nil => rfl
  | cons name rest =>
      by_cases hasks : t.isDirectoryAt here ∧ Asks aim name rest
      · have hnext : t'.shapeAt (here ++ [name]) = t.shapeAt (here ++ [name]) :=
          h _ (by simp [glances, hasks])
        rw [advance_of_asks hasks.1 hasks.2, advance_of_asks (hhere.trans hasks.1) hasks.2, hnext]
      · exact advance_of_not_asks hhere hasks

/-- So does a walk. -/
theorem walk_congr (h : ∀ place ∈ t.walkLookups aim s, t'.shapeAt place = t.shapeAt place) :
    t'.walk aim s.links s.here s.names = t.walk aim s.links s.here s.names := by
  induction s using advance_induction t aim with
  | ends s outcome hends =>
      rw [walkLookups_of_ends hends] at h
      rw [walk_of_ends hends, walk_of_ends ((advance_congr h).trans hends)]
  | goes s next hgoes ih =>
      rw [walkLookups_of_goes hgoes] at h
      have hstep := advance_congr fun place hplace => h place (List.mem_append_left _ hplace)
      rw [walk_of_goes hgoes, walk_of_goes (hstep.trans hgoes)]
      exact ih fun place hplace => h place (List.mem_append_right _ hplace)

/-- Where a step ends the walk, it has looked up what the walk answers. -/
theorem Ends.mem_glances (h : t.Ends aim s place) : place ∈ t.glances aim s := by
  cases h with
  | here => simp [glances]
  | missing hdir hasks => simp [glances, hdir, hasks]
  | link hdir hasks => simp [glances, hdir, hasks]

theorem mem_walkLookups_of_leads (h : t.Leads aim s place) : place ∈ t.walkLookups aim s := by
  induction h with
  | ends hends => exact glances_subset t aim _ hends.mem_glances
  | goes hgoes _ ih =>
      rw [walkLookups_of_goes (advance_eq_goes_iff.2 hgoes)]
      exact List.mem_append_right _ ih

end Tree

end SolidityFlattener
