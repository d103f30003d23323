import SolidityFlattener.Proofs.Run.Effects
import SolidityFlattener.Run.BatchFile

/-!
What a batch file can hold.

A batch file that lacks something is refused as a whole. The type of a value is not looked at before
the value is used: a file or a package root that counts as given but is no string makes loading
fail (`BatchFile.Trips`), and a place that is no string passes into its target as it is.
-/

namespace SolidityFlattener

variable {t : Tree} {cwd : Location} {file base real : Path} {index : Nat}
  {document entry v : Value} {entries : List Value} {target : Target} {targets : List Target}
  {failure : Failure}

/-- A value counts as given and is no string. -/
def Value.Mistyped (v : Value) : Prop := v.isTruthy ∧ ∀ s, v ≠ .string s

/-- A value that does not count as given, a string, or neither. -/
theorem Value.given_cases (v : Value) :
    v.isTruthy = false ∨ (∃ s, v = .string s ∧ s ≠ []) ∨ v.Mistyped := by
  cases hgiven : v.isTruthy with
  | false => exact .inl rfl
  | true =>
      by_cases hstring : ∃ s, v = .string s
      · obtain ⟨s, rfl⟩ := hstring
        refine .inr (.inl ⟨s, rfl, ?_⟩)
        rintro rfl
        cases hgiven
      · exact .inr (.inr ⟨hgiven, fun s hs => hstring ⟨s, hs⟩⟩)

namespace BatchFile

/-! ### One entry -/

/-- The place for a derived target that an entry gives. -/
def autoOf (entry : Value) : Value :=
  match entry.field "outAuto" with
  | .bool true => .ofText []
  | v => v

/-- An entry gives a target: its file is a string that is not empty, taken from the directory of the
batch file, and its places are as they are written, not both null. -/
structure Yields (base : Path) (entry : Value) (target : Target) : Prop where
  file : ∃ s, entry.field "file" = .string s ∧ s ≠ [] ∧ target.file = base.joinText s.text
  out : target.out = entry.field "out"
  outAuto : target.outAuto = autoOf entry
  placed : ¬(target.out.isNull ∧ target.outAuto.isNull)

theorem below_of_mistyped (h : v.Mistyped) : below base v = .error .notAPath := by
  unfold below
  split
  · next s => exact absurd rfl (h.2 s)
  · rfl

theorem targetOf_of_not_given (h : (entry.field "file").isTruthy = false) :
    targetOf file base index entry = .error (.config (.targetWithoutFile file index)) := by
  unfold targetOf
  simp only [h, Bool.not_false, if_true]

theorem targetOf_of_mistyped (h : (entry.field "file").Mistyped) :
    targetOf file base index entry = .error .notAPath := by
  unfold targetOf
  simp only [h.1, Bool.not_true, Bool.false_eq_true, if_false]
  exact bind_eq_error_iff.2 (.inl (below_of_mistyped h))

theorem targetOf_of_string {s : Points} (h : entry.field "file" = .string s) (hne : s ≠ []) :
    targetOf file base index entry =
      Target.make (base.joinText s.text) (entry.field "out") (autoOf entry) := by
  have hgiven : (Value.string s).isTruthy = true := by simpa [Value.isTruthy] using hne
  unfold targetOf
  simp only [h, hgiven, Bool.not_true, Bool.false_eq_true, if_false]
  rfl

theorem make_eq_ok_iff {p : Path} {out auto : Value} :
    Target.make p out auto = .ok target ↔
      target = ⟨p, out, auto⟩ ∧ ¬(target.out.isNull ∧ target.outAuto.isNull) := by
  unfold Target.make
  split
  · next hnull =>
    simp only [reduceCtorEq, false_iff]
    rintro ⟨rfl, hplaced⟩
    exact hplaced (by simpa using hnull)
  · next hplaced =>
    constructor
    · rintro ⟨⟩
      exact ⟨rfl, by simpa using hplaced⟩
    · rintro ⟨rfl, -⟩
      rfl

theorem targetOf_eq_ok_iff :
    targetOf file base index entry = .ok target ↔ Yields base entry target := by
  constructor
  · intro h
    rcases (entry.field "file").given_cases with hnot | ⟨s, hs, hne⟩ | hmistyped
    · cases (targetOf_of_not_given hnot).symm.trans h
    · rw [targetOf_of_string hs hne] at h
      obtain ⟨rfl, hplaced⟩ := make_eq_ok_iff.1 h
      exact ⟨⟨s, hs, hne, rfl⟩, rfl, rfl, hplaced⟩
    · cases (targetOf_of_mistyped hmistyped).symm.trans h
  · intro h
    obtain ⟨s, hs, hne, hfile⟩ := h.file
    rw [targetOf_of_string hs hne]
    refine make_eq_ok_iff.2 ⟨?_, h.placed⟩
    rw [← hfile, ← h.out, ← h.outAuto]

theorem targetsFrom_eq_ok_iff :
    targetsFrom file base index entries = .ok targets ↔
      List.Forall₂ (Yields base) entries targets := by
  induction entries generalizing index targets with
  | nil => simp [targetsFrom, eq_comm]
  | cons entry rest ih =>
      rw [targetsFrom, bind_eq_ok_iff]
      constructor
      · rintro ⟨target, htarget, hrest⟩
        obtain ⟨others, hothers, heq⟩ := bind_eq_ok_iff.1 hrest
        rw [← Except.ok.inj heq]
        exact .cons (targetOf_eq_ok_iff.1 htarget) (ih.1 hothers)
      · rintro (_ | ⟨hfirst, hrest⟩)
        exact ⟨_, targetOf_eq_ok_iff.2 hfirst, bind_eq_ok_iff.2 ⟨_, ih.2 hrest, rfl⟩⟩

/-- A batch as its document has it, with paths taken from the directory of the batch file. -/
structure Follows (base : Path) (document : Value) (entries : List Value) (b : BatchFile) :
    Prop where
  targets : List.Forall₂ (Yields base) entries b.targets
  evmVersion : b.evmVersion = document.field "evmVersion"
  packageRoot : (document.field "packageRoot").isTruthy = false ∧ b.packageRoot = none ∨
    ∃ s, document.field "packageRoot" = .string s ∧ s ≠ [] ∧
      b.packageRoot = some (base.joinText s.text)

/-- The package root that a value gives. -/
def rootOf (base : Path) (v : Value) : Except Failure (Option Path) :=
  if v.isTruthy then (below base v).map some else .ok none

theorem rootOf_of_not_given (h : v.isTruthy = false) : rootOf base v = .ok none := by
  rw [rootOf, h]
  rfl

theorem rootOf_of_string {s : Points} (hne : s ≠ []) :
    rootOf base (.string s) = .ok (some (base.joinText s.text)) := by
  have hgiven : (Value.string s).isTruthy = true := by simpa [Value.isTruthy] using hne
  rw [rootOf, if_pos hgiven]
  rfl

theorem rootOf_of_mistyped (h : v.Mistyped) : rootOf base v = .error .notAPath := by
  rw [rootOf, if_pos h.1, below_of_mistyped h]
  rfl

theorem rootOf_eq_ok_iff {root : Option Path} :
    rootOf base v = .ok root ↔ v.isTruthy = false ∧ root = none ∨
      ∃ s, v = .string s ∧ s ≠ [] ∧ root = some (base.joinText s.text) := by
  constructor
  · intro h
    rcases v.given_cases with hnot | ⟨s, rfl, hne⟩ | hmistyped
    · exact .inl ⟨hnot, (Except.ok.inj ((rootOf_of_not_given hnot).symm.trans h)).symm⟩
    · exact .inr ⟨s, rfl, hne, (Except.ok.inj ((rootOf_of_string hne).symm.trans h)).symm⟩
    · cases (rootOf_of_mistyped hmistyped).symm.trans h
  · rintro (⟨hnot, rfl⟩ | ⟨s, rfl, hne, rfl⟩)
    · exact rootOf_of_not_given hnot
    · exact rootOf_of_string hne

theorem ofDocument_eq (file base : Path) (document : Value) (entries : List Value) :
    ofDocument file base document entries = (do
      let targets ← targetsFrom file base 0 entries
      let packageRoot ← rootOf base (document.field "packageRoot")
      return ⟨targets, document.field "evmVersion", packageRoot⟩) := by
  unfold ofDocument rootOf
  refine bind_congr_of_ok fun targets _ => ?_
  dsimp only
  split <;> rfl

theorem ofDocument_eq_ok_iff {b : BatchFile} :
    ofDocument file base document entries = .ok b ↔ Follows base document entries b := by
  rw [ofDocument_eq, bind_eq_ok_iff]
  constructor
  · rintro ⟨targets, htargets, hrest⟩
    obtain ⟨packageRoot, hroot, hdone⟩ := bind_eq_ok_iff.1 hrest
    rw [← Except.ok.inj hdone]
    exact ⟨targetsFrom_eq_ok_iff.1 htargets, rfl, rootOf_eq_ok_iff.1 hroot⟩
  · intro h
    obtain ⟨targets, version, packageRoot⟩ := b
    obtain rfl := h.evmVersion
    exact ⟨targets, targetsFrom_eq_ok_iff.2 h.targets,
      bind_eq_ok_iff.2 ⟨packageRoot, rootOf_eq_ok_iff.2 h.packageRoot, rfl⟩⟩

theorem load_of_targets (hdocument : readDocument t cwd file = .ok document)
    (htargets : document.field "targets" = .array entries)
    (hreal : t.realPath false cwd file = .ok real) :
    load t cwd file = ofDocument file real.parent document entries := by
  simp only [load, hdocument, bind, Except.bind, htargets, hreal, Except.mapError]

theorem load_eq_ok_iff {b : BatchFile} :
    load t cwd file = .ok b ↔
      ∃ document entries real, readDocument t cwd file = .ok document ∧
        document.field "targets" = .array entries ∧ t.realPath false cwd file = .ok real ∧
          Follows real.parent document entries b := by
  constructor
  · intro h
    obtain ⟨document, hdocument, hrest⟩ := bind_eq_ok_iff.1 h
    split at hrest
    · next entries htargets =>
      obtain ⟨real, hreal, hmade⟩ := bind_eq_ok_iff.1 hrest
      exact ⟨document, entries, real, hdocument, htargets, mapError_eq_ok_iff.1 hreal,
        ofDocument_eq_ok_iff.1 hmade⟩
    · cases hrest
  · rintro ⟨document, entries, real, hdocument, htargets, hreal, hfollows⟩
    rw [load_of_targets hdocument htargets hreal]
    exact ofDocument_eq_ok_iff.2 hfollows

end BatchFile

end SolidityFlattener
