import SolidityFlattener.Document.Shown
import SolidityFlattener.Proofs.Run.DerivedPlaces

/-!
What half a surrogate pair in a batch file does.

A string with half a pair is read like any other, and a path is made of it. Its mark goes with it
into the path, so nothing is looked up under that path and nothing is made there: a target whose
file is given in this way is not flattened, and one whose place is given so ends the batch before
anything of it is written. Where the string is only shown, the half is shown as it was written.
-/

namespace SolidityFlattener

variable {s : Points} {n : Fin 0x800} {a c : Char} {p : Path} {part : Text}

/-- A string with a half that stands for no byte. -/
def Points.Unencodable (s : Points) : Prop :=
  ∃ n, Point.half n ∈ s ∧ (Point.half n).isByte = false

/-! ### Marks -/

namespace Text

variable {t : Text}

theorem toNat_markChar (n : Fin 0x800) :
    (Char.ofNat (0xE000 + n.val)).toNat = 0xE000 + n.val := by
  have hvalid : (0xE000 + n.val).isValidChar := Or.inr (by omega)
  rw [Char.toNat_ofNat, if_pos hvalid]

@[simp] theorem markedHalf?_mark (n : Fin 0x800) :
    markedHalf? (Char.ofNat 0) (Char.ofNat (0xE000 + n.val)) = some n := by
  have hmark := toNat_markChar n
  unfold markedHalf?
  rw [dif_pos ⟨rfl, by omega, by omega⟩]
  simp only [hmark, Nat.add_sub_cancel_left]

theorem markedHalf?_of_ne (h : a ≠ Char.ofNat 0) (b : Char) : markedHalf? a b = none :=
  dif_neg fun hboth => h hboth.1

theorem holdsHalf_of_infix (h : halfMark n <:+: t) : t.holdsHalf = true := by
  induction t with
  | nil => simp [halfMark] at h
  | cons a t ih =>
      rcases List.infix_cons_iff.1 h with hhere | hlater
      · obtain ⟨rest, hrest⟩ := hhere
        obtain ⟨rfl, rfl⟩ := List.cons_eq_cons.1 hrest
        simp [holdsHalf]
      · cases t with
        | nil => simp [halfMark] at hlater
        | cons b t => simp [holdsHalf, ih hlater]

theorem nul_mem_of_holdsHalf (h : t.holdsHalf = true) : Char.ofNat 0 ∈ t := by
  fun_induction holdsHalf t with
  | case1 a b rest ih =>
      rcases Bool.or_eq_true_iff.1 h with hmark | hlater
      · by_contra hnot
        have hne : a ≠ Char.ofNat 0 := fun heq => hnot (heq ▸ List.mem_cons_self)
        simp [markedHalf?_of_ne hne] at hmark
      · exact List.mem_cons_of_mem _ (ih hlater)
  | case2 => cases h

theorem not_mem_halfMark (hnul : c ≠ Char.ofNat 0) (hlow : c.toNat < 0xE000) (n : Fin 0x800) :
    c ∉ halfMark n := by
  have hmark := toNat_markChar n
  intro hmem
  rcases List.mem_cons.1 hmem with hc | hc
  · exact hnul hc
  · rw [← List.mem_singleton.1 hc] at hmark
    omega

theorem not_mem_halfMark_of_isSlash (hc : IsSlash c) (n : Fin 0x800) : c ∉ halfMark n := by
  rcases hc with rfl | rfl
  · exact not_mem_halfMark (by decide) (by decide) n
  · exact not_mem_halfMark (by decide) (by decide) n

end Text

namespace Points

theorem ofMarked_cons (h : c ≠ Char.ofNat 0) (t : Text) :
    ofMarked (c :: t) = .scalar c :: ofMarked t := by
  cases t with
  | nil => rfl
  | cons b t => rw [ofMarked, Text.markedHalf?_of_ne h]

/-- The marks tell the string, unless it holds a null character itself or a byte of a name. -/
theorem ofMarked_text (h : ∀ point ∈ s, point ≠ .scalar (Char.ofNat 0) ∧ point.isByte = false) :
    ofMarked s.text = s := by
  induction s with
  | nil => rfl
  | cons point rest ih =>
      obtain ⟨⟨hnul, hbyte⟩, hrest⟩ := List.forall_mem_cons.1 h
      rw [text, List.flatMap_cons]
      cases point with
      | scalar c =>
          have hne : c ≠ Char.ofNat 0 := fun heq => hnul (heq ▸ rfl)
          rw [Point.chars, List.singleton_append, ofMarked_cons hne]
          exact congrArg _ (ih hrest)
      | half n =>
          rw [Point.chars, hbyte]
          show ofMarked (Char.ofNat 0 :: Char.ofNat (0xE000 + n.val) :: text rest) = _
          rw [ofMarked, Text.markedHalf?_mark, ih hrest]

/-- A name is shown in a message as the string that gave it. -/
theorem quoted_text (h : ∀ point ∈ s, point ≠ .scalar (Char.ofNat 0) ∧ point.isByte = false) :
    s.text.quoted = s.quoted := by
  rw [Text.quoted, ofMarked_text h]

theorem Unencodable.exists_infix (h : s.Unencodable) : ∃ n, Text.halfMark n <:+: s.text := by
  obtain ⟨n, hn, hbyte⟩ := h
  obtain ⟨front, back, rfl⟩ := List.append_of_mem hn
  refine ⟨n, text front, text back, ?_⟩
  simp [text, Point.chars, hbyte]

/-- Without null characters of its own a string is marked exactly where it cannot be encoded. -/
theorem holdsHalf_text_iff (h : Point.scalar (Char.ofNat 0) ∉ s) :
    s.text.holdsHalf = true ↔ s.Unencodable := by
  constructor
  · intro hhalf
    obtain ⟨point, hpoint, hmem⟩ := List.mem_flatMap.1 (Text.nul_mem_of_holdsHalf hhalf)
    cases point with
    | scalar c =>
        obtain rfl := List.mem_singleton.1 hmem
        exact absurd hpoint h
    | half n =>
        refine ⟨n, hpoint, ?_⟩
        by_contra hbyte
        rw [Point.chars, if_pos (by simpa using hbyte)] at hmem
        exact absurd (List.mem_singleton.1 hmem) (by decide)
  · intro hs
    obtain ⟨n, hmark⟩ := hs.exists_infix
    exact Text.holdsHalf_of_infix hmark

end Points

/-! ### Marks in paths -/

namespace Path

/-- A mark in a text is in one of the components that are read from it. -/
theorem exists_component_of_infix {t : Text} (h : Text.halfMark n <:+: t) :
    ∃ part ∈ components t, Text.halfMark n <:+: part := by
  have hjoin : ['/'].intercalate (t.splitOn '/') = t := List.intercalate_splitOn '/'
  rw [← hjoin] at h
  obtain ⟨part, hpart, hmark⟩ :=
    Text.infix_of_infix_intercalate (Text.not_mem_halfMark_of_isSlash (.inl rfl) n)
      (List.cons_ne_nil _ _) h
  have hnul : Char.ofNat 0 ∈ part := Text.nul_mem_of_holdsHalf (Text.holdsHalf_of_infix hmark)
  refine ⟨part, List.mem_filter.2 ⟨hpart, ?_⟩, hmark⟩
  have hempty : part ≠ [] := List.ne_nil_of_mem hnul
  have hdot : part ≠ ['.'] := by
    rintro rfl
    exact absurd hnul (by decide)
  simp [isComponent, hempty, hdot]

theorem holdsHalf_text_of_infix (hpart : part ∈ p.parts) (h : Text.halfMark n <:+: part) :
    p.text.holdsHalf = true := by
  have hne : p ≠ here := fun heq => by simp [heq, here] at hpart
  apply Text.holdsHalf_of_infix (n := n)
  rw [text, if_neg hne]
  exact h.trans ((Text.infix_intercalate hpart).trans (List.suffix_append _ _).isInfix)

end Path

/-! ### Trees -/

namespace Tree

variable {t : Tree} {cwd : Location}

theorem locate_of_holdsHalf (h : p.text.holdsHalf = true) (aim : Aim) :
    t.locate aim cwd p = .error .unencodable := by
  have hnul : p.text.contains (Char.ofNat 0) = true := by
    simpa using Text.nul_mem_of_holdsHalf h
  rw [locate, if_pos hnul, Fault.ofNul, if_pos h]

theorem makeOne_of_holdsHalf (h : p.text.holdsHalf = true) :
    t.makeOne cwd p = .error .unencodable := by
  rw [makeOne, makeDirectory, locate_of_holdsHalf h]
  rfl

/-- No directory is made on the way to such a path. -/
theorem makeDirectories_of_holdsHalf (h : p.text.holdsHalf = true) :
    t.makeDirectories cwd p true = (t, .error .unencodable) := by
  obtain ⟨anchor, parts⟩ := p
  rw [makeDirectories, if_pos rfl]
  obtain rfl | ⟨above, name, rfl⟩ := parts.eq_nil_or_concat
  · rw [List.reverse_nil, makeAll, makeOne_of_holdsHalf h]
  · rw [List.concat_eq_append] at h ⊢
    rw [List.reverse_append, List.reverse_singleton, List.singleton_append, makeAll]
    simp only [List.reverse_cons, List.reverse_reverse, makeOne_of_holdsHalf h]

end Tree

/-! ### Targets -/

section Targets

variable {t : Tree} {cwd : Location} {o : Options} {target : Target} {rest : List Target}
  {report : Report} {plan : Plan} {place : Placement} {text sub : Text} {base file : Path}

theorem infix_derivedTarget (h : Text.halfMark n <:+: sub) :
    Text.halfMark n <:+: derivedTarget file sub := by
  have hne : sub ≠ [] := by
    rintro rfl
    exact absurd (List.infix_nil.1 h) (List.cons_ne_nil _ _)
  obtain ⟨front, back, hsub, hfront, hback⟩ :=
    Text.exists_append_stripWhile_append (fun c => c == '/' || c == '\\') sub
  have hslashes : ∀ c : Char, (c == '/' || c == '\\') = true → c ∉ Text.halfMark n :=
    fun c hc => Text.not_mem_halfMark_of_isSlash (by simpa [Text.IsSlash] using hc) n
  rw [hsub, List.append_assoc] at h
  have hinside := Text.infix_of_infix_append (fun c hc => hslashes c (hfront c hc))
    (fun c hc => hslashes c (hback c hc)) (List.cons_ne_nil _ _) h
  rw [derivedTarget, if_neg hne]
  exact hinside.trans (Text.infix_intercalate (by simp))

theorem Placement.holdsHalf_of_ofTarget {base : Option Path} (hmark : Text.halfMark n <:+: text)
    (h : Placement.ofTarget text base = .ok place) : place.directory.text.holdsHalf = true := by
  have hplain : plainTarget text ≠ [] := by
    intro hnil
    rw [Placement.ofTarget_of_nil hnil] at h
    cases h
  obtain ⟨parent, name, hcut⟩ := exists_cut hplain
  rw [Placement.ofTarget_of_cut hcut] at h
  obtain rfl := Except.ok.inj h
  have hforward : Text.halfMark n <:+: Text.forwardSlashes text := by
    rw [← Text.forwardSlashes_of_not_mem (Text.not_mem_halfMark_of_isSlash (.inr rfl) n)]
    exact hmark.map _
  obtain ⟨part, hpart, hinside⟩ := Path.exists_component_of_infix hforward
  refine Path.holdsHalf_text_of_infix ?_ hinside
  rw [hcut.joinText_eq]
  exact Path.mem_parts_join hpart

/-- The string that tells where a target's artifacts go. -/
def Target.PlacedBy (target : Target) (s : Points) : Prop :=
  target.out = .string s ∨ target.out.isNull = true ∧ target.outAuto = .string s

theorem holdsHalf_of_placementOf (hs : s.Unencodable) (hplaced : target.PlacedBy s)
    (h : placementOf o target = .ok place) : place.directory.text.holdsHalf = true := by
  obtain ⟨n, hmark⟩ := hs.exists_infix
  obtain ⟨v, hv, hrest⟩ := bind_eq_ok_iff.1 h
  obtain ⟨text, htext, hplace⟩ := bind_eq_ok_iff.1 hrest
  suffices hinside : Text.halfMark n <:+: text from
    Placement.holdsHalf_of_ofTarget hinside hplace
  rcases hplaced with hout | ⟨hnull, hauto⟩
  · have hvalue : placeValue target = .ok (.string s) := by
      rw [placeValue, hout]
      rfl
    obtain rfl := Except.ok.inj (hvalue.symm.trans hv)
    rwa [← Except.ok.inj htext]
  · have hne : s ≠ [] := by
      rintro rfl
      exact absurd (List.infix_nil.1 hmark) (List.cons_ne_nil _ _)
    have hgiven : (Value.string s).isTruthy = true := by simpa [Value.isTruthy] using hne
    have hvalue : placeValue target = .ok (.ofText (derivedTarget target.file s.text)) := by
      simp [placeValue, hnull, hauto, hgiven]
    obtain rfl := Except.ok.inj (hvalue.symm.trans hv)
    have hderived : derivedTarget target.file s.text = text := by
      simpa [placeText, Value.ofText] using htext
    rw [← hderived]
    exact infix_derivedTarget hmark

/-- A target whose file is given with half a pair is not flattened, and the tree stays as it is. -/
theorem flattenFile_of_unencodable_file (hsound : Site.Sound ⟨t, cwd, none⟩)
    (hs : s.Unencodable) (hfile : target.file = base.joinText s.text) :
    ∃ failure, flattenFile t cwd o target =
      (t, ⟨(planFile t cwd o target).records, .error failure⟩) := by
  cases hplan : (planFile t cwd o target).outcome with
  | error failure => exact ⟨failure, flattenFile_of_not_planned hplan⟩
  | ok plan =>
      obtain ⟨bundle, settings, place, hbundle, -⟩ := planFile_eq_ok_iff.1 hplan
      obtain ⟨f⟩ := flattenSource_eq_ok_iff.1 hbundle
      obtain ⟨hpath, -⟩ := discover_eq_ok_iff.1 f.discovered
      obtain ⟨n, hmark⟩ := hs.exists_infix
      obtain ⟨part, hpart, hinside⟩ := Path.exists_component_of_infix hmark
      have hmem : part ∈ target.file.parts := by
        rw [hfile]
        exact Path.mem_parts_join hpart
      have hnul : Char.ofNat 0 ∈ part :=
        Text.nul_mem_of_holdsHalf (Text.holdsHalf_of_infix hinside)
      exact absurd hnul (hsound.nul_not_mem_of_realPath hpath part hmem)

/-- A target whose place is given with half a pair ends the batch before anything of it is written.
-/
theorem batchFrom_of_unencodable_place (hs : s.Unencodable) (hplaced : target.PlacedBy s)
    (hplan : (planFile t cwd o target).outcome = .ok plan) :
    batchFrom cwd o t report (target :: rest) =
      (t, ⟨(planFile t cwd o target).records, .error (.system .unencodable)⟩) := by
  have hwrite : writeAll t cwd plan.place plan.files = (t, .error .unencodable) := by
    obtain ⟨bundle, settings, place, -, -, hplace, rfl⟩ := planFile_eq_ok_iff.1 hplan
    rw [writeAll, Tree.makeDirectories_of_holdsHalf (holdsHalf_of_placementOf hs hplaced hplace)]
  apply batchFrom_of_not_isOfTarget (flattenFile_of_fault hplan hwrite)
  simp [Failure.isOfTarget]

end Targets

end SolidityFlattener
