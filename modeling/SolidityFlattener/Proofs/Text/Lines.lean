import SolidityFlattener.Text.Basic
import Mathlib.Data.List.DropRight
import Mathlib.Data.List.Infix

/-!
Lines joined and cut apart again.

A text is on one line if it holds no part of a line break. Such texts joined at a line break of any
kind are the lines of what results; so they stay the same where each line feed of a text is written
as another break. Joined with a line feed, or with a carriage return and a line feed, they are also
what is cut out of it at the separator. The last sections say what `stripWhile`
leaves, where a part can occur in a text that is put together from others, and which texts hold no
slash to turn.
-/

namespace SolidityFlattener.Text

variable {t line newline part front back : Text} {lines : List Text} {c : Char}

/-- A text that holds no part of a line break. -/
def OneLine (t : Text) : Prop := '\r' ∉ t ∧ '\n' ∉ t

instance (t : Text) : Decidable t.OneLine := inferInstanceAs (Decidable (_ ∧ _))

/-- The separators that a line break can be written as, the lone carriage return apart. -/
def IsLineEnd (newline : Text) : Prop := newline = ['\n'] ∨ newline = ['\r', '\n']

/-- All separators that a line break can be written as. -/
def IsLineBreak (newline : Text) : Prop := IsLineEnd newline ∨ newline = ['\r']

theorem oneLine_nil : OneLine [] := by decide

theorem oneLine_cons : OneLine (c :: t) ↔ (c ≠ '\r' ∧ c ≠ '\n') ∧ t.OneLine := by
  simp only [OneLine, List.mem_cons, not_or]
  grind

theorem oneLine_append : OneLine (front ++ back) ↔ front.OneLine ∧ back.OneLine := by
  simp only [OneLine, List.mem_append, not_or]
  tauto

theorem not_mem_intercalate {sep : Text} (hsep : c ∉ sep) (hlines : ∀ line ∈ lines, c ∉ line) :
    c ∉ sep.intercalate lines := by
  induction lines with
  | nil => simp
  | cons first rest ih =>
      have hfirst := hlines first List.mem_cons_self
      by_cases hnil : rest = []
      · simpa [hnil] using hfirst
      · have hrest := ih fun line hline => hlines line (List.mem_cons_of_mem _ hline)
        simp [List.intercalate_cons_of_ne_nil hnil, hfirst, hsep, hrest]

theorem oneLine_intercalate {sep : Text} (hsep : sep.OneLine)
    (hlines : ∀ line ∈ lines, line.OneLine) : OneLine (sep.intercalate lines) :=
  ⟨not_mem_intercalate hsep.1 fun line hline => (hlines line hline).1,
    not_mem_intercalate hsep.2 fun line hline => (hlines line hline).2⟩

/-! ### Line breaks unified -/

theorem unifyBreaks_cons (hc : c ≠ '\r') : unifyBreaks (c :: t) = c :: unifyBreaks t := by
  rw [unifyBreaks]
  · exact fun rest heq => (hc heq).elim
  · exact hc

theorem unifyBreaks_append (h : line.OneLine) :
    unifyBreaks (line ++ t) = line ++ unifyBreaks t := by
  induction line with
  | nil => rfl
  | cons c line ih =>
      obtain ⟨⟨hreturn, -⟩, hline⟩ := oneLine_cons.1 h
      rw [List.cons_append, unifyBreaks_cons hreturn, ih hline, List.cons_append]

theorem unifyBreaks_newline (h : IsLineEnd newline) :
    unifyBreaks (newline ++ t) = '\n' :: unifyBreaks t := by
  rcases h with rfl | rfl
  · exact unifyBreaks_cons (by decide)
  · rfl

theorem not_mem_unifyBreaks (t : Text) : '\r' ∉ unifyBreaks t := by
  fun_induction unifyBreaks t with
  | case1 => simp
  | case2 rest ih => simpa using ih
  | case3 rest _ ih => simpa using ih
  | case4 c rest _ hc ih => simpa [ih, eq_comm] using hc

theorem unifyBreaks_intercalate (hnewline : IsLineEnd newline)
    (hlines : ∀ line ∈ lines, line.OneLine) :
    unifyBreaks (newline.intercalate lines) = ['\n'].intercalate lines := by
  induction lines with
  | nil => simp [unifyBreaks]
  | cons line lines ih =>
      have hline := hlines line List.mem_cons_self
      have hrest := ih fun l hl => hlines l (List.mem_cons_of_mem _ hl)
      by_cases hnil : lines = []
      · have happend := unifyBreaks_append (t := []) hline
        simpa [hnil, unifyBreaks] using happend
      · rw [List.intercalate_cons_of_ne_nil hnil, List.intercalate_cons_of_ne_nil hnil,
          List.append_assoc, unifyBreaks_append hline, unifyBreaks_newline hnewline, hrest]
        simp

/-! ### Lines -/

/-- Joined lines are the lines of the text that they are joined to. -/
theorem lines_intercalate (hnewline : IsLineEnd newline) (hlines : ∀ line ∈ lines, line.OneLine)
    (hne : lines ≠ []) : Text.lines (newline.intercalate lines) = lines := by
  rw [Text.lines, unifyBreaks_intercalate hnewline hlines]
  exact List.splitOn_intercalate '\n' (fun line hline => (hlines line hline).2) hne

theorem not_mem_of_mem_splitOn (h : line ∈ t.splitOn c) : c ∉ line := by
  induction t generalizing line with
  | nil =>
      obtain rfl : line = [] := by simpa [List.splitOn_nil] using h
      simp
  | cons d t ih =>
      rw [List.splitOn_cons_eq_if_modifyHead] at h
      split at h
      · rcases List.mem_cons.1 h with rfl | h
        · simp
        · exact ih h
      · next hd =>
        obtain ⟨first, rest, hsplit⟩ := List.exists_cons_of_ne_nil (List.splitOn_ne_nil c t)
        rw [hsplit] at h ih
        rcases List.mem_cons.1 h with rfl | h
        · have hfirst := ih List.mem_cons_self
          have hdc : d ≠ c := by simpa using hd
          simp [hfirst, Ne.symm hdc]
        · exact ih (List.mem_cons_of_mem _ h)

theorem infix_intercalate {sep : Text} (h : line ∈ lines) : line <:+: sep.intercalate lines := by
  induction lines with
  | nil => simp at h
  | cons first lines ih =>
      by_cases hnil : lines = []
      · obtain rfl : line = first := by simpa [hnil] using h
        simp [hnil]
      · rw [List.intercalate_cons_of_ne_nil hnil]
        rcases List.mem_cons.1 h with rfl | h
        · rw [List.append_assoc]
          exact (List.prefix_append _ _).isInfix
        · exact (ih h).trans (List.suffix_append _ _).isInfix

theorem subset_intercalate {sep : Text} (h : line ∈ lines) : line ⊆ sep.intercalate lines :=
  (infix_intercalate h).subset

theorem intercalate_prefix_append (sep : Text) (front back : List Text) :
    sep.intercalate front <+: sep.intercalate (front ++ back) := by
  induction front with
  | nil => simp
  | cons first front ih =>
      by_cases hnil : front = []
      · subst hnil
        cases back with
        | nil => simp
        | cons second back =>
            have hne : second :: back ≠ [] := List.cons_ne_nil second back
            rw [List.singleton_append, List.intercalate_singleton,
              List.intercalate_cons_of_ne_nil hne, List.append_assoc]
            exact List.prefix_append _ _
      · rw [List.cons_append, List.intercalate_cons_of_ne_nil hnil,
          List.intercalate_cons_of_ne_nil (by simp [hnil])]
        exact (List.prefix_append_right_inj _).2 ih

theorem subset_of_mem_splitOn (h : line ∈ t.splitOn c) : line ⊆ t := by
  have hsubset : line ⊆ [c].intercalate (t.splitOn c) := subset_intercalate h
  rwa [List.intercalate_splitOn] at hsubset

theorem prefix_of_splitOn_eq_cons {first : Text} (h : t.splitOn c = first :: lines) :
    first <+: t := by
  have hprefix := intercalate_prefix_append [c] [first] lines
  rwa [List.singleton_append, ← h, List.intercalate_splitOn, List.intercalate_singleton] at hprefix

/-- Texts that are ended by a separator each are what they are cut into there. -/
theorem splitOn_flatMap_append (hlines : ∀ line ∈ lines, c ∉ line) (t : Text) :
    (lines.flatMap (· ++ [c]) ++ t).splitOn c = lines ++ t.splitOn c := by
  induction lines with
  | nil => rfl
  | cons line lines ih =>
      rw [List.forall_mem_cons] at hlines
      rw [List.flatMap_cons, List.append_assoc, List.append_assoc, List.singleton_append,
        List.splitOn_append_cons_self_of_not_mem hlines.1, ih hlines.2, List.cons_append]

/-- No line of a text holds a part of a line break. -/
theorem oneLine_of_mem_lines (h : line ∈ t.lines) : line.OneLine :=
  ⟨fun hreturn => not_mem_unifyBreaks t (subset_of_mem_splitOn h hreturn),
    not_mem_of_mem_splitOn h⟩

/-- Cutting two texts joined without a separator: the last piece of the one and the first of the
other are one piece. -/
theorem splitOn_append {pieces rest : List Text} {last first : Text}
    (hfront : front.splitOn c = pieces ++ [last]) (hback : back.splitOn c = first :: rest) :
    (front ++ back).splitOn c = pieces ++ (last ++ first) :: rest := by
  induction front generalizing pieces last with
  | nil =>
      obtain ⟨rfl, rfl⟩ : pieces = [] ∧ last = [] := by
        cases pieces with
        | nil => simpa [List.splitOn_nil, eq_comm] using hfront
        | cons piece pieces => simp [List.splitOn_nil] at hfront
      simpa using hback
  | cons d front ih =>
      rw [List.splitOn_cons_eq_if_modifyHead] at hfront
      rw [List.cons_append, List.splitOn_cons_eq_if_modifyHead]
      split_ifs at hfront ⊢ with hd
      · cases pieces with
        | nil =>
            have hnil := (List.cons_eq_cons.1 hfront).2
            exact absurd hnil (List.splitOn_ne_nil c front)
        | cons piece pieces =>
            obtain ⟨rfl, hrest⟩ := List.cons_eq_cons.1 hfront
            rw [ih hrest, List.cons_append]
      · obtain ⟨piece, more, hsplit⟩ := List.exists_cons_of_ne_nil (List.splitOn_ne_nil c front)
        rw [hsplit, List.modifyHead_cons] at hfront
        cases pieces with
        | nil =>
            obtain ⟨rfl, rfl⟩ : d :: piece = last ∧ more = [] := by simpa using hfront
            rw [ih (show _ = [] ++ [piece] by simpa using hsplit)]
            simp
        | cons head pieces =>
            obtain ⟨rfl, rfl⟩ := List.cons_eq_cons.1 hfront
            rw [ih (show _ = (piece :: pieces) ++ [last] by simpa using hsplit)]
            simp

theorem unifyBreaks_of_not_mem (h : '\r' ∉ t) : unifyBreaks t = t := by
  induction t with
  | nil => rfl
  | cons c t ih =>
      rw [List.mem_cons, not_or] at h
      rw [unifyBreaks_cons (Ne.symm h.1), ih h.2]

/-- Line breaks are unified once and for all. -/
@[simp] theorem lines_unifyBreaks (t : Text) : (unifyBreaks t).lines = t.lines := by
  rw [lines, lines, unifyBreaks_of_not_mem (not_mem_unifyBreaks t)]

theorem unifyBreaks_return (h : t.head? ≠ some '\n') :
    unifyBreaks ('\r' :: t) = '\n' :: unifyBreaks t := by
  rw [unifyBreaks]
  rintro rest rfl
  exact h rfl

/-- Two texts have their line breaks unified one by one, unless one break spans both. -/
theorem unifyBreaks_append_of_head? (h : front.getLast? = some '\r' → back.head? ≠ some '\n') :
    unifyBreaks (front ++ back) = unifyBreaks front ++ unifyBreaks back := by
  fun_induction unifyBreaks front with
  | case1 => rfl
  | case2 rest ih =>
      have hrest : unifyBreaks (rest ++ back) = unifyBreaks rest ++ unifyBreaks back :=
        ih fun hlast => h (by simp [List.getLast?_cons, hlast])
      simp [unifyBreaks, hrest]
  | case3 rest hrest ih =>
      have hmore : unifyBreaks (rest ++ back) = unifyBreaks rest ++ unifyBreaks back :=
        ih fun hlast => h (by simp [List.getLast?_cons, hlast])
      rw [List.cons_append, unifyBreaks_return, hmore, List.cons_append]
      cases rest with
      | nil => exact h rfl
      | cons d rest => simpa using fun hd => hrest rest (by rw [hd])
  | case4 c rest hfirst hc ih =>
      have hrest : unifyBreaks (rest ++ back) = unifyBreaks rest ++ unifyBreaks back :=
        ih fun hlast => h (by simp [List.getLast?_cons, hlast])
      rw [List.cons_append, unifyBreaks_cons hc, hrest, List.cons_append]

theorem unifyBreaks_intercalate_return (hlines : ∀ line ∈ lines, line.OneLine) :
    unifyBreaks (['\r'].intercalate lines) = ['\n'].intercalate lines := by
  induction lines with
  | nil => simp [unifyBreaks]
  | cons line lines ih =>
      have hline := hlines line List.mem_cons_self
      have htail : ∀ l ∈ lines, l.OneLine := fun l hl => hlines l (List.mem_cons_of_mem _ hl)
      by_cases hnil : lines = []
      · have happend := unifyBreaks_append (t := []) hline
        simpa [hnil, unifyBreaks] using happend
      · -- no line feed follows, so the carriage return is a break of its own
        have hfeed : '\n' ∉ ['\r'].intercalate lines :=
          not_mem_intercalate (by decide) fun l hl => (htail l hl).2
        have hhead : (['\r'].intercalate lines).head? ≠ some '\n' :=
          fun heq => hfeed (List.mem_of_mem_head? heq)
        rw [List.intercalate_cons_of_ne_nil hnil, List.intercalate_cons_of_ne_nil hnil,
          List.append_assoc, unifyBreaks_append hline, List.singleton_append,
          unifyBreaks_return hhead, ih htail]
        simp

/-- Lines joined at any kind of line break are the lines of what they are joined to. -/
theorem lines_intercalate_of_isLineBreak (hnewline : IsLineBreak newline)
    (hlines : ∀ line ∈ lines, line.OneLine) (hne : lines ≠ []) :
    Text.lines (newline.intercalate lines) = lines := by
  rcases hnewline with hend | rfl
  · exact lines_intercalate hend hlines hne
  · rw [Text.lines, unifyBreaks_intercalate_return hlines]
    exact List.splitOn_intercalate '\n' (fun line hline => (hlines line hline).2) hne

/-- A line between a text that ends its last line and one that goes on with a new line. -/
theorem lines_append_line {before after : Text} {above below : List Text}
    (hbefore : before.lines = above ++ [[]]) (hafter : after.lines = [] :: below)
    (hline : line.OneLine) (hne : line ≠ []) :
    (before ++ (line ++ after)).lines = above ++ line :: below := by
  have hhead : (line ++ after).head? ≠ some '\n' := by
    obtain ⟨c, rest, rfl⟩ := List.exists_cons_of_ne_nil hne
    simpa using (oneLine_cons.1 hline).1.2
  have hsingle : line.splitOn '\n' = [] ++ [line] := by
    have hjoined := List.splitOn_intercalate '\n' (List.forall_mem_singleton.2 hline.2)
      (List.cons_ne_nil line [])
    simpa using hjoined
  have hrest := splitOn_append hsingle hafter
  have hall := splitOn_append hbefore (by simpa using hrest)
  rw [lines, unifyBreaks_append_of_head? fun _ => hhead, unifyBreaks_append hline]
  simpa using hall

/-! ### Line feeds written otherwise -/

/-- A text with a separator in place of each line feed. -/
def rebreak (newline t : Text) : Text := t.flatMap fun c => if c = '\n' then newline else [c]

theorem rebreak_eq (newline t : Text) :
    rebreak newline t = newline.intercalate (t.splitOn '\n') := by
  induction t with
  | nil => simp [rebreak, List.splitOn_nil]
  | cons c t ih =>
      obtain ⟨first, rest, hsplit⟩ := List.exists_cons_of_ne_nil (List.splitOn_ne_nil '\n' t)
      have hcons : rebreak newline (c :: t) =
          (if c = '\n' then newline else [c]) ++ rebreak newline t := List.flatMap_cons
      rw [hcons, ih, List.splitOn_cons_eq_if_modifyHead, hsplit]
      by_cases hc : c = '\n'
      · simp [hc]
      · cases rest <;> simp [hc]

/-- The lines of a text do not depend on how its line breaks are written. -/
theorem lines_rebreak (hnewline : IsLineBreak newline) (ht : '\r' ∉ t) :
    (rebreak newline t).lines = t.splitOn '\n' := by
  rw [rebreak_eq]
  refine lines_intercalate_of_isLineBreak hnewline ?_ (List.splitOn_ne_nil '\n' t)
  intro l hl
  exact ⟨fun hreturn => ht (subset_of_mem_splitOn hl hreturn), not_mem_of_mem_splitOn hl⟩

/-! ### Cutting at a separator -/

/-- A text cut at each occurrence of a separator, from left to right. -/
def cutAt (sep : Text) : Text → List Text
  | [] => [[]]
  | c :: rest =>
    if sep.isPrefixOf (c :: rest) then [] :: cutAt sep (rest.drop (sep.length - 1))
    else (cutAt sep rest).modifyHead (c :: ·)
termination_by t => t.length

theorem cutAt_oneLine (hnewline : IsLineEnd newline) (h : line.OneLine) :
    cutAt newline line = [line] := by
  induction line with
  | nil => rw [cutAt]
  | cons c line ih =>
      obtain ⟨⟨hreturn, hfeed⟩, hline⟩ := oneLine_cons.1 h
      have hprefix : newline.isPrefixOf (c :: line) = false := by
        rcases hnewline with rfl | rfl <;> simp [List.isPrefixOf, Ne.symm hreturn, Ne.symm hfeed]
      rw [cutAt, hprefix, ih hline]
      rfl

theorem cutAt_append_newline (hnewline : IsLineEnd newline) (h : line.OneLine) :
    cutAt newline (line ++ newline ++ t) = line :: cutAt newline t := by
  induction line with
  | nil => rcases hnewline with rfl | rfl <;> simp [cutAt]
  | cons c line ih =>
      obtain ⟨⟨hreturn, hfeed⟩, hline⟩ := oneLine_cons.1 h
      have hprefix : newline.isPrefixOf (c :: (line ++ newline ++ t)) = false := by
        rcases hnewline with rfl | rfl <;> simp [List.isPrefixOf, Ne.symm hreturn, Ne.symm hfeed]
      rw [List.cons_append, List.cons_append, cutAt, hprefix, ih hline]
      rfl

/-- Joined lines are what the text is cut into at their separator. -/
theorem cutAt_intercalate (hnewline : IsLineEnd newline) (hlines : ∀ line ∈ lines, line.OneLine)
    (hne : lines ≠ []) : cutAt newline (newline.intercalate lines) = lines := by
  induction lines with
  | nil => exact absurd rfl hne
  | cons line lines ih =>
      have hline := hlines line List.mem_cons_self
      by_cases hnil : lines = []
      · simpa [hnil] using cutAt_oneLine hnewline hline
      · rw [List.intercalate_cons_of_ne_nil hnil, cutAt_append_newline hnewline hline,
          ih (fun l hl => hlines l (List.mem_cons_of_mem _ hl)) hnil]

/-! ### Stripping -/

section Strip

variable {α : Type} {p : α → Bool} {xs ys : List α}

/-- A list with nothing to strip from its ends. -/
def Stripped (p : α → Bool) (xs : List α) : Prop :=
  (∀ x ∈ xs.head?, p x = false) ∧ ∀ x ∈ xs.getLast?, p x = false

theorem stripWhile_eq (p : α → Bool) (xs : List α) :
    stripWhile p xs = (xs.dropWhile p).rdropWhile p := rfl

theorem stripWhile_of_stripped (h : Stripped p xs) : stripWhile p xs = xs := by
  have hhead : xs.dropWhile p = xs := by
    cases xs with
    | nil => rfl
    | cons x xs => exact List.dropWhile_cons_of_neg (by simp [h.1 x rfl])
  have hlast : xs.rdropWhile p = xs := by
    rw [List.rdropWhile_eq_self_iff]
    intro hne
    simp [h.2 _ (List.getLast?_eq_some_getLast hne)]
  rw [stripWhile_eq, hhead, hlast]

theorem stripped_stripWhile (p : α → Bool) (xs : List α) : Stripped p (stripWhile p xs) := by
  constructor
  · intro x hx
    -- what is left starts with what is left after the front is stripped
    have hprefix : stripWhile p xs <+: xs.dropWhile p := List.rdropWhile_prefix p _
    have hx : (xs.dropWhile p).head? = some x := by
      obtain ⟨rest, hrest⟩ := hprefix
      rw [← hrest, List.head?_append, hx]
      rfl
    have hne : xs.dropWhile p ≠ [] := by
      rintro hnil
      simp [hnil] at hx
    have hfirst := List.head_dropWhile_not p hne
    rwa [List.head_of_head?_eq_some hx] at hfirst
  · intro x hx
    have hne : stripWhile p xs ≠ [] := by
      rintro hnil
      simp [hnil] at hx
    have hlast := List.rdropWhile_last_not p (xs.dropWhile p) hne
    rw [List.getLast?_eq_some_getLast hne, Option.mem_some_iff] at hx
    simpa [← hx, stripWhile_eq] using hlast

theorem stripWhile_subset : stripWhile p xs ⊆ xs :=
  ((List.rdropWhile_prefix p _).sublist.trans (List.dropWhile_sublist p)).subset

/-- What is stripped is a part at each end. -/
theorem exists_append_stripWhile_append (p : α → Bool) (xs : List α) :
    ∃ front back, xs = front ++ stripWhile p xs ++ back ∧ (∀ x ∈ front, p x) ∧
      ∀ x ∈ back, p x := by
  refine ⟨xs.takeWhile p, (xs.dropWhile p).rtakeWhile p, ?_, fun x => List.mem_takeWhile_imp, ?_⟩
  · rw [stripWhile_eq, List.append_assoc, List.rdropWhile_append_rtakeWhile,
      List.takeWhile_append_dropWhile]
  · exact fun x => List.mem_rtakeWhile_imp

theorem stripWhile_append (h : ∀ x ∈ xs, p x = true) :
    stripWhile p (xs ++ ys) = stripWhile p ys := by
  rw [stripWhile_eq, List.dropWhile_append_of_pos h, stripWhile_eq]

end Strip

/-! ### Occurrences -/

theorem occursIn_iff : occursIn part t = true ↔ part <:+: t := by
  induction t with
  | nil => simp [occursIn]
  | cons c t ih => simp [occursIn, ih, List.infix_cons_iff]

/-- A part without a character occurs on one side of that character. -/
theorem infix_append_cons_iff (hc : c ∉ part) :
    part <:+: front ++ c :: back ↔ part <:+: front ∨ part <:+: back := by
  constructor
  · rintro ⟨s, u, h⟩
    rcases List.append_eq_append_iff.1 h with ⟨a, rfl, -⟩ | ⟨a, hfront, hback⟩
    · exact .inl ⟨s, a, rfl⟩
    · cases a with
      | nil => exact .inl ⟨s, [], by simpa using hfront⟩
      | cons d a =>
          obtain ⟨rfl, rfl⟩ := List.cons_eq_cons.1 hback
          -- what reaches past the character without holding it starts behind it
          rcases List.append_eq_append_iff.1 hfront with ⟨b, -, rfl⟩ | ⟨b, -, hb⟩
          · simp at hc
          · cases b with
            | nil => simp [← show c :: a = part from hb] at hc
            | cons d b =>
                obtain ⟨rfl, rfl⟩ := List.cons_eq_cons.1 hb
                exact .inr ⟨b, u, by simp⟩
  · rintro (h | h)
    · exact h.trans (List.prefix_append _ _).isInfix
    · exact h.trans ((List.suffix_cons c back).trans (List.suffix_append front _)).isInfix

theorem infix_of_infix_intercalate (hc : c ∉ part) (hne : part ≠ [])
    (h : part <:+: [c].intercalate lines) : ∃ line ∈ lines, part <:+: line := by
  induction lines with
  | nil => exact absurd (List.infix_nil.1 (by simpa using h)) hne
  | cons line rest ih =>
      by_cases hrest : rest = []
      · exact ⟨line, List.mem_cons_self, by simpa [hrest] using h⟩
      · rw [List.intercalate_cons_of_ne_nil hrest, List.append_assoc, List.singleton_append,
          infix_append_cons_iff hc] at h
        rcases h with hline | hrest
        · exact ⟨line, List.mem_cons_self, hline⟩
        · obtain ⟨other, hother, hinside⟩ := ih hrest
          exact ⟨other, List.mem_cons_of_mem _ hother, hinside⟩

/-- A part is inside of what it shares no character with. -/
theorem infix_of_infix_append (hfront : ∀ c ∈ front, c ∉ part) (hback : ∀ c ∈ back, c ∉ part)
    (hne : part ≠ []) (h : part <:+: front ++ (t ++ back)) : part <:+: t := by
  induction front with
  | nil =>
      rw [List.nil_append] at h
      cases back with
      | nil => rwa [List.append_nil] at h
      | cons c back =>
          obtain ⟨hc, hrest⟩ := List.forall_mem_cons.1 hback
          refine ((infix_append_cons_iff hc).1 h).resolve_right fun hlater => ?_
          obtain ⟨d, part, rfl⟩ := List.exists_cons_of_ne_nil hne
          exact hrest d (hlater.subset List.mem_cons_self) List.mem_cons_self
  | cons c front ih =>
      obtain ⟨hc, hrest⟩ := List.forall_mem_cons.1 hfront
      have hsplit : part <:+: [] ++ c :: (front ++ (t ++ back)) := h
      rcases (infix_append_cons_iff hc).1 hsplit with hnil | hlater
      · exact absurd (List.infix_nil.1 hnil) hne
      · exact ih hrest hlater

/-! ### Slashes -/

theorem forwardSlashes_of_not_mem (h : '\\' ∉ t) : forwardSlashes t = t := by
  refine (List.map_congr_left fun d hd => ?_).trans (List.map_id t)
  refine if_neg ?_
  rintro rfl
  exact h hd

@[simp] theorem forwardSlashes_append (front back : Text) :
    forwardSlashes (front ++ back) = forwardSlashes front ++ forwardSlashes back :=
  List.map_append

end SolidityFlattener.Text
