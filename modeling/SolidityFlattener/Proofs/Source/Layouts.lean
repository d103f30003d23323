import SolidityFlattener.Proofs.Text.Lines
import SolidityFlattener.Proofs.Source.BaseList
import SolidityFlattener.Source.Inheritance

/-!
How a list of bases can be laid out, and what is read of it.

The names stand between commas. A name can be followed by arguments, which are any text with
balanced parentheses that holds neither a brace nor a comment. Between any two of these there can be
a gap, which is made of blanks, line breaks and line comments.

A text is read in two steps. `Reads` says what is left of it up to the brace when comments and line
breaks are gone, and `Spells` what is left of that without blanks, which is all that the names in a
list depend on. For either there is a lemma for each thing that can be put in front of a text.
-/

namespace SolidityFlattener

namespace Text

variable {c d : Char}

/-- The code points of the blanks. -/
def blankCodes : List Nat :=
  List.range' 0x09 5 ++ List.range' 0x1C 5 ++ [0x85, 0xA0, 0x1680] ++ List.range' 0x2000 11 ++
    [0x2028, 0x2029, 0x202F, 0x205F, 0x3000]

theorem toNat_mem_blankCodes (hc : isBlank c) : c.toNat ∈ blankCodes := by
  have hcode : c.toNat = c.val.toNat := rfl
  simp only [isBlank, Bool.or_eq_true, Bool.and_eq_true, decide_eq_true_eq, beq_iff_eq] at hc
  simp only [blankCodes, List.mem_append, List.mem_range'_1, List.mem_cons, List.not_mem_nil,
    or_false]
  omega

theorem not_isWord_of_isBlank (hc : isBlank c) : isWord c = false := by
  have hcodes : ∀ n ∈ blankCodes, isWord (Char.ofNat n) = false := by decide +kernel
  have hword := hcodes _ (toNat_mem_blankCodes hc)
  rwa [Char.ofNat_toNat] at hword

theorem not_isBlank_of_isWord (hc : isWord c) : isBlank c = false := by
  by_contra hblank
  have hword : isWord c = false := not_isWord_of_isBlank (by simpa using hblank)
  simp [hc] at hword

theorem ne_of_isWord (hc : isWord c) (hd : isWord d = false) : c ≠ d := by
  rintro rfl
  simp [hc] at hd

end Text

namespace Source

structure IsName (t : Text) : Prop where
  ne_nil : t ≠ []
  word : ∀ c ∈ t, Text.isWord c

/-- Blanks, line breaks and line comments. -/
inductive IsGap : Text → Prop
  | nil : IsGap []
  | blank {c : Char} {gap : Text} : Text.isBlank c → c ≠ '\r' → IsGap gap → IsGap (c :: gap)
  | comment {content gap : Text} : content.OneLine → IsGap gap →
      IsGap ("//".toList ++ (content ++ '\n' :: gap))

/-- What can stand between the parentheses behind a base. -/
structure IsArguments (t : Text) : Prop where
  balanced : Balanced t
  no_brace : '\x7b' ∉ t
  no_comment : ¬"//".toList <:+: t
  no_return : '\r' ∉ t

/-- A base with its name. -/
inductive IsBase (name : Text) : Text → Prop
  | bare : IsName name → IsBase name name
  | applied {gap arguments : Text} : IsName name → IsGap gap → IsArguments arguments →
      IsBase name (name ++ (gap ++ '(' :: (arguments ++ [')'])))

/-- Bases with commas between them, and their names. -/
inductive IsBaseList : List Text → Text → Prop
  | single {name base : Text} : IsBase name base → IsBaseList [name] base
  | cons {name base before after list : Text} {names : List Text} : IsBase name base →
      IsGap before → IsGap after → IsBaseList names list →
      IsBaseList (name :: names) (base ++ (before ++ ',' :: (after ++ list)))

variable {t code name base gap list content word : Text} {names : List Text} {c : Char}

theorem IsName.no_return (h : IsName name) : '\r' ∉ name := by
  intro hreturn
  exact Text.ne_of_isWord (h.word _ hreturn) (by decide +kernel) rfl

theorem IsGap.no_return (h : IsGap gap) : '\r' ∉ gap := by
  induction h with
  | nil => simp
  | blank _ hc _ ih => simp [Ne.symm hc, ih]
  | comment hcontent _ ih => simp [hcontent.1, ih]

theorem IsBase.no_return (h : IsBase name base) : '\r' ∉ base := by
  cases h with
  | bare hname => exact hname.no_return
  | applied hname hgap harguments =>
      simp [hname.no_return, hgap.no_return, harguments.no_return]

theorem IsBaseList.no_return (h : IsBaseList names list) : '\r' ∉ list := by
  induction h with
  | single hbase => exact hbase.no_return
  | cons hbase hbefore hafter _ ih =>
      simp [hbase.no_return, hbefore.no_return, hafter.no_return, ih]

theorem IsName.oneLine (h : IsName name) : name.OneLine := by
  refine ⟨h.no_return, fun hfeed => ?_⟩
  exact Text.ne_of_isWord (h.word _ hfeed) (by decide +kernel) rfl

/-! ### What is read up to the brace -/

/-- From inside a line on, a text is read as some code up to its first brace. -/
def Reads (t code : Text) : Prop := toBrace? (t.splitOn '\n') = some (' ' :: code)

/-- The code that a text is read as, without its blanks. -/
def Spells (t code : Text) : Prop := ∃ read, Reads t read ∧ squeeze read = code

theorem withoutComment_cons (h : ¬"//".toList <+: c :: t) :
    withoutComment (c :: t) = c :: withoutComment t := by
  have hprefix : "//".toList.isPrefixOf (c :: t) = false :=
    Bool.eq_false_iff.2 fun hslashes => h (List.isPrefixOf_iff_prefix.1 hslashes)
  rw [withoutComment, Text.before, hprefix]
  rfl

theorem reads_brace (t : Text) : Reads ('\x7b' :: t) [] := by
  obtain ⟨first, rest, hsplit⟩ := List.exists_cons_of_ne_nil (List.splitOn_ne_nil '\n' t)
  have hcode : withoutComment ('\x7b' :: first) = '\x7b' :: withoutComment first :=
    withoutComment_cons (by simp)
  rw [Reads, List.splitOn_cons_eq_if_modifyHead, hsplit]
  simp [toBrace?, hcode]

theorem Reads.feed (h : Reads t code) : Reads ('\n' :: t) (' ' :: code) := by
  have h : toBrace? (t.splitOn '\n') = _ := h
  rw [Reads, List.splitOn_cons_eq_if_modifyHead, if_pos (by decide), toBrace?, h]
  rfl

theorem Reads.comment (hcontent : content.OneLine) (h : Reads t code) :
    Reads ("//".toList ++ (content ++ '\n' :: t)) (' ' :: code) := by
  have h : toBrace? (t.splitOn '\n') = _ := h
  have hfeed : '\n' ∉ "//".toList ++ content := by simpa using hcontent.2
  rw [Reads, ← List.append_assoc, List.splitOn_append_cons_self_of_not_mem hfeed, toBrace?, h]
  rfl

theorem Reads.cons (hfeed : c ≠ '\n') (hbrace : c ≠ '\x7b') (hcomment : ¬"//".toList <+: c :: t)
    (h : Reads t code) : Reads (c :: t) (c :: code) := by
  obtain ⟨first, rest, hsplit⟩ := List.exists_cons_of_ne_nil (List.splitOn_ne_nil '\n' t)
  have hfirst : first <+: t := Text.prefix_of_splitOn_eq_cons hsplit
  have hcode : withoutComment (c :: first) = c :: withoutComment first :=
    withoutComment_cons fun hslashes =>
      hcomment (hslashes.trans ((List.prefix_cons_inj c).2 hfirst))
  rw [Reads, hsplit] at h
  rw [Reads, List.splitOn_cons_eq_if_modifyHead, hsplit, if_neg (by simpa using hfeed),
    List.modifyHead_cons, toBrace?, hcode]
  rw [toBrace?] at h
  by_cases hlast : (withoutComment first).contains '\x7b'
  · simp_all [Ne.symm hbrace]
  · simp_all [Ne.symm hbrace]

/-- A gap is read as blanks. -/
theorem Reads.gap_append (hgap : IsGap gap) (h : Reads t code) :
    ∃ blanks, (∀ c ∈ blanks, Text.isBlank c) ∧ (gap ≠ [] → blanks ≠ []) ∧
      Reads (gap ++ t) (blanks ++ code) := by
  induction hgap with
  | nil => exact ⟨[], by simp, by simp, h⟩
  | @blank c gap hc _ _ ih =>
      obtain ⟨blanks, hblanks, -, hreads⟩ := ih
      by_cases hfeed : c = '\n'
      · subst hfeed
        exact ⟨' ' :: blanks, List.forall_mem_cons.2 ⟨by decide, hblanks⟩, by simp, hreads.feed⟩
      · refine ⟨c :: blanks, List.forall_mem_cons.2 ⟨hc, hblanks⟩, by simp, ?_⟩
        have hbrace : c ≠ '\x7b' := by rintro rfl; exact absurd hc (by decide)
        have hslash : c ≠ '/' := by rintro rfl; exact absurd hc (by decide)
        exact hreads.cons hfeed hbrace (by simp [Ne.symm hslash])
  | comment hcontent _ ih =>
      obtain ⟨blanks, hblanks, -, hreads⟩ := ih
      refine ⟨' ' :: blanks, List.forall_mem_cons.2 ⟨by decide, hblanks⟩, by simp, ?_⟩
      simpa using hreads.comment hcontent

theorem Reads.word_append (hword : ∀ c ∈ word, Text.isWord c) (h : Reads t code) :
    Reads (word ++ t) (word ++ code) := by
  induction word with
  | nil => exact h
  | cons c word ih =>
      rw [List.forall_mem_cons] at hword
      have hfeed : c ≠ '\n' := Text.ne_of_isWord hword.1 (by decide +kernel)
      have hbrace : c ≠ '\x7b' := Text.ne_of_isWord hword.1 (by decide +kernel)
      have hslash : c ≠ '/' := Text.ne_of_isWord hword.1 (by decide +kernel)
      exact (ih hword.2).cons hfeed hbrace (by simp [Ne.symm hslash])

/-! ### What is spelt up to the brace -/

theorem spells_brace (t : Text) : Spells ('\x7b' :: t) [] := ⟨[], reads_brace t, rfl⟩

theorem Spells.gap_append (hgap : IsGap gap) (h : Spells t code) : Spells (gap ++ t) code := by
  obtain ⟨read, hread, rfl⟩ := h
  obtain ⟨blanks, hblanks, -, hreads⟩ := hread.gap_append hgap
  exact ⟨blanks ++ read, hreads, by rw [squeeze_append, squeeze_of_blank hblanks]; rfl⟩

theorem Spells.name_append (hname : IsName name) (h : Spells t code) :
    Spells (name ++ t) (name ++ code) := by
  obtain ⟨read, hread, rfl⟩ := h
  have hblank : ∀ c ∈ name, Text.isBlank c = false :=
    fun c hc => Text.not_isBlank_of_isWord (hname.word c hc)
  exact ⟨name ++ read, hread.word_append hname.word,
    by rw [squeeze_append, squeeze_of_not_blank hblank]⟩

theorem Spells.cons (hbrace : c ≠ '\x7b') (hcomment : ¬"//".toList <+: c :: t)
    (h : Spells t code) : Spells (c :: t) (squeeze [c] ++ code) := by
  obtain ⟨read, hread, rfl⟩ := h
  by_cases hfeed : c = '\n'
  · subst hfeed
    exact ⟨' ' :: read, hread.feed, rfl⟩
  · exact ⟨c :: read, hread.cons hfeed hbrace hcomment, squeeze_append [c] read⟩

/-- A mark of a list. -/
theorem Spells.mark (hc : c ∈ ['(', ')', ',']) (h : Spells t code) :
    Spells (c :: t) (c :: code) := by
  have hcons : c ≠ '\x7b' ∧ '/' ≠ c ∧ squeeze [c] = [c] := by
    simp only [List.mem_cons, List.not_mem_nil, or_false] at hc
    rcases hc with rfl | rfl | rfl <;> decide
  have hspells := h.cons (c := c) hcons.1 (by simp [hcons.2.1])
  rwa [hcons.2.2] at hspells

theorem Spells.arguments (hbrace : '\x7b' ∉ word) (hcomment : ¬"//".toList <:+: word)
    (h : Spells t code) : Spells (word ++ ')' :: t) (squeeze word ++ ')' :: code) := by
  induction word with
  | nil => exact h.mark (by simp)
  | cons c word ih =>
      rw [List.mem_cons, not_or] at hbrace
      have hrest := ih hbrace.2 fun hslashes =>
        hcomment (hslashes.trans (List.suffix_cons c word).isInfix)
      have hslashes : ¬"//".toList <+: c :: (word ++ ')' :: t) := by
        intro hprefix
        cases word with
        | nil => simp at hprefix
        | cons d word =>
            obtain ⟨rfl, rfl⟩ : '/' = c ∧ '/' = d := by simpa using hprefix
            exact hcomment ⟨[], word, rfl⟩
      have hspells := hrest.cons (c := c) (Ne.symm hbrace.1) hslashes
      rwa [← List.append_assoc, ← squeeze_append] at hspells

theorem IsBase.isName (h : IsBase name base) : IsName name := by
  cases h with
  | bare hname => exact hname
  | applied hname _ _ => exact hname

theorem IsBaseList.isName (h : IsBaseList names list) : ∀ name ∈ names, IsName name := by
  induction h with
  | single hbase => exact List.forall_mem_singleton.2 hbase.isName
  | cons hbase _ _ _ ih => exact List.forall_mem_cons.2 ⟨hbase.isName, ih⟩

theorem IsName.foldl_step (h : IsName name) (done : List Text) :
    name.foldl ListCursor.step ⟨0, [], done⟩ = ⟨0, name, done⟩ := by
  refine ListCursor.foldl_step_of_plain fun c hc => ?_
  have hword := h.word c hc
  exact ⟨Text.ne_of_isWord hword (by decide +kernel), Text.ne_of_isWord hword (by decide +kernel),
    Text.ne_of_isWord hword (by decide +kernel)⟩

/-- A base is spelt so that a walk takes its name and nothing else. -/
theorem Spells.base_append (hbase : IsBase name base) (h : Spells t code) :
    ∃ spelt, Spells (base ++ t) (spelt ++ code) ∧
      ∀ done, spelt.foldl ListCursor.step ⟨0, [], done⟩ = ⟨0, name, done⟩ := by
  cases hbase with
  | bare hname => exact ⟨name, h.name_append hname, hname.foldl_step⟩
  | @applied gap arguments hname hgap harguments =>
      have hgroup : Spells ('(' :: (arguments ++ ')' :: t))
          ('(' :: (squeeze arguments ++ ')' :: code)) :=
        (h.arguments harguments.no_brace harguments.no_comment).mark (by simp)
      refine ⟨name ++ '(' :: (squeeze arguments ++ [')']), ?_, fun done => ?_⟩
      · simpa using (hgroup.gap_append hgap).name_append hname
      · rw [List.foldl_append, hname.foldl_step,
          ListCursor.foldl_step_group harguments.balanced.squeeze]

theorem Spells.baseList_append (hlist : IsBaseList names list) (h : Spells t []) :
    ∃ spelt, Spells (list ++ t) spelt ∧
      ∀ done, (spelt.foldl ListCursor.step ⟨0, [], done⟩).pieces = done ++ names := by
  induction hlist with
  | single hbase =>
      obtain ⟨spelt, hspells, hwalk⟩ := h.base_append hbase
      rw [List.append_nil] at hspells
      exact ⟨spelt, hspells, fun done => by rw [hwalk]; rfl⟩
  | cons hbase hbefore hafter _ ih =>
      obtain ⟨more, hmore, hmoreWalk⟩ := ih
      have hcomma := (hmore.gap_append hafter).mark (c := ',') (by simp)
      obtain ⟨spelt, hspells, hwalk⟩ := (hcomma.gap_append hbefore).base_append hbase
      refine ⟨spelt ++ ',' :: more, by simpa using hspells, fun done => ?_⟩
      rw [List.foldl_append, hwalk, List.foldl_cons, ListCursor.step_comma, hmoreWalk]
      simp

end Source

end SolidityFlattener
