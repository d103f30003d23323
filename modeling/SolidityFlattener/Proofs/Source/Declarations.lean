import SolidityFlattener.Proofs.Source.Layouts

/-!
Declarations read back.

A declaration starts on a line of its own, which goes on at least to the declared name. Behind the
name stand the word `is`, a list of bases and a brace, with gaps between them. However all this is
laid out, and whatever line break the text is written with, the bases of the text are the names in
the list of its first declaration, in their order.
-/

namespace SolidityFlattener.Source

/-- Blanks within a line. -/
structure IsSpace (t : Text) : Prop where
  blank : ∀ c ∈ t, Text.isBlank c
  oneLine : t.OneLine

/-- A keyword that declares a type with bases, and the declared name. -/
inductive IsDeclarator : Text → Prop
  | contract {space name : Text} : IsSpace space → space ≠ [] → IsName name →
      IsDeclarator ("contract".toList ++ (space ++ name))
  | interface {space name : Text} : IsSpace space → space ≠ [] → IsName name →
      IsDeclarator ("interface".toList ++ (space ++ name))

/-- What stands on the line of a declaration, from the first keyword to the declared name. -/
inductive IsHeading : Text → Prop
  | concrete {declarator : Text} : IsDeclarator declarator → IsHeading declarator
  | abstract {space declarator : Text} : IsSpace space → space ≠ [] → IsDeclarator declarator →
      IsHeading ("abstract".toList ++ (space ++ declarator))

/-- A line above the first declaration. -/
def IsPassed (line : Text) : Prop :=
  startsImport line ∨ (declaresLibrary line = false ∧ afterDeclaration? line = none)

instance (line : Text) : Decidable (IsPassed line) := inferInstanceAs (Decidable (_ ∨ _))

/-- A text with bases in its first declaration. -/
structure Declaration where
  above : List Text
  margin : Text
  heading : Text
  before : Text
  after : Text
  names : List Text
  list : Text
  last : Text
  rest : Text
  above_oneLine : ∀ l ∈ above, l.OneLine
  above_passed : ∀ l ∈ above, IsPassed l
  margin_space : IsSpace margin
  heading_form : IsHeading heading
  before_gap : IsGap before
  before_ne_nil : before ≠ []
  after_gap : IsGap after
  after_ne_nil : after ≠ []
  list_form : IsBaseList names list
  last_gap : IsGap last
  rest_no_return : '\r' ∉ rest

namespace Declaration

/-- What follows the declared name. -/
def tail (d : Declaration) : Text :=
  d.before ++ ("is".toList ++ (d.after ++ (d.list ++ (d.last ++ '\x7b' :: d.rest))))

/-- The text, with a line feed for each line break. -/
def text (d : Declaration) : Text :=
  d.above.flatMap (· ++ ['\n']) ++ (d.margin ++ (d.heading ++ d.tail))

end Declaration

variable {t name declarator heading margin space word front blanks : Text} {above : List Text}

theorem IsDeclarator.oneLine (h : IsDeclarator declarator) : declarator.OneLine := by
  cases h with
  | contract hspace _ hname =>
      exact Text.oneLine_append.2 ⟨by decide, Text.oneLine_append.2 ⟨hspace.oneLine, hname.oneLine⟩⟩
  | interface hspace _ hname =>
      exact Text.oneLine_append.2 ⟨by decide, Text.oneLine_append.2 ⟨hspace.oneLine, hname.oneLine⟩⟩

theorem IsHeading.oneLine (h : IsHeading heading) : heading.OneLine := by
  cases h with
  | concrete hdeclarator => exact hdeclarator.oneLine
  | abstract hspace _ hdeclarator =>
      exact Text.oneLine_append.2
        ⟨by decide, Text.oneLine_append.2 ⟨hspace.oneLine, hdeclarator.oneLine⟩⟩

/-! ### The line of the declared name -/

theorem fromDeclaration?_of_passed (h : ∀ l ∈ above, IsPassed l) (below : List Text) :
    fromDeclaration? (above ++ below) = fromDeclaration? below := by
  induction above with
  | nil => rfl
  | cons l above ih =>
      have hrest := ih fun other hother => h other (List.mem_cons_of_mem _ hother)
      rw [List.cons_append, fromDeclaration?, hrest]
      rcases h l List.mem_cons_self with himport | ⟨hlibrary, hdeclaration⟩
      · rw [if_pos himport]
      · simp [hlibrary, hdeclaration]

theorem dropWhile_append {p : Char → Bool} (hfront : ∀ c ∈ front, p c)
    (ht : ∀ c ∈ t.head?, p c = false) : (front ++ t).dropWhile p = t := by
  rw [List.dropWhile_append_of_pos hfront]
  cases t with
  | nil => rfl
  | cons c t => exact List.dropWhile_cons_of_neg (by simp [ht c rfl])

theorem afterKeyword?_append (hspace : IsSpace space) (hne : space ≠ [])
    (ht : ∀ c ∈ t.head?, Text.isBlank c = false) :
    afterKeyword? word (word ++ (space ++ t)) = some t := by
  obtain ⟨c, space, rfl⟩ := List.exists_cons_of_ne_nil hne
  have hblank := List.forall_mem_cons.1 hspace.blank
  have hdrop := dropWhile_append hblank.2 ht
  simp [afterKeyword?, hblank.1, hdrop]

/-- What follows a word can be told apart from it. -/
def EndsWord (t : Text) : Prop := ∀ c ∈ t.head?, Text.isWord c = false

theorem afterName?_append (hname : IsName name) (ht : EndsWord t) :
    afterName? (name ++ t) = some t := by
  obtain ⟨c, more, rfl⟩ := List.exists_cons_of_ne_nil hname.ne_nil
  have hword := List.forall_mem_cons.1 hname.word
  have hdrop := dropWhile_append hword.2 ht
  simp [afterName?, hword.1, hdrop]

theorem IsName.head_not_blank (h : IsName name) (t : Text) :
    ∀ c ∈ (name ++ t).head?, Text.isBlank c = false := by
  obtain ⟨d, more, rfl⟩ := List.exists_cons_of_ne_nil h.ne_nil
  rintro c ⟨⟩
  exact Text.not_isBlank_of_isWord (h.word d List.mem_cons_self)

theorem IsDeclarator.head_not_blank (h : IsDeclarator declarator) (t : Text) :
    ∀ c ∈ (declarator ++ t).head?, Text.isBlank c = false := by
  cases h <;> rintro c ⟨⟩ <;> decide

theorem IsHeading.head_not_blank (h : IsHeading heading) (t : Text) :
    ∀ c ∈ (heading ++ t).head?, Text.isBlank c = false := by
  cases h with
  | concrete hdeclarator => exact hdeclarator.head_not_blank t
  | abstract => rintro c ⟨⟩; decide

theorem IsDeclarator.bind_afterName? (h : IsDeclarator declarator) (ht : EndsWord t) :
    ((afterKeyword? "contract".toList (declarator ++ t)).or
      (afterKeyword? "interface".toList (declarator ++ t))).bind afterName? = some t := by
  cases h with
  | contract hspace hne hname =>
      rw [List.append_assoc, List.append_assoc,
        afterKeyword?_append hspace hne (hname.head_not_blank t)]
      exact afterName?_append hname ht
  | @interface space name hspace hne hname =>
      have hcontract : afterKeyword? "contract".toList
          ("interface".toList ++ (space ++ (name ++ t))) = none := by simp [afterKeyword?]
      rw [List.append_assoc, List.append_assoc, hcontract,
        afterKeyword?_append hspace hne (hname.head_not_blank t)]
      exact afterName?_append hname ht

theorem IsDeclarator.afterKeyword?_abstract (h : IsDeclarator declarator) (t : Text) :
    afterKeyword? "abstract".toList (declarator ++ t) = none := by
  cases h <;> simp [afterKeyword?]

theorem IsHeading.afterKeyword?_library (h : IsHeading heading) (t : Text) :
    afterKeyword? "library".toList (heading ++ t) = none := by
  cases h with
  | concrete hdeclarator => cases hdeclarator <;> simp [afterKeyword?]
  | abstract => simp [afterKeyword?]

theorem IsHeading.startsImport (h : IsHeading heading) (t : Text) :
    startsImport (heading ++ t) = false := by
  cases h with
  | concrete hdeclarator => cases hdeclarator <;> simp [Source.startsImport]
  | abstract => simp [Source.startsImport]

/-- The line of a declaration is read as one, and what follows the name on it is kept. -/
theorem fromDeclaration?_heading (hmargin : IsSpace margin) (hheading : IsHeading heading)
    (ht : EndsWord t) (below : List Text) :
    fromDeclaration? ((margin ++ (heading ++ t)) :: below) = some (t :: below) := by
  have hdrop := dropWhile_append hmargin.blank (hheading.head_not_blank t)
  have himport : startsImport (margin ++ (heading ++ t)) = false := by
    cases margin with
    | nil => exact hheading.startsImport t
    | cons c margin =>
        have hc : 'i' ≠ c := by
          rintro rfl
          exact absurd (hmargin.blank 'i' List.mem_cons_self) (by decide)
        simp [startsImport, hc]
  have hlibrary : declaresLibrary (margin ++ (heading ++ t)) = false := by
    rw [declaresLibrary, hdrop, hheading.afterKeyword?_library t]
    rfl
  have hdeclaration : afterDeclaration? (margin ++ (heading ++ t)) = some t := by
    rw [afterDeclaration?, hdrop]
    cases hheading with
    | concrete hdeclarator =>
        rw [hdeclarator.afterKeyword?_abstract t]
        exact hdeclarator.bind_afterName? ht
    | abstract hspace hne hdeclarator =>
        rw [List.append_assoc, List.append_assoc,
          afterKeyword?_append hspace hne (hdeclarator.head_not_blank t)]
        exact hdeclarator.bind_afterName? ht
  simp [fromDeclaration?, himport, hlibrary, hdeclaration]

/-! ### The word before the list -/

theorem endsWord_of_prefix (h : EndsWord t) (hfront : front <+: t) : EndsWord front := by
  obtain ⟨rest, rfl⟩ := hfront
  cases front with
  | nil => simp [EndsWord]
  | cons c front => exact h

theorem IsGap.endsWord (h : IsGap gap) (hne : gap ≠ []) (t : Text) : EndsWord (gap ++ t) := by
  cases h with
  | nil => exact absurd rfl hne
  | blank hc => rintro d ⟨⟩; exact Text.not_isWord_of_isBlank hc
  | comment => rintro d ⟨⟩; decide +kernel

theorem endsWord_of_blank (h : ∀ c ∈ blanks, Text.isBlank c) (hne : blanks ≠ []) (t : Text) :
    EndsWord (blanks ++ t) := by
  obtain ⟨c, blanks, rfl⟩ := List.exists_cons_of_ne_nil hne
  rintro d ⟨⟩
  exact Text.not_isWord_of_isBlank (h c List.mem_cons_self)

theorem afterIs?_blanks (h : ∀ c ∈ blanks, Text.isBlank c) :
    afterIs? true (blanks ++ t) = afterIs? true t := by
  induction blanks with
  | nil => rfl
  | cons c blanks ih =>
      rw [List.forall_mem_cons] at h
      have hc : c ≠ 'i' := by rintro rfl; exact absurd h.1 (by decide)
      rw [List.cons_append, afterIs?, Text.not_isWord_of_isBlank h.1]
      · exact ih h.2
      · exact fun _ heq => absurd heq hc

theorem afterIs?_is (h : EndsWord t) : afterIs? true ("is".toList ++ t) = some t := by
  have hend : Text.atWordEnd t = true := by
    cases t with
    | nil => rfl
    | cons c t => simp [Text.atWordEnd, h c rfl]
  have hunfold : afterIs? true ('i' :: 's' :: t) =
      if true && Text.atWordEnd t then some t else afterIs? false ('s' :: t) := by rw [afterIs?]
  simpa [hend] using hunfold

/-! ### Declarations -/

namespace Declaration

variable (d : Declaration)

theorem endsWord_tail : EndsWord d.tail := d.before_gap.endsWord d.before_ne_nil _

theorem no_return : '\r' ∉ d.text := by
  have habove : '\r' ∉ d.above.flatMap (· ++ ['\n']) := by
    simp only [List.mem_flatMap, not_exists, not_and]
    intro l hl
    simp [(d.above_oneLine l hl).1]
  simp [text, tail, habove, d.margin_space.oneLine.1, d.heading_form.oneLine.1,
    d.before_gap.no_return, d.after_gap.no_return, d.list_form.no_return, d.last_gap.no_return,
    d.rest_no_return]

/-- The declaration is found, and its tail is what is kept from its name on. -/
theorem fromDeclaration?_text :
    fromDeclaration? (d.text.splitOn '\n') = some (d.tail.splitOn '\n') := by
  obtain ⟨first, rest, hsplit⟩ := List.exists_cons_of_ne_nil (List.splitOn_ne_nil '\n' d.tail)
  have hends : EndsWord first :=
    endsWord_of_prefix d.endsWord_tail (Text.prefix_of_splitOn_eq_cons hsplit)
  have hline : (d.margin ++ d.heading).splitOn '\n' = [] ++ [d.margin ++ d.heading] := by
    have hfeed : '\n' ∉ d.margin ++ d.heading :=
      (Text.oneLine_append.2 ⟨d.margin_space.oneLine, d.heading_form.oneLine⟩).2
    have hjoined := List.splitOn_intercalate '\n' (List.forall_mem_singleton.2 hfeed)
      (List.cons_ne_nil _ [])
    simpa using hjoined
  have hlines := Text.splitOn_append hline hsplit
  rw [List.nil_append, List.append_assoc, List.append_assoc] at hlines
  rw [text, Text.splitOn_flatMap_append fun l hl => (d.above_oneLine l hl).2,
    fromDeclaration?_of_passed d.above_passed, hlines,
    fromDeclaration?_heading d.margin_space d.heading_form hends, hsplit]

/-- The code up to the brace is the word `is` between blanks, and a list of the bases. -/
theorem reads_tail : ∃ blanks list, (∀ c ∈ blanks, Text.isBlank c) ∧ EndsWord list ∧
    Reads d.tail (blanks ++ ("is".toList ++ list)) ∧ baseNames list = d.names := by
  obtain ⟨spelt, ⟨read, hread, hspelt⟩, hwalk⟩ :=
    ((spells_brace d.rest).gap_append d.last_gap).baseList_append d.list_form
  obtain ⟨second, hsecond, hsecondNe, hlist⟩ := hread.gap_append d.after_gap
  have his : ∀ c ∈ "is".toList, Text.isWord c := List.all_eq_true.1 (by decide +kernel)
  obtain ⟨first, hfirst, -, htail⟩ := (hlist.word_append his).gap_append d.before_gap
  have hends := endsWord_of_blank hsecond (hsecondNe d.after_ne_nil) read
  refine ⟨first, second ++ read, hfirst, hends, htail, ?_⟩
  have hnames : d.names.filter (· != []) = d.names := by
    rw [List.filter_eq_self]
    intro name hname
    simpa using (d.list_form.isName name hname).ne_nil
  have hpieces : (spelt.foldl ListCursor.step .start).pieces = d.names := hwalk []
  rw [baseNames_eq, squeeze_append, squeeze_of_blank hsecond, hspelt, List.nil_append, hpieces,
    hnames]

end Declaration

/-- A declaration is read back: the bases of its text are the names in its list, however its line
breaks are written. -/
theorem bases_rebreak_text (d : Declaration) {newline : Text}
    (hnewline : Text.IsLineBreak newline) : bases (Text.rebreak newline d.text) = d.names := by
  obtain ⟨blanks, list, hblanks, hends, hreads, hnames⟩ := d.reads_tail
  have hbrace : toBrace? (d.tail.splitOn '\n') = some (' ' :: (blanks ++ ("is".toList ++ list))) :=
    hreads
  have hspace : ∀ c ∈ ' ' :: blanks, Text.isBlank c :=
    List.forall_mem_cons.2 ⟨by decide, hblanks⟩
  have his : afterIs? true (' ' :: (blanks ++ ("is".toList ++ list))) = some list := by
    rw [← List.cons_append, afterIs?_blanks hspace, afterIs?_is hends]
  rw [bases, Text.lines_rebreak hnewline d.no_return, d.fromDeclaration?_text, Option.bind_some,
    hbrace, Option.bind_some, his]
  exact hnames

/-- A declaration over four lines, with a brace in a comment and with arguments for a base. Above it
a contract is mentioned in an import line and a library in a comment. -/
def tokenSale : Declaration where
  above := ["import \"./A.sol\"; // contract B is D \x7b".toList, "/// A library of tokens".toList]
  margin := " ".toList
  heading := "abstract".toList ++ (" ".toList ++ ("contract".toList ++ (" ".toList ++ "C".toList)))
  before := "//".toList ++ (" is it \x7b".toList ++ '\n' :: [])
  after := ['\n']
  names := ["A".toList, "is".toList]
  list := ("A".toList ++ (" ".toList ++ '(' :: ("f(1)".toList ++ [')']))) ++
    ([] ++ ',' :: (" ".toList ++ "is".toList))
  last := ['\n']
  rest := "\x7d contract E is F \x7b\x7d".toList
  above_oneLine := by decide
  above_passed := by decide +kernel
  margin_space := ⟨List.all_eq_true.1 (by decide), by decide⟩
  heading_form := by
    have hspace : IsSpace " ".toList := ⟨List.all_eq_true.1 (by decide), by decide⟩
    have hname : IsName "C".toList := ⟨by decide, List.all_eq_true.1 (by decide +kernel)⟩
    exact .abstract hspace (by decide) (.contract hspace (by decide) hname)
  before_gap := .comment (by decide) .nil
  before_ne_nil := by decide
  after_gap := .blank (by decide) (by decide) .nil
  after_ne_nil := by decide
  list_form := by
    have hfirst : IsName "A".toList := ⟨by decide, List.all_eq_true.1 (by decide +kernel)⟩
    have hsecond : IsName "is".toList := ⟨by decide, List.all_eq_true.1 (by decide +kernel)⟩
    have hspace : IsGap " ".toList := .blank (by decide) (by decide) .nil
    have hbalanced : Balanced "f(1)".toList :=
      .cons (by decide) (by decide) (.group (.cons (by decide) (by decide) .nil) .nil)
    have harguments : IsArguments "f(1)".toList :=
      ⟨hbalanced, by decide, by decide +kernel, by decide⟩
    exact .cons (.applied hfirst hspace harguments) .nil hspace (.single (.bare hsecond))
  last_gap := .blank (by decide) (by decide) .nil
  rest_no_return := by decide

theorem bases_rebreak_tokenSale :
    Text.IsLineBreak ['\r', '\n'] ∧
      bases (Text.rebreak ['\r', '\n'] tokenSale.text) = ["A".toList, "is".toList] :=
  ⟨.inl (.inr rfl), bases_rebreak_text tokenSale (.inl (.inr rfl))⟩

end SolidityFlattener.Source
