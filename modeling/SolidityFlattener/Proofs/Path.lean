import SolidityFlattener.Path
import SolidityFlattener.Proofs.Text.Lines

/-!
Paths and their texts.

The components of a path that was read are not empty, not `.`, and hold no slash. Such a path is
what its text is read as, so different paths have different texts; and what leads from a base to a
path below it leads back to that path, also when it is written down in between.
-/

namespace SolidityFlattener.Path

variable {p q base : Path} {parts : List Text} {part text : Text}

/-- A path with components as they are read. -/
def Proper (p : Path) : Prop := ∀ part ∈ p.parts, isComponent part ∧ '/' ∉ part

/-! ### Components -/

@[simp] theorem components_nil : components [] = [] := by decide

@[simp] theorem components_slash (t : Text) : components ('/' :: t) = components t := by
  rw [components, List.splitOn_cons_eq_if_modifyHead, if_pos (beq_self_eq_true _),
    List.filter_cons_of_neg (by decide), components]

theorem components_append_slash (front back : Text) :
    components (front ++ '/' :: back) = components front ++ components back := by
  rw [components, List.splitOn_append_cons_self, List.filter_append]
  rfl

/-- Slashes at the ends of a text lead nowhere. -/
theorem components_slashes_append {slashes : Text} (h : ∀ c ∈ slashes, c = '/') (t : Text) :
    components (slashes ++ t) = components t := by
  induction slashes with
  | nil => rfl
  | cons c rest ih =>
      obtain ⟨rfl, hrest⟩ := List.forall_mem_cons.1 h
      rw [List.cons_append, components_slash, ih hrest]

theorem components_append_slashes {slashes : Text} (h : ∀ c ∈ slashes, c = '/') (t : Text) :
    components (t ++ slashes) = components t := by
  cases slashes with
  | nil => rw [List.append_nil]
  | cons c rest =>
      obtain ⟨rfl, hrest⟩ := List.forall_mem_cons.1 h
      have hnil : components rest = [] := by
        simpa using components_slashes_append hrest []
      rw [components_append_slash, hnil, List.append_nil]

/-- A text without slashes is a component by itself, unless it means nothing. -/
theorem components_of_not_mem (h : '/' ∉ text) :
    components text = if isComponent text then [text] else [] := by
  rw [components, List.splitOn_eq_singleton h, List.filter_cons, List.filter_nil]

/-- A text without slashes leads at most one component further. -/
theorem joinText_of_not_mem (h : '/' ∉ text) :
    p.joinText text = ⟨p.anchor, p.parts ++ if isComponent text then [text] else []⟩ := by
  have hanchor : Anchor.ofText text = .relative := by
    cases text with
    | nil => rfl
    | cons c rest =>
        obtain ⟨hc, -⟩ := not_or.1 (mt List.mem_cons.2 h)
        unfold Anchor.ofText
        split <;> simp_all
  rw [joinText, join, ofText, components_of_not_mem h, hanchor]

theorem components_intercalate (h : ∀ part ∈ parts, isComponent part ∧ '/' ∉ part) :
    components (['/'].intercalate parts) = parts := by
  by_cases hnil : parts = []
  · rw [hnil, List.intercalate_nil, components_nil]
  · rw [components, List.splitOn_intercalate '/' (fun part hpart => (h part hpart).2) hnil]
    exact List.filter_eq_self.2 fun part hpart => (h part hpart).1

/-- Joined components start with the first of them. -/
theorem head?_intercalate_ne (h : ∀ part ∈ parts, isComponent part ∧ '/' ∉ part) :
    (['/'].intercalate parts).head? ≠ some '/' := by
  cases parts with
  | nil => simp
  | cons first rest =>
      obtain ⟨hfirst, hslash⟩ := h first List.mem_cons_self
      obtain ⟨c, first, rfl⟩ : ∃ c cs, first = c :: cs :=
        List.exists_cons_of_ne_nil fun hnil => by simp [hnil, isComponent] at hfirst
      have hc : '/' ≠ c := fun heq => hslash (heq ▸ List.mem_cons_self)
      by_cases hnil : rest = []
      · simpa [hnil] using hc.symm
      · simpa [List.intercalate_cons_of_ne_nil hnil] using hc.symm

/-- An anchor is read from what is written for it, before anything but a slash. -/
theorem anchor_ofText_append (anchor : Anchor) (h : text.head? ≠ some '/') :
    Anchor.ofText (anchor.text ++ text) = anchor := by
  cases text with
  | nil => cases anchor <;> rfl
  | cons c text =>
      have hc : c ≠ '/' := by simpa using h
      cases anchor <;> simp [Anchor.text, Anchor.ofText, hc]

@[simp] theorem components_anchor_append (anchor : Anchor) (t : Text) :
    components (anchor.text ++ t) = components t := by
  cases anchor <;> simp [Anchor.text]

/-! ### Texts -/

/-- The text of a path is read as that path. -/
theorem ofText_text (h : p.Proper) : ofText p.text = p := by
  unfold text
  split
  · next hhere =>
    rw [hhere]
    decide
  · rw [ofText, anchor_ofText_append _ (head?_intercalate_ne h), components_anchor_append,
      components_intercalate h]

theorem text_inj (hp : p.Proper) (hq : q.Proper) (h : p.text = q.text) : p = q := by
  rw [← ofText_text hp, h, ofText_text hq]

theorem oneLine_text (h : ∀ part ∈ p.parts, part.OneLine) : p.text.OneLine := by
  have hjoined : Text.OneLine (['/'].intercalate p.parts) := Text.oneLine_intercalate (by decide) h
  unfold text
  split
  · decide
  · refine Text.oneLine_append.2 ⟨?_, hjoined⟩
    cases p.anchor <;> decide

/-- The text of a path holds its components. -/
theorem subset_text (hpart : part ∈ p.parts) : part ⊆ p.text := by
  have hne : p ≠ here := fun heq => by simp [heq, here] at hpart
  rw [text, if_neg hne]
  exact List.subset_append_of_subset_right _ (Text.subset_intercalate hpart)

theorem oneLine_of_mem_parts (h : p.text.OneLine) (hpart : part ∈ p.parts) : part.OneLine :=
  ⟨fun hreturn => h.1 (subset_text hpart hreturn), fun hfeed => h.2 (subset_text hpart hfeed)⟩

/-! ### Names -/

/-- A name is its stem and its extension. -/
theorem splitName_append (name : Text) : (splitName name).1 ++ (splitName name).2 = name := by
  unfold splitName
  simp only
  split
  · simp
  · next last stem hstem =>
    split
    · simp
    · have hcut := name.reverse.takeWhile_append_dropWhile (p := (· != '.'))
      have hdot := List.head_dropWhile_not (· != '.') (l := name.reverse) (by simp [hstem])
      simp only [hstem, List.head_cons] at hdot
      obtain rfl : last = '.' := by simpa using hdot
      rw [hstem] at hcut
      have hname := congrArg List.reverse hcut
      simpa using hname

theorem stem_append_suffix (p : Path) : p.stem ++ p.suffix = p.name := splitName_append p.name

theorem stem_ne_nil (h : p.name ≠ []) : p.stem ≠ [] := by
  unfold stem splitName
  simp only
  split
  · exact h
  · split
    · exact h
    · next hends => simpa using not_or.1 hends |>.1

@[simp] theorem name_append_singleton (anchor : Anchor) (parts : List Text) (last : Text) :
    name ⟨anchor, parts ++ [last]⟩ = last := by
  simp [name]

/-! ### Components kept -/

/-- A path without components that mean nothing. -/
def Tidy (p : Path) : Prop := ∀ part ∈ p.parts, isComponent part

theorem tidy_ofText (t : Text) : (ofText t).Tidy := fun _ hpart => (List.mem_filter.1 hpart).2

theorem Tidy.parent (h : p.Tidy) : p.parent.Tidy :=
  fun part hpart => h part (List.mem_of_mem_dropLast hpart)

theorem Tidy.join (hp : p.Tidy) (hq : q.Tidy) : (p.join q).Tidy := by
  unfold Path.join
  split
  · intro part hpart
    exact (List.mem_append.1 hpart).elim (hp part) (hq part)
  · exact hq

theorem Tidy.joinText (h : p.Tidy) (t : Text) : (p.joinText t).Tidy := h.join (tidy_ofText t)

/-! ### Relative paths -/

theorem partsBelow?_eq_some_iff {above below : List Text} :
    partsBelow? above parts = some below ↔ parts = above ++ below := by
  fun_induction partsBelow? above parts with
  | case1 parts => simp [eq_comm]
  | case2 part above parts ih => simp [ih]
  | case3 first above part parts hne => simp [Ne.symm hne]
  | case4 => simp

/-- What leads to a path from a base is what its components end with. -/
theorem relativeTo?_eq_some_iff :
    p.relativeTo? base = some q ↔
      q.anchor = .relative ∧ p = ⟨base.anchor, base.parts ++ q.parts⟩ := by
  obtain ⟨anchor, parts⟩ := p
  obtain ⟨qanchor, qparts⟩ := q
  unfold relativeTo?
  split
  · next hanchor =>
    simp only [Option.map_eq_some_iff, partsBelow?_eq_some_iff, Path.mk.injEq] at *
    constructor
    · rintro ⟨below, hbelow, hrelative, rfl⟩
      exact ⟨hrelative.symm, hanchor, hbelow⟩
    · rintro ⟨hrelative, -, hbelow⟩
      exact ⟨qparts, hbelow, hrelative.symm, rfl⟩
  · next hanchor =>
    simp only [Path.mk.injEq]
    constructor
    · rintro ⟨⟩
    · exact fun h => absurd h.2.1 hanchor

theorem mem_parts_join (h : part ∈ q.parts) : part ∈ (p.join q).parts := by
  unfold join
  split
  · exact List.mem_append_right _ h
  · exact h

/-- An absolute path forgets what it is joined to. -/
theorem join_of_isAbsolute (h : p.isAbsolute) : base.join p = p := by
  unfold join
  split
  · next hrelative => simp [isAbsolute, hrelative] at h
  · rfl

end SolidityFlattener.Path
