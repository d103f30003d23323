import SolidityFlattener.Proofs.Document.JsonScalars

/-!
Documents written in JSON and read back.

A document of texts, integers, truth values and nothing, in arrays and in objects whose keys are
different texts, is read back as it was written (`Value.Exact`). The reader needs no more steps than
the text has characters: each step into a value or on to the next member leaves one behind.
-/

namespace SolidityFlattener

variable {c : Char} {t rest : Text} {fuel depth : ℕ} {v : Value} {items : List Value}
  {fields : List (Scalar × Value)}

/-- A document that JSON keeps as it is: its strings are texts, and its objects have different texts
as keys. -/
inductive Value.Exact : Value → Prop
  | null : Exact .null
  | bool (b : Bool) : Exact (.bool b)
  | integer (i : Int) : Exact (.integer i)
  | text (t : Text) : Exact (.ofText t)
  | array {items : List Value} : (∀ v ∈ items, Exact v) → Exact (.array items)
  | object {fields : List (Scalar × Value)} :
      (fields.map Prod.fst).Nodup → (∀ f ∈ fields, ∃ t, f.1 = .ofText t) →
        (∀ f ∈ fields, Exact f.2) → Exact (.object fields)

theorem Points.ofText_injective : Function.Injective Points.ofText :=
  List.map_injective_iff.2 fun _ _ h => Point.scalar.inj h

theorem Scalar.ofText_injective : Function.Injective Scalar.ofText :=
  fun _ _ h => Points.ofText_injective (Scalar.string.inj h)

/-- An object is exact if its keys are different texts and its values are exact. -/
theorem Value.Exact.object_of_texts (fields : List (Text × Value))
    (hnodup : (fields.map Prod.fst).Nodup) (h : ∀ f ∈ fields, f.2.Exact) :
    Value.Exact (.object (fields.map fun f => (.ofText f.1, f.2))) := by
  refine .object ?_ ?_ ?_
  · have hkeys : ((fields.map fun f => (Scalar.ofText f.1, f.2)).map Prod.fst) =
        (fields.map Prod.fst).map Scalar.ofText := by simp [Function.comp_def]
    rw [hkeys]
    exact hnodup.map Scalar.ofText_injective
  · simp only [List.forall_mem_map]
    exact fun f _ => ⟨f.1, rfl⟩
  · simpa only [List.forall_mem_map] using h

namespace Value.Layout

/-- A layout parts members by a comma and sets everything apart by blanks only. -/
structure IsSpaced (layout : Layout) : Prop where
  opening : ∀ depth, ∀ c ∈ layout.opening depth, Json.isSpace c
  between : ∀ depth, ∃ gap, layout.between depth = ',' :: gap ∧ ∀ c ∈ gap, Json.isSpace c
  closing : ∀ depth, ∀ c ∈ layout.closing depth, Json.isSpace c

theorem isSpaced_indented {indent : Text} (h : ∀ c ∈ indent, Json.isSpace c) :
    (indented indent).IsSpaced := by
  have hbreak : ∀ depth, ∀ c ∈ breakTo indent depth, Json.isSpace c := by
    intro depth c hc
    rcases List.mem_cons.1 hc with rfl | hc
    · rfl
    · obtain ⟨piece, hpiece, hc⟩ := List.mem_flatten.1 hc
      rw [(List.mem_replicate.1 hpiece).2] at hc
      exact h c hc
  exact ⟨hbreak, fun depth => ⟨_, rfl, hbreak depth⟩, fun depth => hbreak (depth - 1)⟩

end Value.Layout

namespace Json

open Value (Exact Layout jsonAt jsonItems jsonFields bracket)

/-! ### Blanks -/

theorem skipSpace_append {blanks : Text} (h : ∀ c ∈ blanks, isSpace c) (t : Text) :
    skipSpace (blanks ++ t) = skipSpace t := List.dropWhile_append_of_pos h

theorem skipSpace_cons (h : isSpace c = false) (t : Text) : skipSpace (c :: t) = c :: t :=
  List.dropWhile_cons_of_neg (by simp [h])

/-! ### One value -/

/-- A value is read back from what it is written as, whatever may follow it. -/
def Reads (layout : Layout) (v : Value) : Prop :=
  ∀ depth fuel rest, Delimited rest → (jsonAt layout depth v).length ≤ fuel →
    value? fuel (jsonAt layout depth v ++ rest) = some (v, rest)

theorem exists_cons_bracket (layout : Layout) (depth : ℕ) (left right : Char)
    (members : List Text) : ∃ tail, bracket layout depth left right members = left :: tail := by
  cases members with
  | nil => exact ⟨_, rfl⟩
  | cons member rest => exact ⟨_, rfl⟩

/-- What starts with no blank and with no closing bracket. -/
def StartsMember (t : Text) : Prop :=
  ∃ c tail, t = c :: tail ∧ isSpace c = false ∧ c ≠ ']' ∧ c ≠ '\x7d'

theorem startsMember_jsonAt (h : v.Exact) (layout : Layout) (depth : ℕ) :
    StartsMember (jsonAt layout depth v) := by
  cases h with
  | null => exact ⟨'n', _, rfl, by decide, by decide, by decide⟩
  | bool b =>
      cases b with
      | true => exact ⟨'t', _, rfl, by decide, by decide, by decide⟩
      | false => exact ⟨'f', _, rfl, by decide, by decide, by decide⟩
  | integer i =>
      obtain ⟨first, tail, hcons, hfirst⟩ := exists_cons_decimalInt i
      simp only [otherStarts, List.mem_cons, List.not_mem_nil, or_false, not_or] at hfirst
      exact ⟨first, tail, hcons, by simp [isSpace, hfirst], by simp [hfirst]⟩
  | text t => exact ⟨'"', _, rfl, by decide, by decide, by decide⟩
  | array _ =>
      obtain ⟨tail, htail⟩ := exists_cons_bracket layout (depth + 1) '[' ']' _
      exact ⟨'[', tail, htail, by decide, by decide, by decide⟩
  | object _ _ _ =>
      obtain ⟨tail, htail⟩ := exists_cons_bracket layout (depth + 1) '\x7b' '\x7d' _
      exact ⟨'\x7b', tail, htail, by decide, by decide, by decide⟩

theorem value?_of_head (hhead : t.head? = some c) (h : c ∉ ['"', '[', '\x7b']) (fuel : ℕ) :
    value? (fuel + 1) t = (named? t).or (number? t) := by
  simp only [List.mem_cons, List.not_mem_nil, or_false, not_or] at h
  obtain ⟨tail, rfl⟩ := List.head?_eq_some_iff.1 hhead
  rw [value?]
  · exact fun rest heq => h.1 (List.cons_eq_cons.1 heq).1
  · exact fun rest heq => h.2.1 (List.cons_eq_cons.1 heq).1
  · exact fun rest heq => h.2.2 (List.cons_eq_cons.1 heq).1

/-! ### One step of the reader -/

theorem items?_last {left more : Text} (hv : value? fuel t = some (v, left))
    (hclose : skipSpace left = ']' :: more) : items? (fuel + 1) t = some ([v], more) := by
  rw [items?, hv]
  simp only [hclose]

theorem items?_more {left more last : Text} (hv : value? fuel t = some (v, left))
    (hcomma : skipSpace left = ',' :: more)
    (hitems : items? fuel (skipSpace more) = some (items, last)) :
    items? (fuel + 1) t = some (v :: items, last) := by
  rw [items?, hv]
  simp only [hcomma, hitems]
  rfl

theorem fields?_last {key : Points} {body left more : Text}
    (hkey : string? fuel t = some (key, ':' :: ' ' :: body))
    (hv : value? fuel (skipSpace body) = some (v, left))
    (hclose : skipSpace left = '\x7d' :: more) :
    fields? (fuel + 1) ('"' :: t) = some ([(.string key, v)], more) := by
  rw [fields?, hkey]
  have hcolon : skipSpace (':' :: ' ' :: body) = ':' :: ' ' :: body := skipSpace_cons rfl _
  have hblank : skipSpace (' ' :: body) = skipSpace body := rfl
  simp only [hcolon, hblank, hv, hclose]

theorem fields?_more {key : Points} {body left more last : Text}
    (hkey : string? fuel t = some (key, ':' :: ' ' :: body))
    (hv : value? fuel (skipSpace body) = some (v, left))
    (hcomma : skipSpace left = ',' :: more)
    (hfields : fields? fuel (skipSpace more) = some (fields, last)) :
    fields? (fuel + 1) ('"' :: t) = some ((.string key, v) :: fields, last) := by
  rw [fields?, hkey]
  have hcolon : skipSpace (':' :: ' ' :: body) = ':' :: ' ' :: body := skipSpace_cons rfl _
  have hblank : skipSpace (' ' :: body) = skipSpace body := rfl
  simp only [hcolon, hblank, hv, hcomma, hfields]
  rfl

/-! ### Values without parts -/

theorem exists_fuel (h : (c :: t).length ≤ fuel) : ∃ less, fuel = less + 1 ∧ t.length ≤ less := by
  cases fuel with
  | zero => exact absurd h (by simp)
  | succ less => exact ⟨less, rfl, by simpa using h⟩

theorem reads_null (layout : Layout) : Reads layout .null := by
  intro depth fuel rest _ hfuel
  obtain ⟨less, rfl, -⟩ := exists_fuel (c := 'n') hfuel
  have htext : jsonAt layout depth .null = "null".toList := rfl
  rw [htext, value?_of_head (c := 'n') rfl (by decide), named?_null]
  rfl

theorem reads_bool (layout : Layout) (b : Bool) : Reads layout (.bool b) := by
  intro depth fuel rest _ hfuel
  have htext : jsonAt layout depth (.bool b) = (Scalar.bool b).json := rfl
  obtain ⟨less, rfl⟩ : ∃ less, fuel = less + 1 := by
    cases b <;> exact ⟨_, (exists_fuel hfuel).choose_spec.1⟩
  have hvalue : value? (less + 1) ((Scalar.bool b).json ++ rest) =
      (named? ((Scalar.bool b).json ++ rest)).or (number? ((Scalar.bool b).json ++ rest)) := by
    cases b with
    | true => exact value?_of_head (c := 't') rfl (by decide) less
    | false => exact value?_of_head (c := 'f') rfl (by decide) less
  rw [htext, hvalue, named?_bool]
  rfl

theorem reads_integer (layout : Layout) (i : Int) : Reads layout (.integer i) := by
  intro depth fuel rest hrest hfuel
  have htext : jsonAt layout depth (.integer i) = Text.decimalInt i := rfl
  obtain ⟨first, tail, hcons, hfirst⟩ := exists_cons_decimalInt i
  have hopening : ∀ c ∈ ['"', '[', '\x7b'], c ∈ otherStarts := by simp [otherStarts]
  rw [htext, hcons] at hfuel
  obtain ⟨less, rfl, -⟩ := exists_fuel hfuel
  have hhead : (Text.decimalInt i ++ rest).head? = some first := by rw [hcons]; rfl
  rw [htext, value?_of_head hhead fun hmem => hfirst (hopening first hmem), named?_decimalInt,
    number?_decimalInt i hrest]
  rfl

theorem length_le_flatMap_jsonPoint (t : Text) :
    t.length ≤ ((Points.ofText t).flatMap Points.jsonPoint).length := by
  induction t with
  | nil => exact Nat.zero_le 0
  | cons c t ih =>
      obtain ⟨first, tail, hcons, -⟩ := exists_cons_jsonPoint c
      simp only [Points.ofText, List.map_cons, List.flatMap_cons, List.length_append, hcons,
        List.length_cons] at ih ⊢
      omega

/-- A string is read back as a value and as a key. -/
theorem string?_of_json {less : ℕ} (t rest : Text)
    (hfuel : (Points.ofText t).json.length ≤ less + 1) :
    ∃ body, (Points.ofText t).json ++ rest = '"' :: body ∧
      string? less body = some (Points.ofText t, rest) := by
  refine ⟨(Points.ofText t).flatMap Points.jsonPoint ++ '"' :: rest, by simp [Points.json],
    string?_json t rest ?_⟩
  have hlength := length_le_flatMap_jsonPoint t
  simp only [Points.json, List.length_append, List.length_cons, List.length_nil,
    List.cons_append] at hfuel
  omega

theorem reads_text (layout : Layout) (t : Text) : Reads layout (.ofText t) := by
  intro depth fuel rest _ hfuel
  obtain ⟨less, rfl, -⟩ := exists_fuel (c := '"') hfuel
  obtain ⟨body, hbody, hstring⟩ := string?_of_json t rest hfuel
  have htext : jsonAt layout depth (.ofText t) = (Points.ofText t).json := rfl
  rw [htext, hbody, value?, hstring]
  rfl

/-! ### Members -/

theorem StartsMember.skipSpace_append (h : StartsMember t) (rest : Text) :
    skipSpace (t ++ rest) = t ++ rest := by
  obtain ⟨c, tail, rfl, hc, -⟩ := h
  exact skipSpace_cons hc _

theorem StartsMember.length_pos (h : StartsMember t) : 0 < t.length := by
  obtain ⟨c, tail, rfl, -⟩ := h
  exact Nat.succ_pos _

theorem startsMember_intercalate {sep : Text} {members : List Text} (hne : members ≠ [])
    (h : ∀ member ∈ members, StartsMember member) : StartsMember (sep.intercalate members) := by
  obtain ⟨first, rest, rfl⟩ := List.exists_cons_of_ne_nil hne
  obtain ⟨c, tail, rfl, hc⟩ := h first List.mem_cons_self
  by_cases hrest : rest = []
  · subst hrest
    exact ⟨c, tail, List.intercalate_singleton, hc⟩
  · exact ⟨c, _, List.intercalate_cons_of_ne_nil hrest, hc⟩

section Members

variable {layout : Layout}

theorem delimited_between (hlayout : layout.IsSpaced) (depth : ℕ) (t : Text) :
    Delimited (layout.between depth ++ t) := by
  obtain ⟨gap, hgap, -⟩ := hlayout.between depth
  intro c hc
  rw [hgap] at hc
  obtain rfl := Option.some.inj hc
  exact .inr (.inl rfl)

theorem delimited_closing (hlayout : layout.IsSpaced) (depth : ℕ) (hc : c = ']' ∨ c = '\x7d')
    (t : Text) : Delimited (layout.closing depth ++ c :: t) := by
  intro first hfirst
  cases hblanks : layout.closing depth with
  | nil =>
      rw [hblanks] at hfirst
      obtain rfl := Option.some.inj hfirst
      exact .inr (.inr hc)
  | cons blank blanks =>
      rw [hblanks] at hfirst
      obtain rfl := Option.some.inj hfirst
      exact .inl (hlayout.closing depth blank (by simp [hblanks]))

theorem skipSpace_closing (hlayout : layout.IsSpaced) (depth : ℕ) (hc : c = ']' ∨ c = '\x7d')
    (t : Text) : skipSpace (layout.closing depth ++ c :: t) = c :: t := by
  rw [skipSpace_append (hlayout.closing depth)]
  refine skipSpace_cons ?_ t
  rcases hc with rfl | rfl <;> rfl

/-- Between two members the reader meets a comma, and after it the next member. -/
theorem exists_skipSpace_between (hlayout : layout.IsSpaced) (depth : ℕ) (h : StartsMember t)
    (rest : Text) :
    ∃ more, skipSpace (layout.between depth ++ (t ++ rest)) = ',' :: more ∧
      skipSpace more = t ++ rest := by
  obtain ⟨gap, hgap, hblank⟩ := hlayout.between depth
  refine ⟨gap ++ (t ++ rest), ?_, ?_⟩
  · rw [hgap]
    exact skipSpace_cons rfl _
  · rw [skipSpace_append hblank, h.skipSpace_append]

theorem jsonItems_eq_map (layout : Layout) (depth : ℕ) (items : List Value) :
    jsonItems layout depth items = items.map (jsonAt layout depth) := by
  induction items with
  | nil => rfl
  | cons v rest ih => rw [jsonItems, ih, List.map_cons]

theorem startsMember_jsonItems (sep : Text) (layout : Layout) (depth : ℕ)
    (hitems : ∀ v ∈ items, v.Exact) (hne : items ≠ []) :
    StartsMember (sep.intercalate (jsonItems layout depth items)) := by
  rw [jsonItems_eq_map]
  refine startsMember_intercalate (by simpa using hne) fun member hmember => ?_
  obtain ⟨v, hv, rfl⟩ := List.mem_map.1 hmember
  exact startsMember_jsonAt (hitems v hv) layout depth

/-- Items are read up to the closing bracket. -/
theorem items?_json (hlayout : layout.IsSpaced)
    (hitems : ∀ v ∈ items, v.Exact ∧ Reads layout v) (hne : items ≠ [])
    (hfuel : ((layout.between depth).intercalate (jsonItems layout depth items)).length < fuel)
    (rest : Text) :
    items? fuel ((layout.between depth).intercalate (jsonItems layout depth items) ++
      (layout.closing depth ++ ']' :: rest)) = some (items, rest) := by
  induction items generalizing fuel with
  | nil => exact absurd rfl hne
  | cons v items ih =>
      obtain ⟨less, rfl⟩ := Nat.exists_eq_add_one_of_ne_zero (Nat.ne_zero_of_lt hfuel)
      obtain ⟨⟨hexact, hreads⟩, hothers⟩ := List.forall_mem_cons.1 hitems
      by_cases hlast : items = []
      · subst hlast
        rw [jsonItems_eq_map, List.map_singleton, List.intercalate_singleton] at hfuel ⊢
        exact items?_last
          (hreads depth less _ (delimited_closing hlayout depth (.inl rfl) rest) (by omega))
          (skipSpace_closing hlayout depth (.inl rfl) rest)
      · have hmembers : jsonItems layout depth items ≠ [] := by
          rw [jsonItems_eq_map]
          simpa using hlast
        have hfull := startsMember_jsonItems (layout.between depth) layout depth
          (fun v hv => (hothers v hv).1) hlast
        rw [jsonItems, List.intercalate_cons_of_ne_nil hmembers] at hfuel ⊢
        simp only [List.length_append] at hfuel
        have hlength := (startsMember_jsonAt hexact layout depth).length_pos
        obtain ⟨more, hcomma, hmore⟩ := exists_skipSpace_between hlayout depth hfull
          (layout.closing depth ++ ']' :: rest)
        rw [List.append_assoc, List.append_assoc]
        refine items?_more
          (hreads depth less _ (delimited_between hlayout depth _) (by omega)) hcomma ?_
        rw [hmore]
        exact ih hothers hlast (by omega)

/-- A field as it is written. -/
def fieldText (layout : Layout) (depth : ℕ) (f : Scalar × Value) : Text :=
  f.1.jsonKey ++ ": ".toList ++ jsonAt layout depth f.2

theorem jsonFields_eq_map (layout : Layout) (depth : ℕ) (fields : List (Scalar × Value)) :
    jsonFields layout depth fields = fields.map (fieldText layout depth) := by
  induction fields with
  | nil => rfl
  | cons f rest ih =>
      obtain ⟨key, v⟩ := f
      rw [jsonFields, ih, List.map_cons]
      rfl

theorem startsMember_fieldText (layout : Layout) (depth : ℕ) (key : Text) (v : Value) :
    StartsMember (fieldText layout depth (.ofText key, v)) :=
  ⟨'"', _, rfl, by decide, by decide, by decide⟩

theorem startsMember_jsonFields (sep : Text) (layout : Layout) (depth : ℕ)
    (hkeys : ∀ f ∈ fields, ∃ t, f.1 = .ofText t) (hne : fields ≠ []) :
    StartsMember (sep.intercalate (jsonFields layout depth fields)) := by
  rw [jsonFields_eq_map]
  refine startsMember_intercalate (by simpa using hne) fun member hmember => ?_
  obtain ⟨⟨key, v⟩, hf, rfl⟩ := List.mem_map.1 hmember
  obtain ⟨text, rfl⟩ : ∃ text, key = .ofText text := hkeys _ hf
  exact startsMember_fieldText layout depth text v

/-- A field is read, first the key with what parts it from the value and then the value. -/
theorem exists_reads_fieldText {less : ℕ} (key : Text) (hexact : v.Exact) (hreads : Reads layout v)
    {rest : Text} (hrest : Delimited rest)
    (hfuel : (fieldText layout depth (.ofText key, v)).length ≤ less + 1) :
    ∃ body, fieldText layout depth (.ofText key, v) ++ rest = '"' :: body ∧
      string? less body =
        some (Points.ofText key, ':' :: ' ' :: (jsonAt layout depth v ++ rest)) ∧
      value? less (skipSpace (jsonAt layout depth v ++ rest)) = some (v, rest) := by
  have hsplit : fieldText layout depth (.ofText key, v) ++ rest =
      (Points.ofText key).json ++ (':' :: ' ' :: (jsonAt layout depth v ++ rest)) := by
    rw [fieldText, List.append_assoc, List.append_assoc]
    rfl
  have hlength : (fieldText layout depth (.ofText key, v)).length =
      (Points.ofText key).json.length + ((jsonAt layout depth v).length + 2) := by
    rw [fieldText, List.append_assoc, List.length_append, List.length_append]
    exact congrArg _ (Nat.add_comm 2 _)
  obtain ⟨body, hbody, hstring⟩ := string?_of_json key
    (':' :: ' ' :: (jsonAt layout depth v ++ rest)) (by omega : _ ≤ less + 1)
  refine ⟨body, hsplit.trans hbody, hstring, ?_⟩
  rw [(startsMember_jsonAt hexact layout depth).skipSpace_append]
  exact hreads depth less _ hrest (by omega)

/-- Fields are read up to the closing brace. -/
theorem fields?_json (hlayout : layout.IsSpaced) (hkeys : ∀ f ∈ fields, ∃ t, f.1 = .ofText t)
    (hfields : ∀ f ∈ fields, f.2.Exact ∧ Reads layout f.2) (hne : fields ≠ [])
    (hfuel : ((layout.between depth).intercalate (jsonFields layout depth fields)).length < fuel)
    (rest : Text) :
    fields? fuel ((layout.between depth).intercalate (jsonFields layout depth fields) ++
      (layout.closing depth ++ '\x7d' :: rest)) = some (fields, rest) := by
  induction fields generalizing fuel with
  | nil => exact absurd rfl hne
  | cons f fields ih =>
      obtain ⟨less, rfl⟩ := Nat.exists_eq_add_one_of_ne_zero (Nat.ne_zero_of_lt hfuel)
      obtain ⟨⟨key, hkey⟩, hotherKeys⟩ := List.forall_mem_cons.1 hkeys
      obtain ⟨⟨hexact, hreads⟩, hothers⟩ := List.forall_mem_cons.1 hfields
      obtain ⟨key', v⟩ := f
      obtain rfl : key' = .ofText key := hkey
      by_cases hlast : fields = []
      · subst hlast
        rw [jsonFields_eq_map, List.map_singleton, List.intercalate_singleton] at hfuel ⊢
        obtain ⟨body, hbody, hstring, hvalue⟩ := exists_reads_fieldText key hexact hreads
          (delimited_closing hlayout depth (.inr rfl) rest) hfuel.le
        rw [hbody]
        exact fields?_last hstring hvalue (skipSpace_closing hlayout depth (.inr rfl) rest)
      · have hmembers : jsonFields layout depth fields ≠ [] := by
          rw [jsonFields_eq_map]
          simpa using hlast
        have hfull := startsMember_jsonFields (layout.between depth) layout depth hotherKeys hlast
        have hlength : 0 < (fieldText layout depth (.ofText key, v)).length :=
          (startsMember_fieldText layout depth key v).length_pos
        rw [jsonFields_eq_map, List.map_cons, ← jsonFields_eq_map,
          List.intercalate_cons_of_ne_nil hmembers] at hfuel ⊢
        simp only [List.length_append] at hfuel
        obtain ⟨more, hcomma, hmore⟩ := exists_skipSpace_between hlayout depth hfull
          (layout.closing depth ++ '\x7d' :: rest)
        rw [List.append_assoc, List.append_assoc]
        have hfits : (fieldText layout depth (.ofText key, v)).length ≤ less + 1 := by omega
        obtain ⟨body, hbody, hstring, hvalue⟩ := exists_reads_fieldText key hexact hreads
          (delimited_between hlayout depth _) hfits
        rw [hbody]
        refine fields?_more hstring hvalue hcomma ?_
        rw [hmore]
        exact ih hotherKeys hothers hlast (by omega)

/-! ### Arrays and objects -/

theorem value?_array {left : Text} (hskip : skipSpace t = c :: left) (hne : c ≠ ']') (fuel : ℕ) :
    value? (fuel + 1) ('[' :: t) = (items? fuel (c :: left)).map fun r => (.array r.1, r.2) := by
  rw [value?, hskip]
  split
  · next heq => exact absurd (List.cons_eq_cons.1 heq).1 hne
  · rfl

theorem value?_object {left : Text} (hskip : skipSpace t = c :: left) (hne : c ≠ '\x7d')
    (fuel : ℕ) :
    value? (fuel + 1) ('\x7b' :: t) =
      (fields? fuel (c :: left)).map fun r => (.ofFields r.1, r.2) := by
  rw [value?, hskip]
  split
  · next heq => exact absurd (List.cons_eq_cons.1 heq).1 hne
  · rfl

theorem bracket_of_ne_nil {members : List Text} (hne : members ≠ []) (left right : Char) :
    bracket layout depth left right members = left :: (layout.opening depth ++
      ((layout.between depth).intercalate members ++ (layout.closing depth ++ [right]))) := by
  obtain ⟨first, others, rfl⟩ := List.exists_cons_of_ne_nil hne
  simp [bracket]

theorem reads_array (hlayout : layout.IsSpaced) (hitems : ∀ v ∈ items, v.Exact ∧ Reads layout v) :
    Reads layout (.array items) := by
  intro depth fuel rest _ hfuel
  rw [jsonAt] at hfuel ⊢
  by_cases hnil : items = []
  · subst hnil
    obtain ⟨less, rfl, -⟩ := exists_fuel (c := '[') hfuel
    rfl
  · have hmembers : jsonItems layout (depth + 1) items ≠ [] := by
      rw [jsonItems_eq_map]
      simpa using hnil
    have hfull := startsMember_jsonItems (layout.between (depth + 1)) layout (depth + 1)
      (fun v hv => (hitems v hv).1) hnil
    rw [bracket_of_ne_nil hmembers] at hfuel ⊢
    obtain ⟨less, rfl, hless⟩ := exists_fuel hfuel
    simp only [List.length_append, List.length_singleton] at hless
    have hshort : ((layout.between (depth + 1)).intercalate
        (jsonItems layout (depth + 1) items)).length < less := by omega
    have hread := items?_json hlayout hitems hnil hshort rest
    have hskip := hfull.skipSpace_append (layout.closing (depth + 1) ++ ']' :: rest)
    obtain ⟨c, tail, hcons, -, hclose, -⟩ := hfull
    rw [hcons, List.cons_append] at hread hskip
    simp only [List.cons_append, List.append_assoc, List.nil_append, hcons]
    rw [value?_array ((skipSpace_append (hlayout.opening (depth + 1)) _).trans hskip) hclose, hread]
    rfl

/-! ### Keys that differ -/

theorem putField_of_new {key : Scalar} (v : Value)
    (hnew : ∀ f ∈ fields, f.1.keyForm ≠ key.keyForm) :
    Value.putField key v fields = fields ++ [(key, v)] := by
  induction fields with
  | nil => rfl
  | cons f fields ih =>
      obtain ⟨hfirst, hothers⟩ := List.forall_mem_cons.1 hnew
      rw [Value.putField, if_neg hfirst, ih hothers, List.cons_append]

theorem foldl_putField (hnodup : (fields.map fun f => f.1.keyForm).Nodup) :
    fields.foldl (fun done f => Value.putField f.1 f.2 done) [] = fields := by
  induction fields using List.reverseRecOn with
  | nil => rfl
  | append_singleton fields f ih =>
      rw [List.map_append, List.nodup_append] at hnodup
      obtain ⟨hfront, -, hdiffer⟩ := hnodup
      rw [List.foldl_append, ih hfront]
      refine putField_of_new f.2 fun other hother heq => ?_
      exact hdiffer _ (List.mem_map_of_mem hother) _ (List.mem_singleton_self _) heq

theorem ofFields_eq (hnodup : (fields.map Prod.fst).Nodup)
    (hkeys : ∀ f ∈ fields, ∃ t, f.1 = .ofText t) : Value.ofFields fields = .object fields := by
  have hforms : (fields.map fun f => f.1.keyForm) = fields.map Prod.fst := by
    refine List.map_congr_left fun f hf => ?_
    obtain ⟨t, ht⟩ := hkeys f hf
    rw [ht]
    rfl
  rw [Value.ofFields, foldl_putField (by rwa [hforms])]

theorem reads_object (hlayout : layout.IsSpaced) (hnodup : (fields.map Prod.fst).Nodup)
    (hkeys : ∀ f ∈ fields, ∃ t, f.1 = .ofText t)
    (hfields : ∀ f ∈ fields, f.2.Exact ∧ Reads layout f.2) : Reads layout (.object fields) := by
  intro depth fuel rest _ hfuel
  rw [jsonAt] at hfuel ⊢
  by_cases hnil : fields = []
  · subst hnil
    obtain ⟨less, rfl, -⟩ := exists_fuel (c := '\x7b') hfuel
    rfl
  · have hmembers : jsonFields layout (depth + 1) fields ≠ [] := by
      rw [jsonFields_eq_map]
      simpa using hnil
    have hfull := startsMember_jsonFields (layout.between (depth + 1)) layout (depth + 1) hkeys hnil
    rw [bracket_of_ne_nil hmembers] at hfuel ⊢
    obtain ⟨less, rfl, hless⟩ := exists_fuel hfuel
    simp only [List.length_append, List.length_singleton] at hless
    have hshort : ((layout.between (depth + 1)).intercalate
        (jsonFields layout (depth + 1) fields)).length < less := by omega
    have hread := fields?_json hlayout hkeys hfields hnil hshort rest
    have hskip := hfull.skipSpace_append (layout.closing (depth + 1) ++ '\x7d' :: rest)
    obtain ⟨c, tail, hcons, -, -, hclose⟩ := hfull
    rw [hcons, List.cons_append] at hread hskip
    simp only [List.cons_append, List.append_assoc, List.nil_append, hcons]
    rw [value?_object ((skipSpace_append (hlayout.opening (depth + 1)) _).trans hskip) hclose,
      hread, Option.map_some, ofFields_eq hnodup hkeys]

/-- Every exact document is read back. -/
theorem reads_of_exact (hlayout : layout.IsSpaced) (h : v.Exact) : Reads layout v := by
  induction h with
  | null => exact reads_null layout
  | bool b => exact reads_bool layout b
  | integer i => exact reads_integer layout i
  | text t => exact reads_text layout t
  | array hexact ih => exact reads_array hlayout fun v hv => ⟨hexact v hv, ih v hv⟩
  | object hnodup hkeys hexact ih =>
      exact reads_object hlayout hnodup hkeys fun f hf => ⟨hexact f hf, ih f hf⟩

/-- A document written on lines of its own is read back. -/
theorem read?_json {indent : Text} (hindent : ∀ c ∈ indent, isSpace c) (h : v.Exact) :
    read? (v.json indent) = some v := by
  have htext : v.json indent = jsonAt (.indented indent) 0 v := rfl
  have hskip := (startsMember_jsonAt h (.indented indent) 0).skipSpace_append []
  have hvalue := reads_of_exact (Layout.isSpaced_indented hindent) h 0
    (2 * (jsonAt (.indented indent) 0 v).length + 2) [] (by simp [Delimited]) (by omega)
  rw [List.append_nil] at hskip hvalue
  rw [htext, read?, hskip, hvalue]
  rfl

end Members

end Json

end SolidityFlattener
