import SolidityFlattener.Proofs.Tree.Beside

/-!
A tree without what its files hold.

What is asked on a walk, and whether something can be made or written, depends on what kind of thing
stands where. So a tree and its outline answer alike, and a change to the one has the same outcome
as that to the other. Two trees of one outline can differ only in the contents of files.
-/

namespace SolidityFlattener

@[simp] theorem Entry.shape_shape (entry : Entry) : entry.shape.shape = entry.shape := by
  cases entry <;> rfl

namespace Tree

variable {t b : Tree} {cwd place : Location} {p : Path} {aim : Aim} {entry : Entry}
  {content : ByteArray}

/-- The tree with all its files emptied. -/
def outline (t : Tree) : Tree := ⟨t.entries.map fun e => (e.1, e.2.shape)⟩

/-! ### What stands where -/

theorem lookup_outline (t : Tree) (place : Location) : t.outline.lookup place = t.shapeAt place := by
  have hentries : ∀ entries : List (Location × Entry),
      (entries.map fun e => (e.1, e.2.shape)).lookup place =
        (entries.lookup place).map Entry.shape := by
    intro entries
    induction entries with
    | nil => rfl
    | cons e rest ih =>
        obtain ⟨key, entry⟩ := e
        rw [List.map_cons, lookup_cons_eq_ite, lookup_cons_eq_ite, ih]
        split_ifs <;> rfl
  unfold shapeAt lookup outline
  split_ifs
  · rfl
  · exact hentries t.entries

@[simp] theorem shapeAt_outline (t : Tree) (place : Location) :
    t.outline.shapeAt place = t.shapeAt place := by
  rw [shapeAt, lookup_outline, shapeAt, Option.map_map]
  congr 1
  exact funext Entry.shape_shape

theorem outline_insert (t : Tree) (place : Location) (entry : Entry) :
    (t.insert place entry).outline = t.outline.insert place entry.shape := by
  have hput : ∀ entries : List (Location × Entry),
      (put place entry entries).map (fun e => (e.1, e.2.shape)) =
        put place entry.shape (entries.map fun e => (e.1, e.2.shape)) := by
    intro entries
    induction entries with
    | nil => rfl
    | cons e rest ih =>
        obtain ⟨key, old⟩ := e
        rw [put, List.map_cons, put]
        split_ifs
        · rfl
        · rw [List.map_cons, ih]
  unfold outline insert
  rw [hput]

/-- Putting what stands there already changes nothing. -/
theorem insert_eq_self (hne : place ≠ []) (h : t.lookup place = some entry) :
    t.insert place entry = t := by
  have hput : ∀ entries : List (Location × Entry), entries.lookup place = some entry →
      put place entry entries = entries := by
    intro entries hentries
    induction entries with
    | nil => simp at hentries
    | cons e rest ih =>
        obtain ⟨key, old⟩ := e
        rw [lookup_cons_eq_ite] at hentries
        rw [put]
        split_ifs at hentries ⊢ with hplace hkey hkey
        · rw [← hplace, Option.some.inj hentries]
        · exact absurd hplace.symm hkey
        · exact absurd hkey.symm hplace
        · rw [ih hentries]
  rw [lookup, if_neg hne] at h
  rw [insert, hput t.entries h]

/-- The outline does not tell what a file holds. -/
theorem outline_insert_file (h : t.lookup place = some (.file content)) (bytes : ByteArray) :
    (t.insert place (.file bytes)).outline = t.outline := by
  rw [outline_insert]
  exact insert_eq_self (ne_nil_of_lookup_file h) (by rw [lookup_outline, shapeAt, h]; rfl)

theorem shapeAt_eq_of_outline_eq (h : b.outline = t.outline) (place : Location) :
    b.shapeAt place = t.shapeAt place := by
  rw [← shapeAt_outline b, h, shapeAt_outline]

/-! ### Changes -/

theorem locate_outline (t : Tree) (aim : Aim) (cwd : Location) (p : Path) :
    t.outline.locate aim cwd p = t.locate aim cwd p :=
  locate_congr fun place _ => shapeAt_outline t place

theorem isDirectory_outline (t : Tree) (cwd : Location) (p : Path) :
    t.outline.isDirectory cwd p = t.isDirectory cwd p :=
  isDirectory_congr fun place _ => shapeAt_outline t place

theorem makeDirectory_outline (t : Tree) (cwd : Location) (p : Path) :
    t.outline.makeDirectory cwd p = (t.makeDirectory cwd p).map outline := by
  unfold makeDirectory
  rw [locate_outline]
  cases t.locate .entry cwd p with
  | error fault => rfl
  | ok place =>
      simp only [bind, Except.bind, lookup_outline, shapeAt]
      cases t.lookup place with
      | none => exact congrArg Except.ok (outline_insert t place .directory).symm
      | some entry => rfl

theorem makeOne_outline (t : Tree) (cwd : Location) (p : Path) :
    t.outline.makeOne cwd p = (t.makeOne cwd p).map outline := by
  have hmake := makeDirectory_outline t cwd p
  cases hmade : t.makeDirectory cwd p with
  | ok made =>
      rw [hmade] at hmake
      simp only [makeOne, hmade, hmake, Except.map]
  | error fault =>
      rw [hmade] at hmake
      rw [makeOne_of_error hmade, makeOne_of_error hmake, isDirectory_outline]
      split_ifs
      · rfl
      · cases t.isDirectory cwd p with
        | error other => rfl
        | ok found => cases found <;> rfl

theorem makeAll_outline (t : Tree) (cwd : Location) (anchor : Anchor) (names : List Text) :
    t.outline.makeAll cwd anchor names =
      ((t.makeAll cwd anchor names).1.outline, (t.makeAll cwd anchor names).2) := by
  induction names with
  | nil =>
      simp only [makeAll, makeOne_outline]
      cases t.makeOne cwd ⟨anchor, []⟩ <;> rfl
  | cons name above ih =>
      simp only [makeAll, makeOne_outline, ih]
      cases t.makeOne cwd ⟨anchor, (name :: above).reverse⟩ with
      | ok made => rfl
      | error fault =>
          cases fault with
          | missing =>
              rcases t.makeAll cwd anchor above with ⟨made, fault | _⟩
              · rfl
              · simp only [Except.map, makeOne_outline]
                cases made.makeOne cwd ⟨anchor, (name :: above).reverse⟩ <;> rfl
          | _ => rfl

/-- Whether a file can be written does not depend on the text. -/
theorem map_outline_write (h : b.outline = t.outline) (cwd : Location) (p : Path)
    (text text' : Text) :
    (b.write cwd p text').map outline = (t.write cwd p text).map outline := by
  have hshape := shapeAt_eq_of_outline_eq h
  unfold write
  rw [locate_congr fun place _ => hshape place]
  cases t.locate .newFile cwd p with
  | error fault => rfl
  | ok place =>
      simp only [bind, Except.bind, isDirectoryAt_congr (hshape place)]
      split_ifs
      · rfl
      · simp only [Except.map, outline_insert, h, Entry.shape]

end Tree

end SolidityFlattener
