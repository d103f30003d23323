import SolidityFlattener.Artifact.Placement
import SolidityFlattener.Proofs.Path

/-!
Where the artifacts of a target go, told from the text of the target.

A target is read with forward slashes only and without the slashes at its end, and is cut at the
last slash that is left. The directory has the components of the whole text, so it ends in the name
behind the cut, unless that is the one name that is no component: `.` leads nowhere, and artifacts
of this name are put in the directory of another one. A base goes in front of what is relative.
-/

namespace SolidityFlattener

variable {out name parent slashes ending : Text} {base : Option Path} {place : Placement}

namespace Text

/-- A slash of either kind. -/
def IsSlash (c : Char) : Prop := c = '/' ∨ c = '\\'

theorem forwardSlashes_of_isSlash (h : ∀ c ∈ slashes, IsSlash c) :
    ∀ c ∈ forwardSlashes slashes, c = '/' := by
  intro c hc
  obtain ⟨d, hd, rfl⟩ := List.mem_map.1 hc
  rcases h d hd with rfl | rfl <;> rfl

theorem not_mem_forwardSlashes (t : Text) : '\\' ∉ forwardSlashes t := by
  intro hmem
  obtain ⟨c, -, hc⟩ := List.mem_map.1 hmem
  split_ifs at hc with hback
  · exact absurd hc (by decide)
  · exact hback hc

end Text

/-! ### Targets as they are read -/

/-- A target with forward slashes only, and none at its end. -/
def plainTarget (out : Text) : Text := Text.dropEndWhile (· == '/') (Text.forwardSlashes out)

theorem plainTarget_eq (out : Text) :
    plainTarget out = (Text.forwardSlashes out).rdropWhile (· == '/') := rfl

/-- What is read of a target is all but slashes at its end. -/
theorem exists_plainTarget_append (out : Text) :
    ∃ slashes, Text.forwardSlashes out = plainTarget out ++ slashes ∧ ∀ c ∈ slashes, c = '/' := by
  refine ⟨(Text.forwardSlashes out).rtakeWhile (· == '/'), ?_, fun c hc => ?_⟩
  · rw [plainTarget_eq, List.rdropWhile_append_rtakeWhile]
  · simpa using List.mem_rtakeWhile_imp hc

theorem plainTarget_append (h : ∀ c ∈ slashes, Text.IsSlash c) (out : Text) :
    plainTarget (out ++ slashes) = plainTarget out := by
  have hall : ∀ c ∈ (Text.forwardSlashes slashes).reverse, (c == '/') = true := fun c hc =>
    beq_iff_eq.2 (Text.forwardSlashes_of_isSlash h c (List.mem_reverse.1 hc))
  rw [plainTarget, plainTarget, Text.forwardSlashes_append, Text.dropEndWhile, Text.dropEndWhile,
    List.reverse_append, List.dropWhile_append_of_pos hall]

theorem plainTarget_of_getLast? (h : (Text.forwardSlashes out).getLast? ≠ some '/') :
    plainTarget out = Text.forwardSlashes out := by
  rw [plainTarget_eq, List.rdropWhile_eq_self_iff]
  intro hne hslash
  rw [List.getLast?_eq_some_getLast hne, Ne, Option.some.injEq] at h
  exact h (beq_iff_eq.1 hslash)

theorem plainTarget_eq_nil_iff : plainTarget out = [] ↔ ∀ c ∈ out, Text.IsSlash c := by
  constructor
  · intro hnil c hc
    obtain ⟨slashes, hforward, hslashes⟩ := exists_plainTarget_append out
    have hmem : (if c = '\\' then '/' else c) ∈ Text.forwardSlashes out := List.mem_map_of_mem hc
    rw [hforward, hnil, List.nil_append] at hmem
    by_cases hback : c = '\\'
    · exact .inr hback
    · exact .inl (by simpa [hback] using hslashes _ hmem)
  · exact fun h => plainTarget_append h []

theorem components_plainTarget (out : Text) :
    Path.components (plainTarget out) = Path.components (Text.forwardSlashes out) := by
  obtain ⟨slashes, hforward, hslashes⟩ := exists_plainTarget_append out
  rw [hforward, Path.components_append_slashes hslashes]

/-! ### Targets cut at their last slash -/

/-- A target cut at the last slash that is read, if there is one. -/
structure Cut (out parent name : Text) : Prop where
  name_ne : name ≠ []
  slashless : '/' ∉ name
  plain : plainTarget out = name ∧ parent = [] ∨ plainTarget out = parent ++ '/' :: name

namespace Cut

theorem not_mem_name (h : Cut out parent name) : '\\' ∉ name := by
  intro hmem
  obtain ⟨slashes, hforward, -⟩ := exists_plainTarget_append out
  refine Text.not_mem_forwardSlashes out (hforward ▸ List.mem_append_left _ ?_)
  rcases h.plain with ⟨hplain, -⟩ | hplain
  · exact hplain ▸ hmem
  · exact hplain ▸ List.mem_append_right _ (List.mem_cons_of_mem _ hmem)

/-- The directory that the two parts lead to has the components of the whole. -/
theorem joinText_eq (h : Cut out parent name) :
    (Path.ofText parent).joinText name =
      ⟨Anchor.ofText parent, Path.components (Text.forwardSlashes out)⟩ := by
  rw [Path.joinText_of_not_mem h.slashless, ← components_plainTarget,
    ← Path.components_of_not_mem h.slashless]
  rcases h.plain with ⟨hplain, rfl⟩ | hplain
  · rw [hplain]
    rfl
  · rw [hplain, Path.components_append_slash]
    rfl

/-- A name that is a component is the last one. -/
theorem getLast?_components (h : Cut out parent name) (hdot : name ≠ ['.']) :
    (Path.components (Text.forwardSlashes out)).getLast? = some name := by
  have hcomponent : Path.isComponent name := by simp [Path.isComponent, h.name_ne, hdot]
  have hname : Path.components name = [name] := by
    rw [Path.components_of_not_mem h.slashless, if_pos hcomponent]
  rw [← components_plainTarget]
  rcases h.plain with ⟨hplain, -⟩ | hplain
  · rw [hplain, hname]
    rfl
  · rw [hplain, Path.components_append_slash, hname, List.getLast?_concat]

end Cut

/-- What is read of a target does not end with a slash. -/
theorem getLast?_plainTarget (out : Text) : (plainTarget out).getLast? ≠ some '/' := by
  intro hslash
  have hne : plainTarget out ≠ [] := by
    rintro hnil
    simp [hnil] at hslash
  have hlast := List.rdropWhile_last_not (· == '/') (Text.forwardSlashes out) hne
  rw [List.getLast?_eq_some_getLast hne, Option.some.injEq] at hslash
  exact hlast (beq_iff_eq.2 hslash)

theorem exists_cut (h : plainTarget out ≠ []) : ∃ parent name, Cut out parent name := by
  by_cases hslash : '/' ∈ plainTarget out
  · obtain ⟨ending, front, hends, hending⟩ :=
      List.eq_append_cons_of_mem (List.mem_reverse.2 hslash)
    have hplain : plainTarget out = front.reverse ++ '/' :: ending.reverse := by
      rw [← List.reverse_reverse (plainTarget out), hends]
      simp
    refine ⟨front.reverse, ending.reverse, ?_, by simpa using hending, .inr hplain⟩
    rintro hnil
    exact getLast?_plainTarget out (by rw [hplain, hnil, List.getLast?_concat])
  · exact ⟨[], plainTarget out, h, hslash, .inl ⟨rfl, rfl⟩⟩

/-! ### Placements -/

namespace Path

@[simp] theorem here_join (p : Path) : here.join p = p := by
  obtain ⟨anchor, parts⟩ := p
  cases anchor <;> rfl

/-- What is relative goes below the base where there is one. -/
theorem getD_join (base : Option Path) (directory : Path) :
    (if directory.isAbsolute then directory else (base.map (·.join directory)).getD directory) =
      (base.getD .here).join directory := by
  split_ifs with habsolute
  · exact (join_of_isAbsolute habsolute).symm
  · cases base with
    | some b => rfl
    | none => exact (here_join directory).symm

/-- Joining a path keeps its last component. -/
theorem name_join {p q : Path} (h : q.parts.getLast? = some name) : (p.join q).name = name := by
  unfold Path.name join
  split <;> simp [List.getLastD_eq_getLast?, h]

end Path

namespace Placement

theorem ofTarget_of_nil (h : plainTarget out = []) (base : Option Path) :
    ofTarget out base = .error (.config (.placeWithoutName out)) := by
  rw [plainTarget] at h
  simp [ofTarget, h]

/-- The two parts of a target tell the place, below every base alike. -/
theorem ofTarget_of_cut (h : Cut out parent name) (base : Option Path) :
    ofTarget out base = .ok ⟨(base.getD .here).join ((Path.ofText parent).joinText name), name⟩ := by
  have hends : ∀ c ∈ name.reverse, (c != '/') = true := by
    intro c hc
    rw [bne_iff_ne]
    rintro rfl
    exact h.slashless (List.mem_reverse.1 hc)
  have hname : ((plainTarget out).reverse.takeWhile (· != '/')).reverse = name := by
    rcases h.plain with ⟨hplain, -⟩ | hplain
    · rw [hplain, List.takeWhile_eq_self_iff.2 hends, List.reverse_reverse]
    · rw [hplain, List.reverse_append, List.reverse_cons, List.append_assoc,
        List.takeWhile_append_of_pos hends]
      simp
  have hparent : (((plainTarget out).reverse.dropWhile (· != '/')).drop 1).reverse = parent := by
    rcases h.plain with ⟨hplain, rfl⟩ | hplain
    · rw [hplain, List.dropWhile_eq_nil_iff.2 hends]
      rfl
    · rw [hplain, List.reverse_append, List.reverse_cons, List.append_assoc,
        List.dropWhile_append_of_pos hends]
      simp
  have hdirectory : (if parent = [] then Path.ofText name
      else (Path.ofText parent).joinText name) = (Path.ofText parent).joinText name := by
    split_ifs with hnil
    · have hhead : name.head? ≠ some '/' := fun hhead => h.slashless (List.mem_of_mem_head? hhead)
      have hanchor : Anchor.ofText name = .relative := Path.anchor_ofText_append .relative hhead
      have hempty : Anchor.ofText [] = .relative := rfl
      simp [hnil, Path.joinText, Path.join, Path.ofText, hanchor, hempty]
    · rfl
  rw [← Path.getD_join]
  unfold ofTarget
  rw [plainTarget] at hname hparent
  simp only [hname, hparent, hdirectory, if_neg h.name_ne]

/-- Targets that are read alike have the same places. -/
theorem ofTarget_eq_ok_congr {out' : Text} (h : plainTarget out' = plainTarget out) :
    ofTarget out' base = .ok place ↔ ofTarget out base = .ok place := by
  by_cases hnil : plainTarget out = []
  · rw [ofTarget_of_nil hnil, ofTarget_of_nil (h.trans hnil)]
    simp
  · obtain ⟨parent, name, hcut⟩ := exists_cut hnil
    have hcut' : Cut out' parent name := ⟨hcut.name_ne, hcut.slashless, h ▸ hcut.plain⟩
    rw [ofTarget_of_cut hcut, ofTarget_of_cut hcut']

/-- A file whose name starts with a component is a component further than the directory. -/
theorem file_eq (hne : place.name ≠ []) (hdot : place.name ≠ ['.']) (hslash : '/' ∉ place.name)
    (hending : '/' ∉ ending) :
    place.file ending =
      ⟨place.directory.anchor, place.directory.parts ++ [place.name ++ ending]⟩ := by
  have hcomponent : Path.isComponent (place.name ++ ending) := by
    have hdots : place.name ++ ending ≠ ['.'] := by
      intro h
      rcases List.append_eq_singleton_iff.1 h with ⟨hname, -⟩ | ⟨hname, -⟩
      · exact hne hname
      · exact hdot hname
    simp [Path.isComponent, hne, hdots]
  have hslashless : '/' ∉ place.name ++ ending := by simp [hslash, hending]
  rw [file, Path.joinText_of_not_mem hslashless, if_pos hcomponent]

end Placement

/-- A target of slashes alone is refused for having no name. Every other one has a place under a
name that is not empty and holds no slash of either kind, and unless this name is `.` it is the last
component of the directory, where the artifacts are that are called after it. Slashes at the end and
which of the two slashes is written do not change the place. The directory has the components of the
target, and a base is put in front of it if it is relative, with the name as it was. -/
theorem directory_called_as_artifacts (out : Text) (base : Option Path) :
    ((∀ c ∈ out, c = '/' ∨ c = '\\') →
      Placement.ofTarget out base = .error (.config (.placeWithoutName out))) ∧
    ((∃ c ∈ out, c ≠ '/' ∧ c ≠ '\\') → ∃ place, Placement.ofTarget out base = .ok place ∧
      place.name ≠ [] ∧ '/' ∉ place.name ∧ '\\' ∉ place.name ∧
      (place.name ≠ ['.'] → place.directory.name = place.name ∧
        ∀ ending, '/' ∉ ending → place.file ending =
          ⟨place.directory.anchor, place.directory.parts ++ [place.name ++ ending]⟩)) ∧
    (∀ out' slashes, Text.forwardSlashes out' = Text.forwardSlashes out →
      (∀ c ∈ slashes, c = '/' ∨ c = '\\') → ∀ place,
        Placement.ofTarget (out' ++ slashes) base = .ok place ↔
          Placement.ofTarget out base = .ok place) ∧
    ∀ place, Placement.ofTarget out none = .ok place →
      place.directory.parts = Path.components (Text.forwardSlashes out) ∧
      ∀ b, Placement.ofTarget out (some b) =
        .ok ⟨if place.directory.isAbsolute then place.directory else b.join place.directory,
          place.name⟩ := by
  refine ⟨fun h => ?_, ?_, fun out' slashes hforward hslashes place => ?_, fun place hplace => ?_⟩
  · exact Placement.ofTarget_of_nil (plainTarget_eq_nil_iff.2 h) base
  · rintro ⟨c, hc, hslash, hback⟩
    have hplain : plainTarget out ≠ [] := fun hnil =>
      (plainTarget_eq_nil_iff.1 hnil c hc).elim hslash hback
    obtain ⟨parent, name, hcut⟩ := exists_cut hplain
    refine ⟨_, Placement.ofTarget_of_cut hcut base, hcut.name_ne, hcut.slashless,
      hcut.not_mem_name, fun hdot => ⟨?_, fun ending hending => ?_⟩⟩
    · exact Path.name_join (by rw [hcut.joinText_eq, hcut.getLast?_components hdot])
    · exact Placement.file_eq hcut.name_ne hdot hcut.slashless hending
  · refine Placement.ofTarget_eq_ok_congr ?_
    rw [plainTarget_append hslashes, plainTarget, plainTarget, hforward]
  · by_cases hnil : plainTarget out = []
    · rw [Placement.ofTarget_of_nil hnil] at hplace
      cases hplace
    · obtain ⟨parent, name, hcut⟩ := exists_cut hnil
      rw [Placement.ofTarget_of_cut hcut, Option.getD_none, Path.here_join] at hplace
      obtain rfl := Except.ok.inj hplace
      refine ⟨by rw [hcut.joinText_eq], fun b => ?_⟩
      rw [Placement.ofTarget_of_cut hcut, ← Path.getD_join]
      rfl

theorem directory_called_as_token :
    let out := "flat\\.//Token".toList
    let base : Path := ⟨.root, ["w".toList]⟩
    Placement.ofTarget (out ++ "/\\".toList) (some base) =
        .ok ⟨⟨.root, ["w".toList, "flat".toList, "Token".toList]⟩, "Token".toList⟩ ∧
      (∃ place, Placement.ofTarget out (some base) = .ok place ∧
        place.directory.name = place.name) ∧
      Placement.ofTarget "/\\".toList none = .error (.config (.placeWithoutName "/\\".toList)) := by
  intro out base
  have hplace : Placement.ofTarget out (some base) =
      .ok ⟨⟨.root, ["w".toList, "flat".toList, "Token".toList]⟩, "Token".toList⟩ := by decide
  obtain ⟨-, hnamed, hsame, -⟩ := directory_called_as_artifacts out (some base)
  refine ⟨(hsame out "/\\".toList rfl (by simp) _).2 hplace, ?_, ?_⟩
  · obtain ⟨place, hfound, -, -, -, hname⟩ := hnamed ⟨'f', by decide⟩
    obtain rfl := Except.ok.inj (hplace.symm.trans hfound)
    exact ⟨_, hplace, (hname (by decide)).1⟩
  · exact (directory_called_as_artifacts "/\\".toList none).1 (by simp)

/-- Artifacts of the name `.` are put in a directory that is called something else or nothing. -/
theorem dot_directory_called_otherwise :
    Placement.ofTarget ".".toList none = .ok ⟨.here, ".".toList⟩ ∧
      Placement.ofTarget "flat/.".toList none = .ok ⟨.ofText "flat".toList, ".".toList⟩ ∧
      ¬∀ out base place, Placement.ofTarget out base = .ok place →
        place.directory.name = place.name := by
  have hhere : Placement.ofTarget ".".toList none = .ok ⟨.here, ".".toList⟩ := by decide
  refine ⟨hhere, by decide, fun hall => ?_⟩
  exact absurd (hall _ _ _ hhere) (by decide)

end SolidityFlattener
