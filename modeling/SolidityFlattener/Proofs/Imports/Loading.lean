import SolidityFlattener.Imports.Discovery
import SolidityFlattener.Proofs.Imports.Files

/-!
What is known of a file once it is loaded.

The imports of a file are told in two ways: as a relation between paths, by what its text says and
where that leads, and as the list noted when the file is loaded. `Site.Loaded.mem_imports_iff` says
that they agree, the file itself apart.
-/

namespace SolidityFlattener

/-! ### Requirements noted one after another -/

/-- Notes keep the order of first occurrences. -/
theorem Node.foldl_noteRequirement (self : Path) (targets noted : List Path) :
    targets.foldl (fun noted target => noteRequirement self target noted) noted =
      noted ++ (targets.filter fun p => p ≠ self ∧ p ∉ noted).eraseDups := by
  induction targets generalizing noted with
  | nil => simp
  | cons target targets ih =>
      rw [List.foldl_cons, ih]
      -- a target is skipped, or noted and then filtered from what follows
      by_cases hskip : target = self ∨ target ∈ noted
      · have hnot : ¬(target ≠ self ∧ target ∉ noted) := by tauto
        simp [noteRequirement, hskip, hnot]
      · have hnew : target ≠ self ∧ target ∉ noted := by tauto
        have hfilter : (targets.filter fun p => p ≠ self ∧ p ∉ noted ++ [target]) =
            (targets.filter fun p => p ≠ self ∧ p ∉ noted).filter fun p => !p == target := by
          rw [List.filter_filter]
          refine List.filter_congr fun p _ => ?_
          by_cases hp : p = target <;> simp [hp]
        rw [show noteRequirement self target noted = noted ++ [target] from if_neg hskip, hfilter]
        simp [hnew, List.eraseDups_cons]

@[simp] theorem Node.foldl_requireImport (n : Node) (targets : List Path) :
    targets.foldl Node.requireImport n =
      { n with
        imports := targets.foldl (fun noted target => noteRequirement n.path target noted)
          n.imports } := by
  induction targets generalizing n with
  | nil => rfl
  | cons target targets ih => rw [List.foldl_cons, ih]; rfl

/-! ### Loaded files -/

namespace Site

variable {site : Site} {extractor : Source.Extractor} {n : Node} {p q root path : Path}
  {depth : Int}

/-- The text of one file names another in an import. -/
def ImportsFile (site : Site) (extractor : Source.Extractor) (p q : Path) : Prop :=
  ∃ text, site.tree.readText site.cwd p = .ok text ∧
    ∃ specifier ∈ (extractor.scan text).specifiers, resolveImport site p specifier = .ok q

/-- A file is known as it was loaded, at whatever depth. -/
def Loaded (site : Site) (extractor : Source.Extractor) (n : Node) : Prop :=
  ∃ depth, loadNode site extractor n.path depth = .ok { n with depth := depth }

/-- What a file is loaded as: the parts that its text is told into, and the targets of its imports
in the order of the text, each once and without the file itself. -/
theorem loadNode_eq_ok_iff :
    loadNode site extractor p depth = .ok n ↔
      ∃ text targets, site.tree.readText site.cwd p = .ok text ∧
        (extractor.scan text).specifiers.mapM (resolveImport site p) = .ok targets ∧
        n = { Node.ofPath p with
          header := (extractor.scan text).header
          body := (extractor.scan text).body
          imports := (targets.filter (· ≠ p)).eraseDups
          bases := extractor.bases text
          depth := depth } := by
  unfold loadNode
  cases hread : site.tree.readText site.cwd p with
  | error fault =>
      dsimp only
      split_ifs <;> simp
  | ok text =>
      simp only [foldlM_eq_ok_iff, Node.foldl_requireImport, Node.foldl_noteRequirement]
      simp [Node.ofPath]

theorem loadNode_eq {text : Text} (scan : Source.Scan) (bases : List Text) (targets : List Path)
    (depth : Int) (hread : site.tree.readText site.cwd p = .ok text)
    (hscan : extractor.scan text = scan) (hbases : extractor.bases text = bases)
    (htargets : scan.specifiers.mapM (resolveImport site p) = .ok targets) :
    loadNode site extractor p depth = .ok { Node.ofPath p with
      header := scan.header, body := scan.body, bases := bases, depth := depth,
      imports := (targets.filter (· ≠ p)).eraseDups } := by
  subst hscan hbases
  exact loadNode_eq_ok_iff.2 ⟨text, targets, hread, htargets, rfl⟩

theorem loadNode_path (h : loadNode site extractor p depth = .ok n) : n.path = p := by
  obtain ⟨text, targets, -, -, rfl⟩ := loadNode_eq_ok_iff.1 h
  rfl

theorem loaded_of_loadNode (h : loadNode site extractor p depth = .ok n) :
    site.Loaded extractor n := by
  refine ⟨depth, ?_⟩
  rw [loadNode_path h, h]
  obtain ⟨text, targets, -, -, rfl⟩ := loadNode_eq_ok_iff.1 h
  rfl

namespace Loaded

theorem raiseDepth (h : site.Loaded extractor n) (depth : Int) :
    site.Loaded extractor (n.raiseDepth depth) := h

theorem exists_targets (h : site.Loaded extractor n) :
    ∃ text targets, site.tree.readText site.cwd n.path = .ok text ∧
      (extractor.scan text).specifiers.mapM (resolveImport site n.path) = .ok targets ∧
      n.imports = (targets.filter (· ≠ n.path)).eraseDups ∧ n.inherits = [] := by
  obtain ⟨depth, h⟩ := h
  obtain ⟨text, targets, hread, htargets, heq⟩ := loadNode_eq_ok_iff.1 h
  exact ⟨text, targets, hread, htargets, congrArg Node.imports heq, congrArg Node.inherits heq⟩

/-- The header and the body of a file are those of its text. -/
theorem exists_scan (h : site.Loaded extractor n) :
    ∃ text, site.tree.readText site.cwd n.path = .ok text ∧
      n.header = (extractor.scan text).header ∧ n.body = (extractor.scan text).body := by
  obtain ⟨depth, h⟩ := h
  obtain ⟨text, targets, hread, -, heq⟩ := loadNode_eq_ok_iff.1 h
  exact ⟨text, hread, congrArg Node.header heq, congrArg Node.body heq⟩

/-- The noted imports are the files that the text imports, the file itself apart. -/
theorem mem_imports_iff (h : site.Loaded extractor n) :
    q ∈ n.imports ↔ q ≠ n.path ∧ site.ImportsFile extractor n.path q := by
  obtain ⟨text, targets, hread, htargets, himports, -⟩ := h.exists_targets
  rw [himports, List.mem_eraseDups, List.mem_filter, mem_of_mapM_eq_ok htargets]
  constructor
  · rintro ⟨⟨specifier, hspecifier, hresolve⟩, hne⟩
    exact ⟨by simpa using hne, text, hread, specifier, hspecifier, hresolve⟩
  · rintro ⟨hne, other, hother, specifier, hspecifier, hresolve⟩
    obtain rfl : text = other := Except.ok.inj (hread.symm.trans hother)
    exact ⟨⟨specifier, hspecifier, hresolve⟩, by simpa using hne⟩

end Loaded

/-- Whoever imports a file resolves to its canonical path. -/
theorem ImportsFile.exists_realPath (h : site.ImportsFile extractor p q) :
    ∃ path, site.tree.realPath true site.cwd path = .ok q := by
  obtain ⟨_, _, _, _, hresolve⟩ := h
  exact exists_realPath_of_resolveImport hresolve

/-- So whatever a canonical path leads to is under its canonical path. -/
theorem exists_realPath_of_reached (hroot : site.tree.realPath true site.cwd root = .ok path)
    (hreach : Relation.ReflTransGen (site.ImportsFile extractor) path p) :
    ∃ path, site.tree.realPath true site.cwd path = .ok p := by
  cases hreach with
  | refl => exact ⟨root, hroot⟩
  | tail _ hedge => exact hedge.exists_realPath

end Site

end SolidityFlattener
