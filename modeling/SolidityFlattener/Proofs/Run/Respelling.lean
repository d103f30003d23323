import SolidityFlattener.Proofs.Run.Reads
import SolidityFlattener.Proofs.Source.Slots

/-!
The spelling of an import.

A file is loaded as its text says and where its imports lead, and it notes each file that it imports
where it is met first. Targets that are named again are left out before they are resolved, but what
is noted is what all of them lead to, repeated ones included. So another spelling of a target that
leads to the same file is loaded alike, even one that the text has elsewhere, and a run is the same
with it.
-/

namespace SolidityFlattener

variable {t : Tree} {cwd place : Location} {o : Options} {extractor : Source.Extractor}
  {root p q : Path} {packageRoot : Option Path} {site site' : Site} {text specifier : Text}
  {depth : Int}

namespace Site

/-- What a file with a text is loaded as. -/
theorem loadNode_of_readText (hread : site.tree.readText site.cwd p = .ok text) :
    loadNode site extractor p depth =
      match (extractor.scan text).specifiers.findSome? fun s =>
          failure? (resolveImport site p s) with
      | some failure => .error failure
      | none => .ok { Node.ofPath p with
          header := (extractor.scan text).header
          body := (extractor.scan text).body
          imports := site.importsOf extractor p
          bases := extractor.bases text
          depth := depth } := by
  unfold loadNode importsOf
  simp only [hread, foldlM_eq_findSome?, Node.foldl_requireImport, Node.foldl_noteRequirement]
  cases (extractor.scan text).specifiers.findSome? fun s => failure? (resolveImport site p s) with
  | some failure => rfl
  | none => simp [Node.ofPath]

/-- Slashes of both kinds are one in an import. -/
theorem candidate?_forwardSlashes (p : Path) (specifier : Text) (packageRoot : Option Path) :
    candidate? p (Text.forwardSlashes specifier) packageRoot =
      candidate? p specifier packageRoot := by
  have htwice : Text.forwardSlashes (Text.forwardSlashes specifier) =
      Text.forwardSlashes specifier := by
    unfold Text.forwardSlashes
    rw [List.map_map]
    refine List.map_congr_left fun c _ => ?_
    by_cases hc : c = '\\' <;> simp [hc]
  unfold candidate?
  rw [htwice]

theorem resolveImport_forwardSlashes (h : resolveImport site p specifier = .ok q) :
    resolveImport site p (Text.forwardSlashes specifier) = .ok q := by
  unfold resolveImport resolveImportWith at *
  rw [candidate?_forwardSlashes]
  cases hpath : candidate? p specifier site.packageRoot with
  | none => simp [hpath] at h
  | some path =>
      simp only [hpath] at h ⊢
      split at h
      · cases h
      · cases h
      · exact mapError_eq_ok_iff.2 (mapError_eq_ok_iff.1 h)

/-- A file is loaded alike from a filled slot whichever of two targets fills it, if both lead to one
file and the other targets lead where they did. -/
theorem loadNode_fill (slot : Source.Slot) {a b : Text} (ha : Source.IsTarget a)
    (hb : Source.IsTarget b) (hread : site.tree.readText site.cwd p = .ok (slot.fill a).unifyBreaks)
    (hread' : site'.tree.readText site'.cwd p = .ok (slot.fill b).unifyBreaks)
    (hresolve : ∀ s, resolveImport site' p s = resolveImport site p s)
    (hleads : resolveImport site p a = .ok q) (hleads' : resolveImport site p b = .ok q)
    (depth : Int) :
    loadNode site' Source.byLines p depth = loadNode site Source.byLines p depth := by
  have hscan : ∀ s : Text, Source.scan s.unifyBreaks = Source.scan s := fun s => by
    simp [Source.scan]
  have hbases : ∀ s : Text, Source.bases s.unifyBreaks = Source.bases s := fun s => by
    simp [Source.bases]
  have hleads := resolveImport_forwardSlashes hleads
  have hleads' := resolveImport_forwardSlashes hleads'
  -- the specifiers of both texts are two lists with one member exchanged, less the repetitions
  have hfailure : ((Source.scan (slot.fill b)).specifiers.findSome? fun s =>
        failure? (resolveImport site p s)) =
      (Source.scan (slot.fill a)).specifiers.findSome? fun s =>
        failure? (resolveImport site p s) := by
    rw [slot.specifiers_fill ha, slot.specifiers_fill hb, findSome?_eraseDups, findSome?_eraseDups,
      List.findSome?_append, List.findSome?_append, List.findSome?_cons, List.findSome?_cons,
      hleads, hleads']
  have htargets : ∀ {c : Text}, Source.IsTarget c →
      resolveImport site p (Text.forwardSlashes c) = .ok q →
        (((Source.scan (slot.fill c)).specifiers.filterMap fun s =>
            (resolveImport site p s).toOption).filter (· ≠ p)).eraseDups =
          (((slot.targetsAbove.filterMap fun s => (resolveImport site p s).toOption) ++
            q :: slot.targetsBelow.filterMap fun s => (resolveImport site p s).toOption).filter
              (· ≠ p)).eraseDups := by
    intro c hc hq
    rw [slot.specifiers_fill hc, List.filter_filterMap, eraseDups_filterMap_eraseDups,
      ← List.filter_filterMap, List.filterMap_append, List.filterMap_cons, hq]
    rfl
  have himports : site'.importsOf Source.byLines p = site.importsOf Source.byLines p := by
    unfold importsOf
    rw [hread, hread']
    simp only [Source.byLines, hscan, hresolve]
    rw [htargets ha hleads, htargets hb hleads']
  rw [loadNode_of_readText hread, loadNode_of_readText hread', himports]
  obtain ⟨hheader, hbody⟩ := slot.scan_fill hb ha
  simp only [Source.byLines, hscan, hbases, hresolve, hfailure, hheader, hbody,
    slot.bases_fill hb ha]

end Site

/-- An import statement that takes one line of a file, above the first declaration, with another
target in its quotes that leads to the same file: on a site that a system can offer the run over any
root is the same. It makes the same bundle, or fails alike. -/
theorem flattenSource_of_respelling (slot : Source.Slot) {a b : Text} (ha : Source.IsTarget a)
    (hb : Source.IsTarget b) (hsound : Site.Sound ⟨t, cwd, none⟩)
    (hfile : t.lookup place = some (.file (slot.fill a).toUtf8))
    (hleads : ∀ packageRoot, packageRootOf t cwd o = .ok packageRoot → ∃ q,
      resolveImport ⟨t, cwd, packageRoot⟩ (.ofLocation place) a = .ok q ∧
        resolveImport ⟨t, cwd, packageRoot⟩ (.ofLocation place) b = .ok q) :
    flattenSource (t.insert place (.file (slot.fill b).toUtf8)) cwd o Source.byLines root =
      flattenSource t cwd o Source.byLines root := by
  have hextends := Tree.Extends.insert_file hsound.named hfile (slot.fill b).toUtf8
  have hshape := Tree.shapeAt_insert_file hfile (slot.fill b).toUtf8
  refine flattenSource_insert_file hsound hfile ?_
  intro packageRoot path hpackageRoot hpath hmeets depth
  obtain ⟨q, hq, hq'⟩ := hleads packageRoot hpackageRoot
  cases hplace : t.locate .target cwd (.ofLocation place) with
  | error fault =>
      -- what cannot be read is not, whatever it holds
      exact Site.loadNode_congr hextends.links (fun other _ => hshape other)
        (fun found hfound => by simp [hplace] at hfound) depth
  | ok found =>
      obtain rfl : place = found := by
        have hparts := hsound.of_tree.eq_parts_of_meets hpath hmeets hplace
        exact congrArg Path.parts hparts
      refine Site.loadNode_fill slot ha hb (Tree.readText_of_lookup hplace hfile) ?_
        (fun s => Site.resolveImport_congr hextends.links
          (fun _ _ other _ => hshape other) fun _ _ _ other _ => hshape other) hq hq' depth
      exact Tree.readText_of_lookup (hextends.locate hplace)
        (Tree.lookup_insert_self (Tree.ne_nil_of_lookup_file hfile))

/-- The import of the first file of the trio. -/
def trioSlot : Source.Slot where
  before := []
  front := "import ".toList
  opening := '"'
  closing := '"'
  back := ";".toList
  after := "\ncontract A \x7b\x7d".toList
  above := []
  below := ["contract A \x7b\x7d".toList]
  before_lines := by decide
  after_lines := by decide
  above_held := rfl
  above_undeclared := by simp
  front_oneLine := by decide
  front_imports := by decide +kernel
  front_unquoted := by simp [Source.isQuote]
  opening_quote := rfl
  closing_quote := rfl
  back_oneLine := by decide
  ends := .inr (.inl (by decide))

theorem flattenSource_trio_of_respelling :
    ∃ bundle, (flattenSource trioSite.tree [] (.default []) Source.byLines
        (.ofText "A.sol".toList)).outcome = .ok bundle ∧
      (flattenSource (trioSite.tree.insert ["A.sol".toList]
        (.file (trioSlot.fill "B.sol".toList).toUtf8)) [] (.default []) Source.byLines
          (.ofText "A.sol".toList)).outcome = .ok bundle := by
  obtain ⟨bundle, hrun, -⟩ := exists_bundle_trio
  have htarget : Source.IsTarget "./B.sol".toList :=
    ⟨by decide, by decide, by simp [Source.isQuote]⟩
  have htarget' : Source.IsTarget "B.sol".toList :=
    ⟨by decide, by decide, by simp [Source.isQuote]⟩
  have hfile : trioSite.tree.lookup ["A.sol".toList] =
      some (.file (trioSlot.fill "./B.sol".toList).toUtf8) := rfl
  have hleads : ∀ packageRoot, packageRootOf trioSite.tree [] (.default []) = .ok packageRoot →
      ∃ q, resolveImport ⟨trioSite.tree, [], packageRoot⟩ (.ofLocation ["A.sol".toList])
          "./B.sol".toList = .ok q ∧
        resolveImport ⟨trioSite.tree, [], packageRoot⟩ (.ofLocation ["A.sol".toList])
          "B.sol".toList = .ok q := by
    intro packageRoot hpackageRoot
    obtain rfl : none = packageRoot :=
      Except.ok.inj (packageRootOf_trio.symm.trans hpackageRoot)
    exact ⟨Path.top "B.sol", by cbv, by cbv⟩
  have hsame : flattenSource (trioSite.tree.insert ["A.sol".toList]
      (.file (trioSlot.fill "B.sol".toList).toUtf8)) [] (.default []) Source.byLines
        (.ofText "A.sol".toList) =
      flattenSource trioSite.tree [] (.default []) Source.byLines (.ofText "A.sol".toList) :=
    flattenSource_of_respelling trioSlot htarget htarget' trioSite_sound hfile hleads
  exact ⟨bundle, hrun, (congrArg Trace.outcome hsame).trans hrun⟩

end SolidityFlattener
