import SolidityFlattener.Proofs.Document.JsonDocuments
import SolidityFlattener.Proofs.Run.BatchFile
import SolidityFlattener.Proofs.Run.DirectoryRun

/-!
Targets with a place that is no string.

A batch file passes the place of a target on as it is written there. One that is no string
(`Target.Mistyped`) fails when the artifacts are placed, and as that is no failure of the target's
own it ends the batch. Nothing else that a batch file gives can fail for its type later.
-/

namespace SolidityFlattener

variable {t : Tree} {cwd : Location} {base : Path} {v : Value} {target : Target}
  {failure : Failure} {o : Options}

/-- The place that counts of the two that a target has is no string. -/
def Target.Mistyped (target : Target) : Prop :=
  target.out.isNull = false ∧ (∀ s, target.out ≠ .string s) ∨
    target.out.isNull = true ∧ target.outAuto.Mistyped

section Mistyped

/-- A file and beside it a batch file that holds a document. -/
def batchTree (document : Value) : Tree where
  entries := [
    (["A.sol".toList], .file (Text.toUtf8 "contract A \x7b\x7d".toList)),
    (["b.json".toList], .file (Text.toUtf8 (document.json documentIndent)))]

theorem batchTree_proper (document : Value) : Site.Proper ⟨batchTree document, [], none⟩ where
  named := by
    unfold Tree.Named Tree.IsEntryName
    simp [batchTree, Path.isComponent]
  cwd := Tree.Plain.root.realPath_ofLocation []
  nulFree := by
    unfold Tree.NulFree
    simp [batchTree]
  packageRoot := by simp

theorem Format.ofPath_of_suffix {p : Path} (h : Text.lower p.suffix = ".json".toList) :
    Format.ofPath p = .json := if_pos h

theorem readDocument_batchTree {document : Value} (h : document.Exact)
    (hbreaks : (document.json documentIndent).unifyBreaks = document.json documentIndent) :
    readDocument (batchTree document) [] (.ofText "b.json".toList) = .ok document := by
  have hplace : (batchTree document).locate .target [] (.ofText "b.json".toList) =
      .ok ["b.json".toList] := by
    unfold batchTree
    generalize Text.toUtf8 (document.json documentIndent) = content
    cbv
  have hfile : (batchTree document).lookup ["b.json".toList] =
      some (.file (Text.toUtf8 (document.json documentIndent))) := by
    unfold batchTree
    generalize Text.toUtf8 (document.json documentIndent) = content
    cbv
  have hread : (batchTree document).readText [] (.ofText "b.json".toList) =
      .ok (document.json documentIndent) :=
    (Tree.readText_of_lookup hplace hfile).trans (congrArg Except.ok hbreaks)
  have hsuffix : (Path.ofText "b.json".toList).suffix = ".json".toList := by cbv
  have hlower : Text.lower ".json".toList = ".json".toList := by rfl
  have hformat : Format.ofPath (.ofText "b.json".toList) = .json :=
    Format.ofPath_of_suffix ((congrArg Text.lower hsuffix).trans hlower)
  have hdocument : Json.read? (document.json documentIndent) = some document :=
    Json.read?_json (by simp [documentIndent, Json.isSpace]) h
  simp only [readDocument, hread, hformat, Format.read, hdocument, Option.elim]

/-- The file of that tree that can be flattened, as it is read. -/
def batchNode : Node :=
  { Node.ofPath (.top "A.sol") with body := ["contract A \x7b\x7d".toList] }

/-- The file is flattened whatever the batch file holds. -/
theorem exists_bundle_batchTree (document : Value) :
    ∃ bundle, (flattenSource (batchTree document) [] (.default []) Source.byLines
      (.top "A.sol")).outcome = .ok bundle := by
  unfold batchTree
  generalize Text.toUtf8 (Value.json _ documentIndent) = content
  have hload : loadNode ⟨⟨[(["A.sol".toList], .file (Text.toUtf8 "contract A \x7b\x7d".toList)),
      (["b.json".toList], .file content)]⟩, [], none⟩ Source.byLines (.top "A.sol") 0 =
      .ok batchNode :=
    Site.loadNode_eq ⟨[], [], ["contract A \x7b\x7d".toList]⟩ [] [] 0 (by cbv)
      (by decide +kernel) (by decide +kernel) (by cbv)
  exact CommandLine.exists_bundle_of_lone (n := batchNode) (by cbv) (by cbv) hload rfl (by cbv) rfl
    rfl (by cbv)

theorem compilerSettings_batchTree (document : Value) :
    (compilerSettings (batchTree document) [] (.default [])).outcome = .ok none := by
  unfold batchTree
  generalize Text.toUtf8 (Value.json _ documentIndent) = content
  cbv

theorem realPath_batchTree (document : Value) :
    (batchTree document).realPath false [] (.ofText "b.json".toList) = .ok (.top "b.json") := by
  unfold batchTree
  generalize Text.toUtf8 (Value.json _ documentIndent) = content
  cbv

/-- The entry of a batch file with a file and a place. -/
def entryOf (file out : Value) : Value :=
  .object [(.ofText "file".toList, file), (.ofText "out".toList, out)]

def batchOf (entries : List Value) : Value :=
  .object [(.ofText "targets".toList, .array entries)]

theorem exact_entryOf {file out : Value} (hfile : file.Exact) (hout : out.Exact) :
    (entryOf file out).Exact :=
  .object_of_texts [("file".toList, file), ("out".toList, out)]
    (show ["file".toList, "out".toList].Nodup by decide) (by simp [hfile, hout])

theorem exact_batchOf {entries : List Value} (h : ∀ entry ∈ entries, entry.Exact) :
    (batchOf entries).Exact := by
  have hentries : Value.Exact (.array entries) := .array h
  exact .object_of_texts [("targets".toList, .array entries)] (by simp) (by simpa using hentries)

theorem field_targets_batchOf (entries : List Value) :
    (batchOf entries).field "targets" = .array entries := by cbv

theorem field_file_entryOf (file out : Value) : (entryOf file out).field "file" = file := by cbv

theorem field_out_entryOf (file out : Value) : (entryOf file out).field "out" = out := by cbv

theorem field_outAuto_entryOf (file out : Value) : (entryOf file out).field "outAuto" = .null := by
  cbv

/-- The target of such an entry. -/
def targetNamed (name : String) (out : Value) : Target := ⟨.top name, out, .null⟩

theorem yields_entryOf {name : String} {out : Value}
    (hname : (Path.top "b.json").parent.joinText (Points.ofText name.toList).text = .top name)
    (hne : Points.ofText name.toList ≠ []) (hout : out.isNull = false) :
    BatchFile.Yields (Path.top "b.json").parent (entryOf (.ofText name.toList) out)
      (targetNamed name out) where
  file := ⟨_, field_file_entryOf _ _, hne, hname.symm⟩
  out := (field_out_entryOf _ _).symm
  outAuto := by rw [BatchFile.autoOf, field_outAuto_entryOf]; rfl
  placed := by simp [targetNamed, hout]

theorem load_batchTree {entries : List Value} {targets : List Target}
    (hexact : ∀ entry ∈ entries, entry.Exact)
    (hbreaks : ((batchOf entries).json documentIndent).unifyBreaks =
      (batchOf entries).json documentIndent)
    (htargets : List.Forall₂ (BatchFile.Yields (Path.top "b.json").parent) entries targets) :
    BatchFile.load (batchTree (batchOf entries)) [] (.ofText "b.json".toList) =
      .ok ⟨targets, .null, none⟩ :=
  BatchFile.load_eq_ok_iff.2 ⟨_, _, _, readDocument_batchTree (exact_batchOf hexact) hbreaks,
    field_targets_batchOf _, realPath_batchTree _, htargets, by cbv, .inl ⟨by cbv, rfl⟩⟩

end Mistyped

end SolidityFlattener
