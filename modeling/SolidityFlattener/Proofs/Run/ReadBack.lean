import SolidityFlattener.Proofs.Document.JsonDocuments
import SolidityFlattener.Proofs.Run.DerivedPlaces
import SolidityFlattener.Proofs.Run.Succession
import SolidityFlattener.Proofs.Tree.Straight

/-!
The three artifacts read back.

The documents of a bundle are exact: their keys are different texts, as the paths of a registry are.
In the tree that is left when all is written, the artifacts stand at different places of one
directory unless one of their paths is a link, so none of them is written over another one and each
file holds the bytes of its own text. Read as documents, these are the manifest and the compiler
input with all that was put in.
-/

namespace SolidityFlattener

variable {t t' : Tree} {cwd here found : Location} {name other text ending ending' : Text}
  {p base : Path} {place : Placement} {files : List Draft} {d : Draft} {b : Bundle}
  {r : Registry} {v : Value}

/-! ### Places of artifacts -/

namespace Tree

/-- A path whose last name is a link's. -/
def IsLink (t : Tree) (cwd : Location) (p : Path) : Prop :=
  ∃ place target, t.locate .entry cwd p = .ok place ∧ t.lookup place = some (.link target)

/-- A walk that looks at its last name itself does not leave the directory of that name. -/
theorem Leads.eq_stepTo {links : ℕ} (h : t.Leads .entry ⟨links, here, [name]⟩ found) :
    found = stepTo here name := by
  have hends : ∀ {links here found}, t.Leads .entry ⟨links, here, []⟩ found → found = here := by
    rintro links here found (⟨⟨⟩⟩ | ⟨⟨⟩, -⟩)
    rfl
  cases h with
  | ends hlast =>
      cases hlast with
      | missing _ hasks _ => exact (stepTo_of_isEntryName hasks.isEntryName _).symm
      | link _ hasks _ _ => exact (stepTo_of_isEntryName hasks.isEntryName _).symm
  | goes hgoes hrest =>
      cases hgoes with
      | skip _ hblank => rw [hends hrest, stepTo, if_pos hblank]
      | parent _ =>
          rw [hends hrest]
          rfl
      | child _ hasks _ _ => rw [hends hrest, stepTo_of_isEntryName hasks.isEntryName]
      | follow _ _ _ hlast => exact absurd ⟨rfl, rfl⟩ hlast

/-- A path that is no link leads one step from where the path above it does. -/
theorem exists_stepTo_of_locate {anchor : Anchor} {front : List Text}
    (h : t.locate .target cwd ⟨anchor, front ++ [name]⟩ = .ok found)
    (hlink : ¬t.IsLink cwd ⟨anchor, front ++ [name]⟩) :
    ∃ middle, t.locate .target cwd ⟨anchor, front⟩ = .ok middle ∧ found = stepTo middle name := by
  obtain ⟨hask, hleads⟩ := locate_eq_ok_iff.1 h
  obtain ⟨entry, hentry⟩ := hleads.exists_entry
  have hlocate : t.locate .entry cwd ⟨anchor, front ++ [name]⟩ = .ok entry :=
    locate_eq_ok_iff.2 ⟨hask, hentry⟩
  have hplain : ∀ target, t.lookup entry ≠ some (.link target) :=
    fun target htarget => hlink ⟨entry, target, hlocate, htarget⟩
  obtain rfl : entry = found := Except.ok.inj ((locate_target hlocate hplain).symm.trans h)
  obtain ⟨middle, left, hfront, hlast⟩ := hentry.split rfl (List.cons_ne_nil _ _)
  exact ⟨middle, locate_eq_ok_iff.2 ⟨hask.of_append, hfront⟩, hlast.eq_stepTo⟩

theorem stepTo_ne (hname : IsEntryName name) (hne : name ≠ other) (here : Location) :
    stepTo here name ≠ stepTo here other := by
  rw [stepTo_of_isEntryName hname]
  intro h
  unfold stepTo at h
  have hlength := congrArg List.length h
  split_ifs at h hlength with hblank hparent
  · simp at hlength
  · rw [List.length_append, List.length_dropLast, List.length_singleton] at hlength
    omega
  · exact hne (by simpa using h)

theorem readBytes_of_lookup {content : ByteArray} (hplace : t.locate .target cwd p = .ok found)
    (hfile : t.lookup found = some (.file content)) : t.readBytes cwd p = .ok content := by
  simp [readBytes, find, hplace, hfile, bind, Except.bind]

end Tree

/-- An artifact that is no link stands one step from the directory of its placement. -/
theorem Placement.exists_stepTo_of_locate {base : Option Path}
    (hplace : Placement.ofTarget text base = .ok place) (hslash : '/' ∉ ending)
    (h : t.locate .target cwd (place.file ending) = .ok found)
    (hlink : ¬t.IsLink cwd (place.file ending)) :
    ∃ middle, t.locate .target cwd place.directory = .ok middle ∧
      found = Tree.stepTo middle (place.name ++ ending) := by
  obtain ⟨hname, hplain⟩ := Placement.name_of_ofTarget hplace
  have hslashless : '/' ∉ place.name ++ ending := by simp [hplain, hslash]
  have hfile : place.file ending = _ := Path.joinText_of_not_mem hslashless
  rw [hfile] at h hlink
  by_cases hcomponent : Path.isComponent (place.name ++ ending)
  · rw [if_pos hcomponent] at h hlink
    exact Tree.exists_stepTo_of_locate h hlink
  · -- a name of one dot leads to the directory itself
    have hdot : place.name ++ ending = ['.'] := by simpa [Path.isComponent, hname] using hcomponent
    rw [if_neg hcomponent, List.append_nil] at h
    exact ⟨found, h, by rw [hdot, Tree.stepTo, if_pos (.inr rfl)]⟩

/-- Artifacts with different endings stand at different places unless one is a link. -/
theorem Placement.locate_ne {base : Option Path}
    (hplace : Placement.ofTarget text base = .ok place)
    (hslash : '/' ∉ ending) (hslash' : '/' ∉ ending')
    (hlink : ¬t.IsLink cwd (place.file ending)) (hlink' : ¬t.IsLink cwd (place.file ending'))
    (hname : Tree.IsEntryName (place.name ++ ending)) (hne : ending ≠ ending')
    (h : t.locate .target cwd (place.file ending) = .ok found) :
    t.locate .target cwd (place.file ending') ≠ .ok found := by
  intro h'
  obtain ⟨middle, hmiddle, hfound⟩ :=
    Placement.exists_stepTo_of_locate hplace hslash h hlink
  obtain ⟨middle', hmiddle', hfound'⟩ :=
    Placement.exists_stepTo_of_locate hplace hslash' h' hlink'
  obtain rfl := Except.ok.inj (hmiddle.symm.trans hmiddle')
  exact Tree.stepTo_ne hname (by simpa using hne) middle (hfound.symm.trans hfound')

/-! ### What is written and stays -/

/-- Drafts that lead to different places can each be read when all are written. -/
theorem readBytes_of_writeDrafts (hcwd : t.Linkless cwd)
    (h : writeDrafts t cwd files = (t', .ok ()))
    (hapart : files.Pairwise fun d other => ∀ found,
      t'.locate .target cwd d.path = .ok found → t'.locate .target cwd other.path ≠ .ok found)
    (hd : d ∈ files) : t'.readBytes cwd d.path = .ok d.text.toUtf8 := by
  obtain ⟨front, back, rfl⟩ := List.append_of_mem hd
  obtain ⟨found, content, -, hlocate, hfile, hlast⟩ := exists_file_of_writeDrafts hcwd h
  have hback := (List.pairwise_cons.1 (List.pairwise_append.1 hapart).2.1).1
  obtain rfl := hlast fun other hother => hback other hother found hlocate
  exact Tree.readBytes_of_lookup hlocate hfile

/-- The artifacts of a bundle, none of them a link, hold the bytes of their texts. -/
theorem readBytes_of_writeAll {base : Option Path} {document : Value} {extension : Text}
    (hcwd : t.Linkless cwd) (hplace : Placement.ofTarget text base = .ok place)
    (hslash : '/' ∉ extension) (hinfo : extension ≠ ".info.json".toList)
    (hjson : extension ≠ ".json".toList)
    (h : writeAll t cwd place (drafts b place document extension) = (t', .ok ()))
    (hlinks : ∀ ending ∈ [".info.json".toList, extension, ".json".toList],
      ¬t'.IsLink cwd (place.file ending)) :
    ∀ d ∈ drafts b place document extension, t'.readBytes cwd d.path = .ok d.text.toUtf8 := by
  obtain ⟨made, hmade, hdrafts⟩ := writeAll_eq_ok_iff.1 h
  have hcwd' := (Tree.extends_makeDirectories hcwd hmade).linkless hcwd
  refine fun d hd => readBytes_of_writeDrafts hcwd' hdrafts ?_ hd
  simp only [List.forall_mem_cons, List.not_mem_nil, false_imp_iff, implies_true, and_true]
    at hlinks
  obtain ⟨hinfoLink, hflatLink, hjsonLink⟩ := hlinks
  have hinfoName : Tree.IsEntryName (place.name ++ ".info.json".toList) :=
    isEntryName_append (by decide)
  have hjsonName : Tree.IsEntryName (place.name ++ ".json".toList) :=
    isEntryName_append (by decide)
  simp only [drafts, List.pairwise_cons, List.forall_mem_cons, List.not_mem_nil, false_imp_iff,
    implies_true, and_true, List.Pairwise.nil]
  refine ⟨⟨fun found hfound => ?_, fun found hfound => ?_⟩, fun found hfound hother => ?_⟩
  · exact Placement.locate_ne hplace (by decide) hslash hinfoLink hflatLink hinfoName hinfo.symm
      hfound
  · exact Placement.locate_ne hplace (by decide) (by decide) hinfoLink hjsonLink hinfoName
      (by decide) hfound
  · exact Placement.locate_ne hplace (by decide) hslash hjsonLink hflatLink hjsonName hjson.symm
      hother hfound

/-! ### Documents of a bundle -/

namespace Bundle

theorem exact_manifestDocument (b : Bundle) : b.manifestDocument.Exact := by
  refine .array fun v hv => ?_
  obtain ⟨entry, -, rfl⟩ := List.mem_map.1 hv
  have hkeys : ["path".toList, "level".toList].Nodup := by decide
  exact .object_of_texts
    [("path".toList, .ofText entry.1.text), ("level".toList, .integer entry.2)] hkeys
    (by simp [Value.Exact.text, Value.Exact.integer])

theorem exact_defaultSettings (evmVersion : Text) : (defaultSettings evmVersion).Exact := by
  have hkeys : ["enabled".toList, "runs".toList].Nodup := by decide
  have hoptimizer := Value.Exact.object_of_texts
    [("enabled".toList, .bool true), ("runs".toList, .integer 200)] hkeys
    (by simp [Value.Exact.bool, Value.Exact.integer])
  have hkeys : ["optimizer".toList, "evmVersion".toList].Nodup := by decide
  exact .object_of_texts [("optimizer".toList, _), ("evmVersion".toList, .ofText evmVersion)]
    hkeys (by simpa [Value.Exact.text] using hoptimizer)

theorem exact_compilerDocument {settings : Option Value} (evmVersion : Text)
    (hsources : (b.sources.map fun entry => entry.1.text).Nodup)
    (hsettings : ∀ v, settings = some v → v.Exact) :
    (b.compilerDocument settings evmVersion).Exact := by
  have hsource : ∀ entry ∈ b.sources,
      (Value.object [(.ofText "content".toList, .ofText entry.2)]).Exact := fun entry _ =>
    .object_of_texts [("content".toList, .ofText entry.2)] (List.nodup_singleton _)
      (by simp [Value.Exact.text])
  have hobject := Value.Exact.object_of_texts (b.sources.map fun entry =>
      (entry.1.text, .object [(.ofText "content".toList, .ofText entry.2)]))
    (by simpa [Function.comp_def] using hsources)
    (by simpa only [List.forall_mem_map] using hsource)
  rw [List.map_map] at hobject
  have hused : (settings.getD (defaultSettings evmVersion)).Exact := by
    cases settings with
    | none => exact exact_defaultSettings evmVersion
    | some v => exact hsettings v rfl
  have hkeys : ["language".toList, "sources".toList, "settings".toList].Nodup := by decide
  refine .object_of_texts [("language".toList, .ofText "Solidity".toList), ("sources".toList, _),
    ("settings".toList, _)] hkeys ?_
  simp only [List.forall_mem_cons, List.not_mem_nil, false_imp_iff, implies_true, and_true]
  exact ⟨.text _, hobject, hused⟩

end Bundle

theorem read?_of_document (h : v.Exact) :
    (Text.ofUtf8? (v.json documentIndent).toUtf8).bind Json.read? = some v := by
  rw [Text.ofUtf8?_toUtf8, Option.bind_some]
  exact Json.read?_json (by simp [documentIndent, Json.isSpace]) h

/-- A registry with levels makes a bundle for each of its files, and where its three artifacts are
written and none of their paths is a link, they can be read back: the manifest as the document of
the files with their levels, the compiler input as the one of the sources of all registered files,
in order and as they were put in, with the settings, and the flat text as it is. -/
theorem artifacts_read_back {root : Path} {settings : Option Value} {extension : Text}
    (hsound : Site.Sound ⟨t, cwd, none⟩) (hproper : ∀ p ∈ r.paths, p.Proper)
    (hlevels : ∀ n ∈ r.nodes, n.level.isSome) (hroot : root ∈ r.paths)
    (hsettings : ∀ v, settings = some v → v.Exact) (hslash : '/' ∉ extension)
    (hinfo : extension ≠ ".info.json".toList) (hjson : extension ≠ ".json".toList)
    (newline evmVersion out : Text) (labels base : Option Path) :
    ∃ b, Bundle.assemble r root newline labels = .ok b ∧ ∀ place t',
      Placement.ofTarget out base = .ok place →
      writeAll t cwd place (drafts b place (b.compilerDocument settings evmVersion) extension) =
        (t', .ok ()) →
      (∀ ending ∈ [".info.json".toList, extension, ".json".toList],
        ¬t'.IsLink cwd (place.file ending)) →
      ∃ info flat input, t'.readBytes cwd (place.file ".info.json".toList) = .ok info ∧
        t'.readBytes cwd (place.file extension) = .ok flat ∧
        t'.readBytes cwd (place.file ".json".toList) = .ok input ∧
        (Text.ofUtf8? info).bind Json.read? = some (.array (b.manifest.map fun entry => .object [
          (.ofText "path".toList, .ofText entry.1.text),
          (.ofText "level".toList, .integer entry.2)])) ∧
        Text.ofUtf8? flat = some b.flatText ∧
        (Text.ofUtf8? input).bind Json.read? = some (.object [
          (.ofText "language".toList, .ofText "Solidity".toList),
          (.ofText "sources".toList, .object (r.nodes.map fun n => (.ofText n.path.text,
            .object [(.ofText "content".toList, .ofText (sourceContent n newline))]))),
          (.ofText "settings".toList, settings.getD (Bundle.defaultSettings evmVersion))]) := by
  obtain ⟨root, hnode, rfl⟩ := Registry.mem_paths.1 hroot
  obtain ⟨b, hb⟩ := Bundle.exists_assemble hnode hlevels newline labels
  refine ⟨b, hb, fun place t' hplace hwrite hlinks => ?_⟩
  have hread := readBytes_of_writeAll hsound.linkless hplace hslash hinfo hjson hwrite hlinks
  simp only [drafts, List.forall_mem_cons, List.not_mem_nil, false_imp_iff, implies_true,
    and_true] at hread
  obtain ⟨hmanifest, hflat, hinput⟩ := hread
  have hsources : b.sources = r.nodes.map fun n => (n.path, sourceContent n newline) := by
    obtain ⟨_, _, -, -, rfl⟩ := Bundle.assemble_eq_ok_iff.1 hb
    rfl
  -- proper paths that differ are written differently
  have hkeys : (r.paths.map Path.text).Nodup := r.nodup_paths.map_on fun p hp q hq heq =>
    Path.text_inj (hproper p hp) (hproper q hq) heq
  have hnodup : (b.sources.map fun entry => entry.1.text).Nodup := by
    rw [hsources, List.map_map]
    rwa [Registry.paths, List.map_map] at hkeys
  have hexact := Bundle.exact_compilerDocument evmVersion hnodup hsettings
  refine ⟨_, _, _, hmanifest, hflat, hinput, read?_of_document (Bundle.exact_manifestDocument b),
    Text.ofUtf8?_toUtf8 _, ?_⟩
  rw [read?_of_document hexact, Bundle.compilerDocument, hsources, List.map_map]
  rfl

/-! ### Two files of the trio -/

section Trio

/-- The first file of the trio after the one that it imports, with their levels. -/
def trioLeveled : Registry where
  nodes := [{ trioB 1 with level := some 1 }, { trioA 0 with level := some 2 }]
  nodup_paths := by decide

def trioSettings : Value :=
  .object [(.ofText "remappings".toList, .array [.ofText "a\tb".toList, .null]),
    (.ofText "runs".toList, .integer (-3))]

theorem exact_trioSettings : trioSettings.Exact := by
  have hkeys : ["remappings".toList, "runs".toList].Nodup := by decide
  have hremappings : Value.Exact (.array [.ofText "a\tb".toList, .null]) :=
    .array (by simp [Value.Exact.text, Value.Exact.null])
  exact .object_of_texts [("remappings".toList, _), ("runs".toList, .integer (-3))] hkeys
    (by simpa [Value.Exact.integer] using hremappings)

theorem linkFree_trioWritten (info flat input : Text) : (trioWritten info flat input).LinkFree :=
  Tree.linkFree_of_links_eq_nil (by cbv)

theorem trio_artifacts_read_back :
    ∃ b t' input, Bundle.assemble trioLeveled (.top "A.sol") "\r\n".toList none = .ok b ∧
      writeAll trioSite.tree [] trioPlacement (drafts b trioPlacement
        (b.compilerDocument (some trioSettings) "paris".toList) ".sol".toList) = (t', .ok ()) ∧
      t'.readBytes [] (trioPlacement.file ".json".toList) = .ok input ∧
      ((Text.ofUtf8? input).bind Json.read?).map (fun v => v.field "settings") =
        some trioSettings := by
  have hproper : ∀ p ∈ trioLeveled.paths, p.Proper := by
    unfold Path.Proper
    decide
  have hroot : Path.top "A.sol" ∈ trioLeveled.paths := by decide
  obtain ⟨b, hb, hread⟩ := artifacts_read_back trioSite_sound hproper (by decide) hroot
    (fun v hv => Option.some.inj hv ▸ exact_trioSettings)
    (show '/' ∉ ".sol".toList by decide) (by decide) (by decide) "\r\n".toList "paris".toList
    "out".toList none (some (.ofLocation []))
  have hwrite := writeAll_trio b (b.compilerDocument (some trioSettings) "paris".toList)
  obtain ⟨info, flat, input, -, -, hinput, -, -, hdocument⟩ :=
    hread trioPlacement _ (by cbv) hwrite fun ending _ ⟨place, target, _, htarget⟩ =>
      linkFree_trioWritten _ _ _ place target htarget
  exact ⟨b, _, input, hb, hwrite, hinput, by rw [hdocument]; rfl⟩

end Trio

end SolidityFlattener
