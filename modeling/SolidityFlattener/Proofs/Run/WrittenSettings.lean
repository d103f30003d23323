import SolidityFlattener.Proofs.Run.CompilerConfig

/-!
The settings in the compiler inputs that a command writes.

Each target takes the settings that are in force when its turn comes, with one path and one version
for the whole command. The compiler input is the last artifact of a target to be written, so it
holds these settings in the end unless a later target writes over it. An artifact that is written
where the configuration stands changes what it gives. So does a directory that is made, where the
path of the configuration goes through it and back: before, that path led nowhere.
-/

namespace SolidityFlattener

variable {t t' u : Tree} {cwd : Location} {o : Options} {path : Path} {version : EvmVersion}
  {step : Target × Plan} {before after : List (Target × Plan)}

/-- A compiler input with sources and settings. -/
def inputDocument (sources settings : Value) : Value :=
  .object [(.ofText "language".toList, .ofText "Solidity".toList),
    (.ofText "sources".toList, sources), (.ofText "settings".toList, settings)]

/-- No artifact of some targets is where a path leads. -/
def Unwritten (t : Tree) (cwd : Location) (o : Options) (targets : List Target) (path : Path) :
    Prop :=
  ∀ target ∈ targets, ∀ p ∈ target.artifactPaths o, ∀ place,
    t.locate .target cwd p = .ok place → t.locate .target cwd path ≠ .ok place

/-! ### The step of one target -/

/-- A planned target drafts its compiler input last, with the settings in force. -/
theorem exists_input_of_planFile {target : Target} {plan : Plan}
    (hpath : compilerConfigPath o = .ok (some path))
    (h : (planFile t cwd o target).outcome = .ok plan) :
    ∃ place front sources settings, placementOf o target = .ok place ∧
      InForce t cwd path o.evmVersion settings ∧
        plan.files = front ++ [⟨"compiler_input".toList, place.file ".json".toList,
          (inputDocument sources settings).json documentIndent⟩] := by
  obtain ⟨bundle, settings, place, -, hsettings, hplace, rfl⟩ := planFile_eq_ok_iff.1 h
  exact ⟨place, [_, _], _, _, hplace, inForce_of_compilerSettings hpath hsettings o.evmVersion, rfl⟩

/-- What is in force when the turn of a target comes was so from the start, unless an artifact of an
earlier target is where the configuration stands or its path has come to lead to a file. -/
theorem Written.inForce_of_unwritten {settings : Value} (h : Written cwd o t before u)
    (h' : Written cwd o u after t') (hcwd : t.Linkless cwd)
    (hkept : Unwritten t' cwd o (before.map Prod.fst) path)
    (hled : u.isFile cwd path = .ok true → ∃ place, t.locate .target cwd path = .ok place)
    (hsettings : InForce u cwd path version settings) : InForce t cwd path version settings := by
  have hextends := h'.extension ((h.extension hcwd).linkless hcwd)
  refine (inForce_congr fun fields => ?_).1 hsettings
  refine givesSettings_iff_of_frame (h.frame hcwd) ?_ hled
  rintro p ⟨step, hstep, hp⟩ place hlocate hplace
  rw [h.map_path hstep] at hp
  exact hkept step.1 (List.mem_map_of_mem hstep) p hp place (hextends.locate hlocate)
    (hextends.locate hplace)

/-- The compiler input of a target holds the settings that were in force when its turn came, unless
a later target has an artifact there. -/
theorem Written.exists_input (h : Written cwd o t (before ++ step :: after) t')
    (hcwd : t.Linkless cwd) (hpath : compilerConfigPath o = .ok (some path)) :
    ∃ u place sources settings found content, Written cwd o t before u ∧
      Written cwd o u (step :: after) t' ∧ placementOf o step.1 = .ok place ∧
      InForce u cwd path o.evmVersion settings ∧
      t'.locate .target cwd (place.file ".json".toList) = .ok found ∧
      t'.lookup found = some (.file content) ∧
      ((∀ later ∈ after.map Prod.fst, ∀ p ∈ later.artifactPaths o,
          t'.locate .target cwd p ≠ .ok found) →
        content = ((inputDocument sources settings).json documentIndent).toUtf8) := by
  obtain ⟨u, v, hbefore, hplan, hwrite, hafter⟩ := h.split
  obtain ⟨place, front, sources, settings, hplace, hsettings, hfiles⟩ :=
    exists_input_of_planFile hpath hplan
  obtain ⟨found, content, -, hfound, hcontent, hlast⟩ := h.exists_file hcwd hfiles
  refine ⟨u, place, sources, settings, found, content, hbefore, .cons hplan hwrite hafter, hplace,
    hsettings, hfound, hcontent, fun hlater => hlast (by simp) fun next hnext other hother => ?_⟩
  refine hlater next.1 (List.mem_map_of_mem hnext) _ ?_
  rw [← hafter.map_path hnext]
  exact List.mem_map_of_mem hother

/-! ### Versions by name -/

theorem Points.text?_eq_some_iff {s : Points} {text : Text} :
    s.text? = some text ↔ s = .ofText text := by
  unfold Points.text? Points.ofText
  induction s generalizing text with
  | nil => cases text <;> simp
  | cons p s ih =>
      cases p with
      | half n => cases text <;> simp [Point.char?]
      | scalar c => cases text <;> simp [Point.char?, Option.bind_eq_some_iff, ih, and_comm]

theorem EvmVersion.ofName?_eq_some_iff {text : Text} :
    EvmVersion.ofName? text = some version ↔ text = version.name := by
  constructor
  · intro h
    exact (by simpa using List.find?_some h : version.name = text).symm
  · rintro rfl
    exact EvmVersion.ofName?_name version

/-- A value names a version as the text of its name. -/
theorem EvmVersion.ofValue_eq_ok_iff {v : Value} :
    EvmVersion.ofValue v = .ok version ↔ v = .ofText version.name := by
  have hnamed : ∀ s : Points, s.text?.bind EvmVersion.ofName? = some version ↔
      s = .ofText version.name := by
    intro s
    simp only [Option.bind_eq_some_iff, Points.text?_eq_some_iff, EvmVersion.ofName?_eq_some_iff,
      exists_eq_right]
  unfold EvmVersion.ofValue
  rcases v with scalar | items | fields
  · cases scalar with
    | string s =>
        have hstring : Value.string s = .ofText version.name ↔ s = .ofText version.name := by
          simp [Value.ofText]
        simp only [hstring, ← hnamed]
        cases s.text?.bind EvmVersion.ofName? <;> simp
    | _ => simp [Value.ofText]
  · simp [Value.ofText]
  · simp [Value.ofText]

namespace CommandLine

variable {a : Arguments} {gathered : BatchFile}

/-! ### What a command asks for -/

/-- The path of the compiler configuration of a command. -/
def configPath (cwd : Location) (a : Arguments) : Path :=
  (Path.ofLocation cwd).joinText ((nonEmpty a.compilerConfig).getD "compiler_config.json".toList)

/-- The version that a command asks for, or else its batch file, or else the default one. -/
def AsksFor (a : Arguments) (gathered : BatchFile) (version : EvmVersion) : Prop :=
  a.evmVersion = some version ∨ a.evmVersion = none ∧
    (gathered.evmVersion = .ofText version.name ∨
      gathered.evmVersion = .null ∧ version = .paris)

theorem asksFor_of_optionsOf (ho : optionsOf cwd a gathered = .ok o) :
    AsksFor a gathered o.evmVersion ∧ o.baseDir = some (.ofLocation cwd) ∧
      o.compilerConfig = some (.ofText
        ((nonEmpty a.compilerConfig).getD "compiler_config.json".toList)) := by
  have hconfig : ((nonEmpty a.compilerConfig).map Path.ofText).or
      (Options.default cwd).compilerConfig = some (.ofText
        ((nonEmpty a.compilerConfig).getD "compiler_config.json".toList)) := by
    cases nonEmpty a.compilerConfig <;> rfl
  unfold optionsOf at ho
  unfold AsksFor
  split at ho
  · next version hversion =>
    obtain rfl := Except.ok.inj ho
    exact ⟨.inl hversion, rfl, hconfig⟩
  · next hversion hnull =>
    obtain rfl := Except.ok.inj ho
    exact ⟨.inr ⟨hversion, .inr ⟨hnull, rfl⟩⟩, rfl, hconfig⟩
  · next hversion _ =>
    obtain ⟨version, hvalue, ho⟩ := bind_eq_ok_iff.1 ho
    obtain rfl := Except.ok.inj ho
    exact ⟨.inr ⟨hversion, .inl (EvmVersion.ofValue_eq_ok_iff.1 hvalue)⟩, rfl, hconfig⟩

theorem compilerConfigPath_of_optionsOf (ho : optionsOf cwd a gathered = .ok o) :
    compilerConfigPath o = .ok (some (configPath cwd a)) := by
  obtain ⟨-, hbase, hconfig⟩ := asksFor_of_optionsOf ho
  unfold compilerConfigPath configPath Path.joinText
  simp only [hbase, hconfig]
  split_ifs with habsolute
  · rw [Path.join_of_isAbsolute habsolute]
  · rfl

/-! ### The run -/

/-- A command that answers zero has written all its targets. -/
theorem exists_written_of_run (h : (run t cwd a).2.outcome = .ok 0) :
    ∃ gathered o steps, gather t cwd a = .ok gathered ∧ optionsOf cwd a gathered = .ok o ∧
      steps.map Prod.fst = gathered.targets ∧ Written cwd o t steps (run t cwd a).1 := by
  obtain ⟨gathered, o, hgather, ho, hne, -⟩ := (answers_of_run h).eq_zero_iff.1 rfl
  obtain ⟨htree, hstatus⟩ := run_of_gather hgather ho hne
  obtain ⟨steps, hsteps, hwritten⟩ := batch_ok_iff.1 (hstatus.1 h)
  exact ⟨gathered, o, steps, hgather, ho, hsteps, htree ▸ hwritten⟩

/-- A command on a site that a system can offer. If it answers zero then for each target, in the
order in which they are gathered, the compiler input holds in the end the settings that were in
force when the turn of the target came, unless an artifact of a later target leads to the same
place. These are the ones in force from the start, unless an artifact of an earlier target leads to
where the configuration stands, or its path led nowhere at the start and leads to a file when the
turn comes. To take the settings of a file never fails, and a target ends in the same way whatever a
file holds that its imports do not come to. -/
theorem settings_of_written_inputs (hsound : Site.Sound ⟨t, cwd, none⟩) :
    ((run t cwd a).2.outcome = .ok 0 →
      ∃ gathered o, gather t cwd a = .ok gathered ∧ optionsOf cwd a gathered = .ok o ∧
        AsksFor a gathered o.evmVersion ∧
        ∀ before target after, gathered.targets = before ++ target :: after →
          ∃ place sources settings found content, placementOf o target = .ok place ∧
            InForce (batch t cwd o before).1 cwd (configPath cwd a) o.evmVersion settings ∧
            (run t cwd a).1.locate .target cwd (place.file ".json".toList) = .ok found ∧
            (run t cwd a).1.lookup found = some (.file content) ∧
            ((∀ later ∈ after, ∀ p ∈ later.artifactPaths o,
                (run t cwd a).1.locate .target cwd p ≠ .ok found) →
              content = ((inputDocument sources settings).json documentIndent).toUtf8) ∧
            (Unwritten (run t cwd a).1 cwd o before (configPath cwd a) →
              ((batch t cwd o before).1.isFile cwd (configPath cwd a) = .ok true →
                ∃ origin, t.locate .target cwd (configPath cwd a) = .ok origin) →
              InForce t cwd (configPath cwd a) o.evmVersion settings)) ∧
    (∀ (u : Tree) (o : Options) (path : Path), compilerConfigPath o = .ok (some path) →
      u.isFile cwd path = .ok true → ∃ settings, (compilerSettings u cwd o).outcome = .ok settings) ∧
    ∀ (u : Tree) (o : Options) (target : Target) (place : Location) (content : ByteArray),
      Site.Sound ⟨u, cwd, none⟩ → u.lookup place = some (.file content) →
        ¬target.ComesTo u cwd o place → ∀ bytes,
          (flattenFile (u.insert place (.file bytes)) cwd o target).2.outcome =
            (flattenFile u cwd o target).2.outcome := by
  refine ⟨fun hrun => ?_, fun u o path hpath hfile => exists_compilerSettings hpath hfile,
    fun u o target place content hsound hfile hnot bytes =>
      outcome_flattenFile_insert_file hsound hfile hnot bytes⟩
  obtain ⟨gathered, o, steps, hgather, ho, hsteps, hwritten⟩ := exists_written_of_run hrun
  refine ⟨gathered, o, hgather, ho, (asksFor_of_optionsOf ho).1, fun before target after hsplit => ?_⟩
  rw [← hsteps, List.map_eq_append_iff] at hsplit
  obtain ⟨earlier, rest, rfl, rfl, hrest⟩ := hsplit
  obtain ⟨step, later, rfl, rfl, rfl⟩ := List.map_eq_cons_iff.1 hrest
  obtain ⟨u, place, sources, settings, found, content, hbefore, hafter, hplace, hsettings, hfound,
    hcontent, hlast⟩ := hwritten.exists_input hsound.linkless (compilerConfigPath_of_optionsOf ho)
  rw [hbefore.batch_eq]
  exact ⟨place, sources, settings, found, content, hplace, hsettings, hfound, hcontent, hlast,
    fun hkept hled =>
      hbefore.inForce_of_unwritten hafter hsound.linkless hkept hled hsettings⟩

/-! ### Two files and a configuration -/

section Pair

/-- Two files and beside them a configuration. -/
def pairTree (content : ByteArray) : Tree := ⟨[
  (["A.sol".toList], .file (Text.toUtf8 "contract A \x7b\x7d".toList)),
  (["B.sol".toList], .file (Text.toUtf8 "contract B \x7b\x7d".toList)),
  (["c.json".toList], .file content)]⟩

/-- The tree with the artifacts of the first file. -/
def pairFirst (content : ByteArray) (info flat input : Text) : Tree :=
  ⟨(pairTree content).entries ++ [
    (["flat".toList], .directory),
    (["flat".toList, "A".toList], .directory),
    (["flat".toList, "A".toList, "A.info.json".toList], .file info.toUtf8),
    (["flat".toList, "A".toList, "A.sol".toList], .file flat.toUtf8),
    (["flat".toList, "A".toList, "A.json".toList], .file input.toUtf8)]⟩

/-- A tree with those of the second file as well. -/
def pairLast (first : Tree) (info flat input : Text) : Tree :=
  ⟨first.entries ++ [
    (["flat".toList, "B".toList], .directory),
    (["flat".toList, "B".toList, "B.info.json".toList], .file info.toUtf8),
    (["flat".toList, "B".toList, "B.sol".toList], .file flat.toUtf8),
    (["flat".toList, "B".toList, "B.json".toList], .file input.toUtf8)]⟩

def pairNode (name body : String) : Node :=
  { Node.ofPath (.top name) with body := [body.toList] }

def pairPlacement (name : String) : Placement :=
  ⟨⟨.root, ["flat".toList, name.toList]⟩, name.toList⟩

def pairOptions (config : Text) : Options :=
  { Options.default [] with compilerConfig := some (.ofText config) }

def pairArguments (config : Text) : Arguments :=
  { Arguments.none with
    dir := some ".".toList, outAuto := some [], compilerConfig := some config }

def pairSettings : List (Scalar × Value) := [(.ofText "viaIR".toList, .bool true)]

/-- A configuration that gives settings. -/
def pairConfig : Value := .object [(.ofText "settings".toList, .object pairSettings)]

def pairContent : ByteArray := Text.toUtf8 (pairConfig.json documentIndent)

variable {config : Text} {s s₁ s₂ : Option Value} {content : ByteArray} {bundle : Bundle}

theorem pairArguments_overDirectory (config : Text) :
    OverDirectory (pairArguments config) ".".toList [] := ⟨rfl, rfl, rfl, rfl⟩

theorem rootFiles_pair (content : ByteArray) :
    rootFiles (pairTree content) [] .default (.ofText ".".toList) =
      .ok [.top "A.sol", .top "B.sol"] := by
  cbv

theorem pairTree_sound (content : ByteArray) : Site.Sound ⟨pairTree content, [], none⟩ where
  named := by
    unfold Tree.Named Tree.IsEntryName
    simp [pairTree, Path.isComponent]
  cwd := Tree.Plain.root.realPath_ofLocation []

theorem optionsOf_pair (h : config ≠ []) (targets : List Target) :
    optionsOf [] (pairArguments config) ⟨targets, .null, none⟩ = .ok (pairOptions config) := by
  have hgiven : nonEmpty (pairArguments config).compilerConfig = some config :=
    Option.filter_eq_some_iff.2 ⟨rfl, by simpa using h⟩
  unfold optionsOf
  rw [hgiven]
  rfl

theorem writeAll_pairTree (config : Text) (bundle : Bundle) (document : Value) :
    writeAll (pairTree content) [] (pairPlacement "A")
        (drafts bundle (pairPlacement "A") document (pairOptions config).flatExtension) =
      (pairFirst content (bundle.manifestDocument.json documentIndent) bundle.flatText
        (document.json documentIndent), .ok ()) := by
  unfold drafts
  generalize bundle.manifestDocument.json documentIndent = info
  generalize bundle.flatText = flat
  generalize document.json documentIndent = input
  cbv

theorem writeAll_pairFirst (info flat input config : Text) (bundle : Bundle) (document : Value) :
    writeAll (pairFirst content info flat input) [] (pairPlacement "B")
        (drafts bundle (pairPlacement "B") document (pairOptions config).flatExtension) =
      (pairLast (pairFirst content info flat input)
        (bundle.manifestDocument.json documentIndent) bundle.flatText
          (document.json documentIndent), .ok ()) := by
  unfold drafts
  generalize bundle.manifestDocument.json documentIndent = info'
  generalize bundle.flatText = flat'
  generalize document.json documentIndent = input'
  cbv

theorem exists_bundle_pairTree (content : ByteArray) (config : Text) :
    ∃ bundle, (flattenSource (pairTree content) [] (pairOptions config) Source.byLines
      (.top "A.sol")).outcome = .ok bundle := by
  have hload : loadNode ⟨pairTree content, [], none⟩ Source.byLines (.top "A.sol") 0 =
      .ok (pairNode "A.sol" "contract A \x7b\x7d") :=
    Site.loadNode_eq ⟨[], [], ["contract A \x7b\x7d".toList]⟩ [] [] 0 (by cbv)
      (by decide +kernel) (by decide +kernel) (by cbv)
  exact exists_bundle_of_lone (n := pairNode "A.sol" "contract A \x7b\x7d") (by cbv) (by cbv)
    hload rfl (by cbv) rfl rfl (by cbv)

theorem exists_bundle_pairFirst (content : ByteArray) (info flat input config : Text) :
    ∃ bundle, (flattenSource (pairFirst content info flat input) [] (pairOptions config)
      Source.byLines (.top "B.sol")).outcome = .ok bundle := by
  have hload : loadNode ⟨pairFirst content info flat input, [], none⟩ Source.byLines
      (.top "B.sol") 0 = .ok (pairNode "B.sol" "contract B \x7b\x7d") :=
    Site.loadNode_eq ⟨[], [], ["contract B \x7b\x7d".toList]⟩ [] [] 0 (by cbv)
      (by decide +kernel) (by decide +kernel) (by cbv)
  exact exists_bundle_of_lone (n := pairNode "B.sol" "contract B \x7b\x7d") (by cbv) (by cbv)
    hload rfl (by cbv) rfl rfl (by cbv)

/-- What is planned for one of the files. -/
def pairPlan (name : String) (bundle : Bundle) (settings : Option Value) : Plan where
  place := pairPlacement name
  files := drafts bundle (pairPlacement name)
    (bundle.compilerDocument settings EvmVersion.paris.name) ".sol".toList
  result := ((pairPlacement name).file ".sol".toList).parent

theorem planFile_pair (file name : String)
    (hplace : placementOf (pairOptions config) (derivedFor [] (.top file)) =
      .ok (pairPlacement name))
    (hbundle : (flattenSource t [] (pairOptions config) Source.byLines (.top file)).outcome =
      .ok bundle)
    (hsettings : (compilerSettings t [] (pairOptions config)).outcome = .ok s) :
    (planFile t [] (pairOptions config) (derivedFor [] (.top file))).outcome =
      .ok (pairPlan name bundle s) :=
  planFile_eq_ok_iff.2 ⟨bundle, s, pairPlacement name, hbundle, hsettings, hplace, rfl⟩

/-- A run over the two files, told by the settings that each of them is planned with. -/
theorem exists_directoryRun_pair (hne : config ≠ [])
    (hfirst : (compilerSettings (pairTree content) [] (pairOptions config)).outcome = .ok s₁)
    (hsecond : ∀ info flat input, (compilerSettings (pairFirst content info flat input) []
      (pairOptions config)).outcome = .ok s₂) :
    ∃ info flat sources info' flat' sources', Nonempty (DirectoryRun (pairTree content) []
      (pairArguments config) ".".toList [] [.top "A.sol", .top "B.sol"]
        (pairLast (pairFirst content info flat ((inputDocument sources
            (s₁.getD (Bundle.defaultSettings EvmVersion.paris.name))).json documentIndent))
          info' flat' ((inputDocument sources'
            (s₂.getD (Bundle.defaultSettings EvmVersion.paris.name))).json documentIndent))) := by
  obtain ⟨bundle, hbundle⟩ := exists_bundle_pairTree content config
  have hplan := planFile_pair "A.sol" "A" (by cbv) hbundle hfirst
  obtain ⟨bundle', hbundle'⟩ := exists_bundle_pairFirst content
    (bundle.manifestDocument.json documentIndent) bundle.flatText
      ((bundle.compilerDocument s₁ EvmVersion.paris.name).json documentIndent) config
  have hplan' := planFile_pair "B.sol" "B" (by cbv) hbundle' (hsecond _ _ _)
  exact ⟨_, _, _, _, _, _, ⟨{
    options := pairOptions config
    steps := [(derivedFor [] (.top "A.sol"), pairPlan "A" bundle s₁),
      (derivedFor [] (.top "B.sol"), pairPlan "B" bundle' s₂)]
    isDirectory := by cbv
    out_eq := rfl
    listed := rootFiles_pair content
    files_ne := by simp
    options_eq := optionsOf_pair hne _
    targets_eq := rfl
    written := .cons hplan (writeAll_pairTree config bundle _)
      (.cons hplan' (writeAll_pairFirst _ _ _ config bundle' _) .nil) }⟩⟩

theorem exact_pairConfig : pairConfig.Exact := by
  have hsettings : Value.Exact (.object pairSettings) :=
    .object_of_texts [("viaIR".toList, .bool true)] (by simp) (by simp [Value.Exact.bool])
  exact .object_of_texts [("settings".toList, .object pairSettings)] (by simp)
    (by simpa using hsettings)

theorem givesSettings_of_lookup {place : Location} (hplace : t.locate .target cwd path = .ok place)
    (hfile : t.lookup place = some (.file pairContent)) :
    GivesSettings t cwd path pairSettings := by
  have hbreaks : (pairConfig.json documentIndent).unifyBreaks = pairConfig.json documentIndent := by
    decide +kernel
  refine ⟨pairConfig.json documentIndent, _, ?_,
    Json.read?_json (by simp [documentIndent, Json.isSpace]) exact_pairConfig, by cbv⟩
  rw [Tree.readText_of_lookup hplace hfile, hbreaks]

theorem compilerConfigPath_pair (hne : config ≠ []) :
    compilerConfigPath (pairOptions config) = .ok (some (configPath [] (pairArguments config))) :=
  compilerConfigPath_of_optionsOf (optionsOf_pair hne [])

/-- The first file imports nothing, so not the configuration. -/
theorem not_comesTo_pair :
    ¬(derivedFor [] (.top "A.sol")).ComesTo (pairTree content) [] o ["c.json".toList] := by
  rintro ⟨packageRoot, path, -, hpath, hmeets⟩
  have hreal : (pairTree content).realPath true [] (.top "A.sol") = .ok (.top "A.sol") := by cbv
  obtain rfl := Except.ok.inj (hreal.symm.trans hpath)
  have hread : (pairTree content).readText [] (.top "A.sol") =
      .ok "contract A \x7b\x7d".toList := by cbv
  have hspecifiers : (Source.byLines.scan "contract A \x7b\x7d".toList).specifiers = [] := by cbv
  rcases Relation.ReflTransGen.cases_head hmeets.reached with heq | ⟨next, hnext, -⟩
  · exact absurd heq (by decide)
  · obtain ⟨text, htext, specifier, hmem, -⟩ := hnext
    obtain rfl := Except.ok.inj (hread.symm.trans htext)
    rw [hspecifiers] at hmem
    cases hmem

section Places

variable (content : ByteArray) (info flat input info' flat' input' : Text)

theorem locate_first_pairLast :
    (pairLast (pairFirst content info flat input) info' flat' input').locate .target []
        ((pairPlacement "A").file ".json".toList) =
      .ok ["flat".toList, "A".toList, "A.json".toList] := by
  cbv

/-- No artifact of the second file is where the compiler input of the first one is. -/
theorem locate_second_pairLast (config : Text) :
    ∀ p ∈ (derivedFor [] (.top "B.sol")).artifactPaths (pairOptions config),
      (pairLast (pairFirst content info flat input) info' flat' input').locate .target [] p ≠
        .ok ["flat".toList, "A".toList, "A.json".toList] := by
  have hpaths : (derivedFor [] (.top "B.sol")).artifactPaths (pairOptions config) =
      [(pairPlacement "B").file ".info.json".toList, (pairPlacement "B").file ".sol".toList,
        (pairPlacement "B").file ".json".toList] := by
    cbv
  have hplace : ∀ ending ∈ [".info.json".toList, ".sol".toList, ".json".toList],
      (pairLast (pairFirst content info flat input) info' flat' input').locate .target []
          ((pairPlacement "B").file ending) =
        .ok ["flat".toList, "B".toList, "B".toList ++ ending] := by
    simp only [List.forall_mem_cons, List.not_mem_nil, false_imp_iff, implies_true, and_true]
    exact ⟨by cbv, by cbv, by cbv⟩
  rw [hpaths]
  simp only [List.forall_mem_cons, List.not_mem_nil, false_imp_iff, implies_true, and_true] at *
  obtain ⟨hinfo, hflat, hinput⟩ := hplace
  rw [hinfo, hflat, hinput]
  decide

theorem find_pairLast :
    (pairLast (pairFirst content info flat input) info' flat' input').find []
        ((pairPlacement "A").file ".json".toList) = .ok (.file input.toUtf8) ∧
      (pairLast (pairFirst content info flat input) info' flat' input').find []
        ((pairPlacement "B").file ".json".toList) = .ok (.file input'.toUtf8) := by
  constructor <;> cbv

end Places

theorem exists_result_pair
    (hfirst : (compilerSettings (pairTree content) [] (pairOptions config)).outcome = .ok s₁) :
    ∃ result, (flattenFile (pairTree content) [] (pairOptions config)
      (derivedFor [] (.top "A.sol"))).2.outcome = .ok result := by
  obtain ⟨bundle, hbundle⟩ := exists_bundle_pairTree content config
  rw [flattenFile_of_written (planFile_pair "A.sol" "A" (by cbv) hbundle hfirst)
    (writeAll_pairTree config bundle _)]
  exact ⟨_, rfl⟩

/-- The configuration is there from the start, and whatever it holds the first file is flattened. -/
theorem settings_of_written_pair :
    let ran := run (pairTree pairContent) [] (pairArguments "c.json".toList)
    ran.2.outcome = .ok 0 ∧
      (∃ sources, ran.1.find [] ((pairPlacement "A").file ".json".toList) =
        .ok (.file ((inputDocument sources (.object pairSettings)).json documentIndent).toUtf8)) ∧
      ∀ bytes, ∃ result, (flattenFile (pairTree bytes) [] (pairOptions "c.json".toList)
        (derivedFor [] (.top "A.sol"))).2.outcome = .ok result := by
  intro ran
  have hne : "c.json".toList ≠ [] := by decide
  have hplace : (pairTree pairContent).locate .target []
      (configPath [] (pairArguments "c.json".toList)) = .ok ["c.json".toList] := by
    cbv
  have hplaceFirst : ∀ info flat input, (pairFirst pairContent info flat input).locate .target []
      (configPath [] (pairArguments "c.json".toList)) = .ok ["c.json".toList] := by
    intro info flat input
    cbv
  have hgives := givesSettings_of_lookup hplace rfl
  have hfirst := hgives.outcome_compilerSettings (compilerConfigPath_pair hne)
  obtain ⟨info, flat, sources, info', flat', sources', ⟨r⟩⟩ := exists_directoryRun_pair hne hfirst
    fun info flat input => (givesSettings_of_lookup (hplaceFirst info flat input)
      rfl).outcome_compilerSettings (compilerConfigPath_pair hne)
  obtain ⟨htree, hrun⟩ := r.run_eq (pairArguments_overDirectory _)
  obtain ⟨hwritten, -, hcontents⟩ := settings_of_written_inputs (pairTree_sound pairContent)
  obtain ⟨gathered, o, hgather, ho, -, hturns⟩ := hwritten hrun
  obtain ⟨-, -, rfl⟩ :=
    (pairArguments_overDirectory _).eq_of_gather (rootFiles_pair pairContent) hgather
  obtain rfl := Except.ok.inj ((optionsOf_pair hne _).symm.trans ho)
  -- the turn of the first file, with that of the second one to come
  obtain ⟨place, sources, settings, found, content, hplacement, hforce, hfound, hcontent, hlast,
    -⟩ := hturns [] _ _ rfl
  have hplacementA : placementOf (pairOptions "c.json".toList) (derivedFor [] (.top "A.sol")) =
      .ok (pairPlacement "A") := by cbv
  obtain rfl := Except.ok.inj (hplacementA.symm.trans hplacement)
  obtain rfl := hforce.eq_of_gives hgives
  have hfind : ran.1.find [] ((pairPlacement "A").file ".json".toList) = .ok (.file content) := by
    simp only [ran, Tree.find, hfound, hcontent, bind, Except.bind]
  rw [htree] at hfound hlast
  obtain rfl := Except.ok.inj ((locate_first_pairLast ..).symm.trans hfound)
  rw [hlast fun later hlater p hp => by
    obtain rfl := List.mem_singleton.1 hlater
    exact locate_second_pairLast _ _ _ _ _ _ _ _ p hp] at hfind
  refine ⟨hrun, ⟨sources, hfind⟩, fun bytes => ?_⟩
  have hsame := hcontents (pairTree pairContent) (pairOptions "c.json".toList)
    (derivedFor [] (.top "A.sol")) ["c.json".toList] pairContent (pairTree_sound _) rfl
    not_comesTo_pair bytes
  obtain ⟨result, hresult⟩ := exists_result_pair hfirst
  exact ⟨result, hsame.trans hresult⟩

/-! ### A path through a directory that the run makes -/

/-- The path of the configuration goes through the directory of derived output and back. -/
def wayBack : Text := "flat/../c.json".toList

theorem isFile_wayBack (content : ByteArray) :
    (pairTree content).isFile [] (configPath [] (pairArguments wayBack)) = .ok false := by
  cbv

theorem outcome_compilerSettings_wayBack (content : ByteArray) :
    (compilerSettings (pairTree content) [] (pairOptions wayBack)).outcome = .ok none := by
  cbv

theorem locate_wayBack_pairFirst (content : ByteArray) (info flat input : Text) :
    (pairFirst content info flat input).locate .target []
      (configPath [] (pairArguments wayBack)) = .ok ["c.json".toList] := by
  cbv

theorem locate_wayBack_pairLast (content : ByteArray) (info flat input info' flat' input' : Text) :
    (pairLast (pairFirst content info flat input) info' flat' input').locate .target []
      (configPath [] (pairArguments wayBack)) = .ok ["c.json".toList] := by
  cbv

/-! ### A configuration that is a source -/

/-- A first file that is no text is not flattened. -/
theorem exists_failure_pair (content : ByteArray) (config : Text) :
    ∃ bytes failure, (flattenFile ((pairTree content).insert ["A.sol".toList] (.file bytes)) []
      (pairOptions config) (derivedFor [] (.top "A.sol"))).2.outcome = .error failure := by
  refine ⟨⟨#[255]⟩, .unresolved (Path.top "A.sol").text none (some (.top "A.sol")), ?_⟩
  let changed : Tree := (pairTree content).insert ["A.sol".toList] (.file ⟨#[255]⟩)
  have hpackage : packageRootOf changed [] (pairOptions config) = .ok none := by cbv
  have hpath : changed.realPath true [] (.top "A.sol") = .ok (.top "A.sol") := by cbv
  have hload : loadNode ⟨changed, [], none⟩ Source.byLines (.top "A.sol") 0 =
      .error (.unresolved (Path.top "A.sol").text none (some (.top "A.sol"))) := by
    cbv
  have hsource : (flattenSource changed [] (pairOptions config) Source.byLines
      (derivedFor [] (.top "A.sol")).file).outcome = _ :=
    flattenSource_of_discover hpackage (discover_eq_error_cases.2 (.inr ⟨_, hpath, .inl hload⟩))
  rw [flattenFile_of_flattenSource hsource]

/-- The first file can be the configuration as well, and is flattened then as it is otherwise. -/
theorem exists_result_pair_of_self (content : ByteArray) :
    ∃ result, (flattenFile (pairTree content) [] (pairOptions "A.sol".toList)
      (derivedFor [] (.top "A.sol"))).2.outcome = .ok result := by
  have hfile : (pairTree content).isFile [] (configPath [] (pairArguments "A.sol".toList)) =
      .ok true := by
    cbv
  obtain ⟨settings, hsettings⟩ := exists_compilerSettings (compilerConfigPath_pair (by decide)) hfile
  exact exists_result_pair hsettings

/-- Where the path of the configuration goes through a directory that is made for the first file,
only the second file gets its settings. And where the configuration is the first file itself, what
it holds can keep this file from being flattened. -/
theorem settings_change_on_the_way :
    let ran := run (pairTree pairContent) [] (pairArguments wayBack)
    ran.2.outcome = .ok 0 ∧
      ran.1.lookup ["c.json".toList] = (pairTree pairContent).lookup ["c.json".toList] ∧
      ∃ sources sources',
        ran.1.find [] ((pairPlacement "A").file ".json".toList) =
          .ok (.file ((inputDocument sources
            (Bundle.defaultSettings EvmVersion.paris.name)).json documentIndent).toUtf8) ∧
        ran.1.find [] ((pairPlacement "B").file ".json".toList) =
          .ok (.file ((inputDocument sources'
            (.object pairSettings)).json documentIndent).toUtf8) ∧
        ¬InForce (pairTree pairContent) [] (configPath [] (pairArguments wayBack)) .paris
          (.object pairSettings) ∧
        ¬InForce ran.1 [] (configPath [] (pairArguments wayBack)) .paris
          (Bundle.defaultSettings EvmVersion.paris.name) ∧
        (∃ result, (flattenFile (pairTree pairContent) [] (pairOptions "A.sol".toList)
          (derivedFor [] (.top "A.sol"))).2.outcome = .ok result) ∧
        ∃ bytes failure, (flattenFile ((pairTree pairContent).insert ["A.sol".toList]
          (.file bytes)) [] (pairOptions "A.sol".toList)
            (derivedFor [] (.top "A.sol"))).2.outcome = .error failure := by
  intro ran
  have hne : wayBack ≠ [] := by decide
  have hother : Bundle.defaultSettings EvmVersion.paris.name ≠ .object pairSettings := by
    simp [Bundle.defaultSettings, pairSettings, Value.ofText, Points.ofText]
  obtain ⟨info, flat, sources, info', flat', sources', ⟨r⟩⟩ := exists_directoryRun_pair hne
    (outcome_compilerSettings_wayBack pairContent) fun info flat input =>
      (givesSettings_of_lookup (locate_wayBack_pairFirst _ info flat input)
        rfl).outcome_compilerSettings (compilerConfigPath_pair hne)
  obtain ⟨htree, hrun⟩ := r.run_eq (pairArguments_overDirectory _)
  obtain ⟨hinput, hinput'⟩ := find_pairLast pairContent info flat _ info' flat' _
  rw [← htree] at hinput hinput'
  refine ⟨hrun, ?_, sources, sources', hinput, hinput', ?_, ?_,
    exists_result_pair_of_self pairContent, exists_failure_pair pairContent _⟩
  · rw [show ran.1 = _ from htree]
    rfl
  · -- at the start the path goes through what is not there
    rintro (⟨fields, hgives, -⟩ | ⟨-, hdefault⟩)
    · cases hgives.isFile.symm.trans (isFile_wayBack pairContent)
    · exact hother hdefault.symm
  · intro hforce
    rw [show ran.1 = _ from htree] at hforce
    exact hother
      (hforce.eq_of_gives (givesSettings_of_lookup (locate_wayBack_pairLast ..) rfl))

end Pair

end CommandLine

end SolidityFlattener
