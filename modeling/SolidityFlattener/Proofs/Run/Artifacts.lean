import SolidityFlattener.Proofs.Artifact.FlatLines
import SolidityFlattener.Proofs.Imports.Discovery
import SolidityFlattener.Proofs.Run.BasesFirst

/-!
The three artifacts of a run over one file.

All of them list the files that were found, each once, and in one order: the compiler sources from
the first on, the manifest from the last on, and the flat text from the first on with the root taken
out to its ends. What the flat text says of a file is what a scan of the file finds, under a label
that leads back to the file.
-/

namespace SolidityFlattener

open Source (scan)

/-- No entry has a slash in its name, as on every system where slashes part names. -/
def Tree.Slashless (t : Tree) : Prop := ∀ e ∈ t.entries, ∀ name ∈ e.1, '/' ∉ name

variable {t : Tree} {cwd : Location} {o : Options} {extractor : Source.Extractor} {file : Path}
  {bundle : Bundle} {p : Path} {n : Node} {newline : Text}

/-- Canonical paths of files are such as are read. -/
theorem Site.CanonicalFile.proper {site : Site} (h : site.CanonicalFile p)
    (hnamed : site.tree.Named) (hslashless : site.tree.Slashless) : p.Proper ∧ p.isAbsolute := by
  obtain ⟨e, he, rfl⟩ := List.mem_map.1 h.mem_entries
  exact ⟨fun name hname => ⟨(hnamed e he name hname).1, hslashless e he name hname⟩, rfl⟩

namespace Flattening

variable (f : Flattening t cwd o extractor file bundle)

/-! ### What was found -/

/-- On a sound site the search for imports is complete, and what it finds is what is levelled. -/
theorem exists_explored (hsound : Site.Sound ⟨t, cwd, none⟩) :
    ∃ found, Search.Explored ⟨t, cwd, f.packageRoot⟩ extractor f.root.path [] found ∧
      f.registry = found.linkInheritance ∧
      ∀ p, (p ∈ f.leveled.paths ↔ p ∈ found.paths) ∧
        (p ∈ found.paths → Site.CanonicalFile ⟨t, cwd, f.packageRoot⟩ p) := by
  have hsound : Site.Sound ⟨t, cwd, f.packageRoot⟩ := ⟨hsound.named, hsound.cwd⟩
  obtain ⟨hpath, node, hnode, found, hfound, hregistry⟩ := discover_eq_ok_iff.1 f.discovered
  have hexplored := (Search.Explored.start hnode).of_completes
    (completes_start hsound hpath hnode) hfound
  have hpaths : f.registry.paths = found.paths := by
    rw [hregistry, Registry.paths_linkInheritance]
  refine ⟨found, hexplored, hregistry, fun p => ⟨?_, hexplored.canonicalFile hsound hpath⟩⟩
  rw [← hpaths, Registry.paths, f.paths_eq]
  exact ((Registry.order_perm f.ordered).map Node.path).mem_iff

theorem mem_leveled_iff (hsound : Site.Sound ⟨t, cwd, none⟩) :
    p ∈ f.leveled.paths ↔ Relation.ReflTransGen
      (Site.ImportsFile ⟨t, cwd, f.packageRoot⟩ extractor) f.root.path p := by
  obtain ⟨found, hexplored, -, hfound⟩ := f.exists_explored hsound
  exact (hfound p).1.trans hexplored.mem_paths_iff

theorem proper_of_mem_leveled (hsound : Site.Sound ⟨t, cwd, none⟩) (hslashless : t.Slashless)
    (hp : p ∈ f.leveled.paths) : p.Proper ∧ p.isAbsolute := by
  obtain ⟨found, -, -, hfound⟩ := f.exists_explored hsound
  exact ((hfound p).2 ((hfound p).1.1 hp)).proper hsound.named hslashless

/-- The levelled files have the headers and bodies that scans of their texts have. -/
theorem exists_text (hsound : Site.Sound ⟨t, cwd, none⟩) (hn : n ∈ f.leveled.nodes) :
    ∃ text, t.readText cwd n.path = .ok text ∧
      n.header = (extractor.scan text).header ∧ n.body = (extractor.scan text).body := by
  obtain ⟨found, hexplored, hregistry, -⟩ := f.exists_explored hsound
  -- neither levelling nor linking touches the header or the body
  rw [f.nodes_eq] at hn
  obtain ⟨linked, hlinked, rfl⟩ := List.mem_map.1 hn
  rw [(Registry.order_perm f.ordered).mem_iff, hregistry] at hlinked
  obtain ⟨loaded, hloaded, rfl⟩ := Registry.mem_nodes_linkInheritance.1 hlinked
  exact (hexplored.loaded loaded hloaded).exists_scan

theorem exists_texts (hsound : Site.Sound ⟨t, cwd, none⟩) :
    ∃ texts : Path → Text, ∀ n ∈ f.leveled.nodes, t.readText cwd n.path = .ok (texts n.path) ∧
      n.header = (extractor.scan (texts n.path)).header ∧
      n.body = (extractor.scan (texts n.path)).body := by
  let texts (p : Path) : Text := (t.readText cwd p).toOption.getD []
  refine ⟨texts, fun n hn => ?_⟩
  obtain ⟨text, hread, hparts⟩ := f.exists_text hsound hn
  have htext : texts n.path = text := by simp [texts, hread, Except.toOption]
  rw [htext]
  exact ⟨hread, hparts⟩

end Flattening

/-- Where there is a file to label, the base of labels is the resolved one. -/
theorem mapM_realPath_of_labelBase {root : Path} {r : Registry} {base : Option Path}
    (h : labelBase t cwd o root r = .ok base) (hp : p ∈ r.paths) (hne : p ≠ root) :
    o.baseDir.mapM (t.realPath false cwd) = .ok base := by
  unfold labelBase at h
  cases hbase : o.baseDir with
  | none => rwa [hbase] at h
  | some b =>
      have hall : ¬r.paths.all (· == root) := fun hall =>
        hne (by simpa using List.all_eq_true.1 hall p hp)
      rw [hbase] at h
      simp only [hall] at h
      exact h

/-- The artifacts of a run on a site that a system can offer, with the default extractor and files
whose paths are on one line. The compiler sources list the files that can be reached from the root,
each once; the manifest lists them the other way round, with the levels from one on; and the lines
of the flat text are the header of the root, what a scan finds in each other file under its label,
and the body of the root. A label leads back to its file from the resolved base. -/
theorem artifacts_list_same_files {keys : List Path} (hsound : Site.Sound ⟨t, cwd, none⟩)
    (hslashless : t.Slashless)
    (h : (flattenSource t cwd o Source.byLines file).outcome = .ok bundle)
    (ho : o.newline = some newline) (hnewline : Text.IsLineEnd newline)
    (hkeys : bundle.sources.map Prod.fst = keys) (hpaths : ∀ p ∈ keys, p.text.OneLine) :
    ∃ packageRoot base, ∃ texts : Path → Text,
      packageRootOf t cwd o = .ok packageRoot ∧
      (keys.map Path.text).Nodup ∧
      (∀ p, p ∈ keys ↔ Relation.ReflTransGen
        (Site.ImportsFile ⟨t, cwd, packageRoot⟩ Source.byLines) bundle.root p) ∧
      bundle.manifest.map Prod.snd = (List.range keys.length).map (fun i : ℕ => (i : Int) + 1) ∧
      (bundle.manifest.map Prod.fst).reverse = keys ∧
      (∀ p ∈ keys, t.readText cwd p = .ok (texts p)) ∧
      Text.cutAt newline bundle.flatText =
        orBlank (scan (texts bundle.root)).header ++ [[]] ++
          (keys.filter (· != bundle.root)).flatMap (fun p =>
            [labelLine base p, []] ++ orBlank (scan (texts p)).body ++ [[]]) ++
          orBlank (scan (texts bundle.root)).body ∧
      ∀ p ∈ keys, p ≠ bundle.root →
        o.baseDir.mapM (t.realPath false cwd) = .ok base ∧
          ∀ b, (base.getD b).joinText (label base p) = p := by
  obtain ⟨f⟩ := flattenSource_eq_ok_iff.1 h
  obtain rfl : f.newline = newline := Option.some.inj (f.newline_eq.symm.trans ho)
  have hleveled : f.leveled.paths = keys := f.keys_eq.symm.trans hkeys
  have hproper : ∀ p ∈ keys, p.Proper ∧ p.isAbsolute := fun p hp =>
    f.proper_of_mem_leveled hsound hslashless (hleveled ▸ hp)
  obtain ⟨texts, hread⟩ := f.exists_texts hsound
  have hscanned : ∀ n ∈ f.leveled.nodes, n.Scanned := fun n hn =>
    ⟨⟨_, (hread n hn).2.1⟩, _, (hread n hn).2.2⟩
  have hlabels : ∀ n ∈ f.leveled.nodes, n.path ≠ f.root.path → (label f.base n.path).OneLine :=
    fun n hn _ => oneLine_label (hpaths n.path (hleveled ▸ Registry.path_mem_paths hn))
  have hlength : keys.length = f.order.length := by
    rw [← hleveled, Registry.paths, f.paths_eq, List.length_map]
  rw [f.text_eq.1]
  refine ⟨f.packageRoot, f.base, texts, f.packageRoot_eq, ?_, ?_, ?_, ?_, ?_, ?_, ?_⟩
  · have hnodup : keys.Nodup := hleveled ▸ f.leveled.nodup_paths
    exact hnodup.map_on fun p hp q hq => Path.text_inj (hproper p hp).1 (hproper q hq).1
  · intro p
    rw [← hleveled]
    exact f.mem_leveled_iff hsound
  · rw [f.levels_eq, hlength]
  · rw [f.manifest_eq, ← hleveled]
    simp [Registry.paths, Function.comp_def]
  · intro p hp
    rw [← hleveled] at hp
    obtain ⟨n, hn, rfl⟩ := Registry.mem_paths.1 hp
    exact (hread n hn).1
  · obtain ⟨-, hheader, hbody⟩ := hread f.root f.root_mem
    rw [f.text_eq.2, cutAt_flatText f.root_mem hscanned hlabels hnewline, flatLines,
      otherLines_eq_flatMap (fun p => (scan (texts p)).body) fun n hn => (hread n hn).2.2, hheader,
      hbody, ← hleveled]
    rfl
  · intro p hp hne
    exact ⟨mapM_realPath_of_labelBase f.base_eq (hleveled ▸ hp) hne,
      joinText_label (hproper p hp).1 (hproper p hp).2⟩

theorem artifacts_ring_list_same_files :
    ∃ bundle, (flattenSource ringSite.tree [] (Options.default []) Source.byLines
        (.ofText "C.sol".toList)).outcome = .ok bundle ∧
      bundle.sources.map Prod.fst = [.top "C.sol", .top "A.sol", .top "B.sol"] ∧
      bundle.manifest.map Prod.fst = [.top "B.sol", .top "A.sol", .top "C.sol"] ∧
      bundle.manifest.map Prod.snd = [1, 2, 3] ∧
      ∃ base, ∃ texts : Path → Text,
        (∀ p ∈ [Path.top "C.sol", .top "A.sol", .top "B.sol"],
          ringSite.tree.readText [] p = .ok (texts p)) ∧
        Text.cutAt "\r\n".toList bundle.flatText =
          orBlank (scan (texts (.top "C.sol"))).header ++ [[]] ++
            [.top "A.sol", .top "B.sol"].flatMap (fun p =>
              [labelLine base p, []] ++ orBlank (scan (texts p)).body ++ [[]]) ++
            orBlank (scan (texts (.top "C.sol"))).body ∧
        ∀ b, (base.getD b).joinText (label base (.top "A.sol")) = .top "A.sol" := by
  obtain ⟨bundle, f, -, horder, hroot⟩ := exists_flattening_ring
  have h := flattenSource_eq_ok_iff.2 ⟨f⟩
  have hkeys : bundle.sources.map Prod.fst = [.top "C.sol", .top "A.sol", .top "B.sol"] := by
    rw [f.keys_eq, Registry.paths, f.paths_eq, horder]
    rfl
  have hslashless : ringSite.tree.Slashless := by
    unfold Tree.Slashless
    decide
  obtain ⟨-, base, texts, -, -, -, hlevels, hmanifest, hread, hcut, hlabels⟩ :=
    artifacts_list_same_files ringSite_sound hslashless h rfl (.inr rfl) hkeys (by decide)
  rw [f.text_eq.1, hroot] at hcut hlabels
  refine ⟨bundle, h, hkeys, List.reverse_injective hmanifest, hlevels, base, texts, hread, hcut,
    ?_⟩
  exact (hlabels (.top "A.sol") (by decide) (by decide)).2

end SolidityFlattener
