import SolidityFlattener.Proofs.Graph.Relabelling
import SolidityFlattener.Proofs.Run.Flattening
import SolidityFlattener.Proofs.Tree.Straight

/-!
Projects that stand below another directory.

A registry whose paths all lie below one directory is moved below another by putting the one in the
place of the other in front of each path. Order and levels do not change, nor do compiler sources,
which name files by their last components. A label does not change either where it is made relative
to the moved base; the label of a file that does not lie at or below the base is the whole path and
moves with it.
-/

namespace SolidityFlattener

variable {top here there : Location} {p q base : Path} {n root : Node} {files : List Node}
  {newline : Text}

/-! ### Paths below a directory -/

namespace Path

/-- A path leads to a directory or below it. -/
def Under (top : Location) (p : Path) : Prop := p.anchor = .root ∧ top <+: p.parts

/-- A path leads below a directory. -/
structure Below (top : Location) (p : Path) : Prop where
  under : p.Under top
  apart : p.parts ≠ top

/-- A path with one directory in front put in the place of another. -/
def moved (here there : Location) (p : Path) : Path := ⟨p.anchor, there ++ p.parts.drop here.length⟩

@[simp] theorem moved_ofLocation (here there rest : Location) :
    (ofLocation (here ++ rest)).moved here there = .ofLocation (there ++ rest) := by
  simp [moved, ofLocation]

theorem under_iff : p.Under top ↔ ∃ rest, p = .ofLocation (top ++ rest) := by
  obtain ⟨anchor, parts⟩ := p
  constructor
  · rintro ⟨rfl : anchor = .root, rest, rfl⟩
    exact ⟨rest, rfl⟩
  · rintro ⟨rest, ⟨⟩⟩
    exact ⟨rfl, List.prefix_append top rest⟩

theorem below_iff : p.Below top ↔ ∃ rest, rest ≠ [] ∧ p = .ofLocation (top ++ rest) := by
  constructor
  · rintro ⟨hunder, hapart⟩
    obtain ⟨rest, rfl⟩ := under_iff.1 hunder
    refine ⟨rest, ?_, rfl⟩
    rintro rfl
    exact hapart (List.append_nil top)
  · rintro ⟨rest, hne, rfl⟩
    exact ⟨under_iff.2 ⟨rest, rfl⟩, by simpa [ofLocation] using hne⟩

theorem injOn_moved (here there : Location) : Set.InjOn (moved here there) {p | p.Below here} := by
  intro p hp q hq heq
  obtain ⟨rest, rfl⟩ := under_iff.1 hp.under
  obtain ⟨rest', rfl⟩ := under_iff.1 hq.under
  rw [moved_ofLocation, moved_ofLocation] at heq
  have hrest : there ++ rest = there ++ rest' := congrArg Path.parts heq
  rw [List.append_cancel_left hrest]

theorem Below.moved (h : p.Below here) (there : Location) : (p.moved here there).Below there := by
  obtain ⟨rest, hne, rfl⟩ := below_iff.1 h
  exact below_iff.2 ⟨rest, hne, moved_ofLocation here there rest⟩

/-- A file keeps its name. -/
theorem Below.name_moved (h : p.Below here) (there : Location) :
    (p.moved here there).name = p.name := by
  obtain ⟨rest, hne, rfl⟩ := below_iff.1 h
  obtain ⟨above, last, rfl⟩ := rest.eq_nil_or_concat.resolve_left hne
  have hname : ∀ front : Location, (ofLocation (front ++ above.concat last)).name = last := by
    intro front
    rw [List.concat_eq_append, ← List.append_assoc]
    exact name_append_singleton .root (front ++ above) last
  rw [moved_ofLocation, hname, hname]

/-- Seen from a base that moves along, a path stays as it is. -/
theorem relativeTo?_moved (hp : p.Under here) (hbase : base.Under here) (there : Location) :
    (p.moved here there).relativeTo? (base.moved here there) = p.relativeTo? base := by
  obtain ⟨rest, rfl⟩ := under_iff.1 hp
  obtain ⟨inner, rfl⟩ := under_iff.1 hbase
  ext q
  rw [relativeTo?_eq_some_iff, relativeTo?_eq_some_iff, moved_ofLocation, moved_ofLocation]
  simp [ofLocation]

theorem relativeTo?_isSome_iff (hp : p.Under here) (hbase : base.Under here) :
    (p.relativeTo? base).isSome ↔ base.parts <+: p.parts := by
  obtain ⟨rest, rfl⟩ := under_iff.1 hp
  obtain ⟨inner, rfl⟩ := under_iff.1 hbase
  rw [Option.isSome_iff_exists]
  constructor
  · rintro ⟨q, hq⟩
    obtain ⟨-, hparts⟩ := relativeTo?_eq_some_iff.1 hq
    exact ⟨q.parts, (congrArg Path.parts hparts).symm⟩
  · rintro ⟨below, hbelow⟩
    exact ⟨⟨.relative, below⟩, relativeTo?_eq_some_iff.2 ⟨rfl, congrArg ofLocation hbelow.symm⟩⟩

end Path

/-! ### Registries below a directory -/

namespace Registry

variable {r : Registry}

/-- All paths of a registry, those of its files and those they require, lead below a directory. -/
def Below (top : Location) (r : Registry) : Prop := r.Within {p | p.Below top}

/-- A registry below one directory with everything moved below another. -/
def moved (here there : Location) (r : Registry) (h : r.Below here) : Registry :=
  r.relabel (Path.moved here there) (h.injOn_paths (Path.injOn_moved here there))

theorem Below.path (h : r.Below top) (hn : n ∈ r.nodes) : n.path.Below top := (h n hn).path

end Registry

/-! ### Texts of a moved project -/

/-- The flat text of a root over files in order, with a label given for each other file. -/
def labelledText (root : Node) (files : List Node) (newline : Text) (labels : Path → Text) : Text :=
  joinLines newline <|
    [joinLines newline root.header, []] ++
      (files.filter fun n => n.path != root.path).flatMap (fun n =>
        ["//File: [".toList ++ labels n.path ++ [']'], [], joinLines newline n.body, []]) ++
      [joinLines newline root.body]

theorem flatText_eq_labelledText (root : Node) (files : List Node) (newline : Text)
    (base : Option Path) :
    flatText root files newline base = labelledText root files newline (label base) := rfl

/-- A label made after a move: the path as seen from the base, where that did not change, and else
the moved path. -/
def movedLabel (here there : Location) (base p : Path) : Text :=
  match p.relativeTo? base with
  | some below => below.text
  | none => (p.moved here there).text

theorem label_moved (hp : p.Under here) (hbase : base.Under here) (there : Location) :
    label (some (base.moved here there)) (p.moved here there) = movedLabel here there base p := by
  rw [label, Option.bind_some, Path.relativeTo?_moved hp hbase, movedLabel]
  cases p.relativeTo? base <;> rfl

/-- The label of a file at or below the base does not show where the project stands. -/
theorem movedLabel_eq_label (hp : p.Under here) (hbase : base.Under here)
    (hinside : base.parts <+: p.parts) :
    movedLabel here there base p = label (some base) p := by
  obtain ⟨q, hq⟩ :=
    Option.isSome_iff_exists.1 ((Path.relativeTo?_isSome_iff hp hbase).2 hinside)
  rw [movedLabel, label, Option.bind_some, hq]
  rfl

theorem sourceContent_moved (hn : n.Within {p | p.Below here}) (there : Location) (newline : Text) :
    sourceContent (n.relabel (Path.moved here there)) newline = sourceContent n newline := by
  have himports : shortImports (n.relabel (Path.moved here there)) newline =
      shortImports n newline := by
    rw [shortImports, shortImports, Node.relabel_imports, List.map_map]
    refine congrArg _ (List.map_congr_left fun p hp => ?_)
    have hbelow : p.Below here := hn.requires .imports p hp
    rw [Function.comp_apply, hbelow.name_moved]
  rw [sourceContent, himports]
  rfl

theorem flatText_moved (hfiles : ∀ n ∈ files, n.path.Below here) (hroot : root.path.Below here)
    (hbase : base.Under here) (there : Location) (newline : Text) :
    flatText (root.relabel (Path.moved here there))
        (files.map (Node.relabel (Path.moved here there))) newline
        (some (base.moved here there)) =
      labelledText root files newline (movedLabel here there base) := by
  have hothers : (files.map (Node.relabel (Path.moved here there))).filter
        (fun n => n.path != (root.relabel (Path.moved here there)).path) =
      (files.filter fun n => n.path != root.path).map (Node.relabel (Path.moved here there)) := by
    rw [List.filter_map]
    refine congrArg _ (List.filter_congr fun n hn => ?_)
    have hsame := (Path.injOn_moved here there).eq_iff (hfiles n hn) hroot
    rw [Function.comp_apply, Bool.eq_iff_iff, bne_iff_ne, bne_iff_ne]
    exact not_congr hsame
  have hblocks : ∀ n ∈ files.filter fun n => n.path != root.path,
      dependencyBlocks newline (some (base.moved here there))
          (n.relabel (Path.moved here there)) =
        ["//File: [".toList ++ movedLabel here there base n.path ++ [']'], [],
          joinLines newline n.body, []] := by
    intro n hn
    have hlabel := label_moved (hfiles n (List.mem_filter.1 hn).1).under hbase there
    rw [dependencyBlocks, Node.relabel_path, hlabel]
    rfl
  rw [flatText, hothers, List.flatMap_map, labelledText]
  simp only [Node.relabel_header, Node.relabel_body, List.flatMap_congr hblocks]

theorem labelledText_congr {labels labels' : Path → Text}
    (h : ∀ n ∈ files, n.path ≠ root.path → labels n.path = labels' n.path) :
    labelledText root files newline labels = labelledText root files newline labels' := by
  have hblocks : ∀ n ∈ files.filter fun n => n.path != root.path,
      ["//File: [".toList ++ labels n.path ++ [']'], [], joinLines newline n.body, []] =
        ["//File: [".toList ++ labels' n.path ++ [']'], [], joinLines newline n.body, []] := by
    intro n hn
    obtain ⟨hmem, hne⟩ := List.mem_filter.1 hn
    rw [h n hmem (by simpa using hne)]
  rw [labelledText, labelledText, List.flatMap_congr hblocks]

/-! ### The artifacts of a moved project -/

namespace Registry

variable {ρ : Path → Path} {r : Registry} {ascending : List Node}
  {hpaths : Set.InjOn ρ {p | p ∈ r.paths}}

theorem level_isSome_of_assignLevels {leveled : Registry} {returned : List Node}
    (h : r.assignLevels = (leveled, .ok returned)) : ∀ n ∈ leveled.nodes, n.level.isSome := by
  have hlevel : r.level = .ok leveled := by
    rw [level_eq_assignLevels, h]
    rfl
  obtain ⟨order, -, hnodes⟩ := exists_order_of_level hlevel
  exact level_isSome_of_nodes_eq hnodes

/-- Files under other paths come in the same order by level. -/
theorem byLevel_relabel (hlevels : ∀ n ∈ r.nodes, n.level.isSome)
    (h : r.byLevel = .ok ascending) :
    (r.relabel ρ hpaths).byLevel = .ok (ascending.map (Node.relabel ρ)) := by
  obtain rfl := Except.ok.inj ((byLevel_eq_mergeSort hlevels).symm.trans h)
  have hsorted : (r.nodes.mergeSort fun a b => a.level.getD 0 ≤ b.level.getD 0).map
        (Node.relabel ρ) =
      (r.nodes.map (Node.relabel ρ)).mergeSort fun a b => a.level.getD 0 ≤ b.level.getD 0 :=
    List.map_mergeSort fun a _ b _ => rfl
  rw [byLevel_eq_mergeSort (by simpa using hlevels), nodes_relabel, hsorted]

end Registry

/-- The bundle of a project with levels, and the bundle of the same project below another
directory. -/
theorem Bundle.assemble_moved {r : Registry} (hr : r.Below here)
    (hlevels : ∀ n ∈ r.nodes, n.level.isSome) (hroot : root ∈ r.nodes) (hbase : base.Under here)
    (there : Location) (newline : Text) :
    ∃ bundle, assemble r root.path newline (some base) = .ok bundle ∧
      bundle.flatText = labelledText root r.nodes newline (label (some base)) ∧
      assemble (r.moved here there hr) (root.path.moved here there) newline
          (some (base.moved here there)) = .ok {
        root := bundle.root.moved here there
        manifest := bundle.manifest.map fun entry => (entry.1.moved here there, entry.2)
        flatText := labelledText root r.nodes newline (movedLabel here there base)
        sources := bundle.sources.map fun entry => (entry.1.moved here there, entry.2) } := by
  obtain ⟨bundle, hbundle⟩ := exists_assemble hroot hlevels newline (some base)
  obtain ⟨ascending, node, hascending, hnode, rfl⟩ := assemble_eq_ok_iff.1 hbundle
  obtain rfl : root = node := Option.some.inj ((Registry.get?_path hroot).symm.trans hnode)
  have hmoved : root.relabel (Path.moved here there) ∈ (r.moved here there hr).nodes :=
    List.mem_map_of_mem hroot
  refine ⟨_, hbundle, flatText_eq_labelledText _ _ _ _, assemble_eq_ok_iff.2 ⟨_, _,
    Registry.byLevel_relabel hlevels hascending,
    Registry.get?_path hmoved, ?_⟩⟩
  have hfiles : ∀ n ∈ r.nodes, n.path.Below here := fun n hn => hr.path hn
  have htext := flatText_moved hfiles (hr.path hroot) hbase there newline
  have hsources : ∀ n ∈ r.nodes,
      ((n.relabel (Path.moved here there)).path,
          sourceContent (n.relabel (Path.moved here there)) newline) =
        (n.path.moved here there, sourceContent n newline) :=
    fun n hn => by rw [sourceContent_moved (hr n hn), Node.relabel_path]
  simp only [Registry.moved, Registry.nodes_relabel, htext, List.map_map, Node.relabel_path,
    Bundle.mk.injEq, true_and]
  exact ⟨rfl, (List.map_congr_left hsources).symm⟩

/-- Below a directory that no link leads to, a base is its own canonical path. -/
theorem Tree.LinkFree.realPath_ofLocation {t : Tree} {cwd place : Location} (h : t.LinkFree)
    (hnames : ∀ name ∈ place, Tree.IsEntryName name ∧ Char.ofNat 0 ∉ name) :
    t.realPath false cwd (.ofLocation place) = .ok (.ofLocation place) := by
  have hstraight : Tree.straight [] place = place :=
    Tree.straight_of_isEntryName (fun name hname => (hnames name hname).1) []
  have hreach : t.canonical false t.links ((Path.ofLocation place).origin cwd) place =
      .ok (.place (Tree.straight [] place)) :=
    h.canonical_false_eq_straight
      (fun name hname => ⟨(hnames name hname).1.1, (hnames name hname).2⟩) []
  rw [hstraight] at hreach
  unfold realPath
  rw [show (Path.ofLocation place).parts = place from rfl, hreach]
  rfl

/-- A registry whose paths all lie below one directory is levelled there as it is below any other:
either the same files are stuck in both places, or both have the same order and the same levels, and
the same artifacts of any root up to where they say that the files are. The manifest and the
compiler sources have the moved paths in place of the others, with the same levels and contents. The
flat text is the same but for the labels of files that do not lie at or below the base of labels,
which are their whole paths, so it is the same where there are no such files but the root. A base
that no link leads to resolves to itself in both places. -/
theorem artifacts_of_moved {r : Registry} (hr : r.Below here) (hbase : base.Under here)
    (there : Location) :
    ((∀ name ∈ there ++ base.parts, Tree.IsEntryName name ∧ Char.ofNat 0 ∉ name) →
      ∀ (t : Tree) (cwd : Location), t.LinkFree → t.realPath false cwd base = .ok base ∧
        t.realPath false cwd (base.moved here there) = .ok (base.moved here there)) ∧
    ((∃ remaining, r.assignLevels = (r, .error (.cyclic remaining)) ∧
        (r.moved here there hr).assignLevels =
          (r.moved here there hr,
            .error (.cyclic (remaining.map (Unmet.relabel (Path.moved here there)))))) ∨
      ∃ leveled, ∃ hleveled : leveled.Below here,
        r.assignLevels = (leveled, .ok leveled.nodes) ∧
        (r.moved here there hr).assignLevels =
          (leveled.moved here there hleveled,
            .ok (leveled.nodes.map (Node.relabel (Path.moved here there)))) ∧
        ∀ root ∈ leveled.nodes, ∀ newline, ∃ bundle text,
          Bundle.assemble leveled root.path newline (some base) = .ok bundle ∧
          Bundle.assemble (leveled.moved here there hleveled) (root.path.moved here there) newline
              (some (base.moved here there)) = .ok {
            root := bundle.root.moved here there
            manifest := bundle.manifest.map fun entry => (entry.1.moved here there, entry.2)
            flatText := text
            sources := bundle.sources.map fun entry => (entry.1.moved here there, entry.2) } ∧
          bundle.flatText = labelledText root leveled.nodes newline (label (some base)) ∧
          text = labelledText root leveled.nodes newline (movedLabel here there base) ∧
          ((∀ n ∈ leveled.nodes, n.path ≠ root.path → base.parts <+: n.path.parts) →
            text = bundle.flatText)) := by
  refine ⟨fun hnames t cwd hlinks => ?_, ?_⟩
  · obtain ⟨inner, rfl⟩ := Path.under_iff.1 hbase
    have hinner : ∀ name ∈ inner, Tree.IsEntryName name ∧ Char.ofNat 0 ∉ name := fun name hname =>
      hnames name (List.mem_append_right there (List.mem_append_right here hname))
    rw [Path.moved_ofLocation]
    refine ⟨hlinks.realPath_ofLocation fun name hname => ?_,
      hlinks.realPath_ofLocation fun name hname => ?_⟩
    · exact hnames name (List.mem_append_right there hname)
    · exact (List.mem_append.1 hname).elim
        (fun hthere => hnames name (List.mem_append_left _ hthere)) (hinner name)
  · rcases Registry.assignLevels_relabel (Path.injOn_moved here there) hr with
      hstuck | ⟨leveled, hassign, hleveled, hmoved⟩
    · exact .inl hstuck
    · refine .inr ⟨leveled, hleveled, hassign, hmoved _, fun root hroot newline => ?_⟩
      obtain ⟨bundle, hbundle, htext, hbundle'⟩ := Bundle.assemble_moved hleveled
        (Registry.level_isSome_of_assignLevels hassign) hroot hbase there newline
      refine ⟨bundle, _, hbundle, hbundle', htext, rfl, fun hinside => ?_⟩
      rw [htext]
      exact labelledText_congr fun n hn hne =>
        movedLabel_eq_label (Registry.Below.path hleveled hn).under hbase (hinside n hn hne)

/-- A root that imports a file in another directory. -/
def yardRoot : Node :=
  { Node.ofPath (.ofLocation ["p".toList, "src".toList, "R.sol".toList]) with
    imports := [.ofLocation ["p".toList, "lib".toList, "A.sol".toList]], level := some 1 }

/-- The root with the file that it imports, levelled. -/
def yard : Registry where
  nodes := [
    { Node.ofPath (.ofLocation ["p".toList, "lib".toList, "A.sol".toList]) with
      body := ["contract A {}".toList], level := some 2 },
    yardRoot]
  nodup_paths := by decide

theorem below_yard : yard.Below ["p".toList] := by
  intro n hn
  simp only [yard, List.mem_cons, List.not_mem_nil, or_false] at hn
  rcases hn with rfl | rfl
  · refine ⟨Path.below_iff.2 ⟨["lib".toList, "A.sol".toList], by simp, rfl⟩, fun kind p hp => ?_⟩
    cases kind <;> exact absurd hp List.not_mem_nil
  · refine ⟨Path.below_iff.2 ⟨["src".toList, "R.sol".toList], by simp, rfl⟩, fun kind p hp => ?_⟩
    cases kind
    · obtain rfl := List.mem_singleton.1 hp
      exact Path.below_iff.2 ⟨["lib".toList, "A.sol".toList], by simp, rfl⟩
    · exact absurd hp List.not_mem_nil

theorem assignLevels_yard : yard.assignLevels = (yard, .ok yard.nodes) := by
  have horder : yard.order = .ok yard.nodes := by cbv
  obtain ⟨leveled, hlevel, hassign⟩ := Registry.assignLevels_of_ok horder
  obtain ⟨order, hother, hnodes⟩ := Registry.exists_order_of_level hlevel
  obtain rfl := Except.ok.inj (horder.symm.trans hother)
  obtain rfl : leveled = yard := Registry.ext (hnodes.trans (by decide))
  exact hassign

theorem yardRoot_mem : yardRoot ∈ yard.nodes := by decide

theorem under_yard (inner : Location) :
    (Path.ofLocation ("p".toList :: inner)).Under ["p".toList] :=
  Path.under_iff.2 ⟨inner, rfl⟩

theorem artifacts_of_moved_yard :
    yard.Below ["p".toList] ∧ (Path.ofLocation ["p".toList]).Under ["p".toList] ∧
      (∀ (t : Tree) (cwd : Location), t.LinkFree →
        t.realPath false cwd (.ofLocation ["q".toList]) = .ok (.ofLocation ["q".toList])) ∧
      ∃ bundle text,
        Bundle.assemble yard yardRoot.path ['\n'] (some (.ofLocation ["p".toList])) =
          .ok bundle ∧
        Bundle.assemble (yard.moved ["p".toList] ["q".toList] below_yard)
            (.ofLocation ["q".toList, "src".toList, "R.sol".toList]) ['\n']
            (some (.ofLocation ["q".toList])) = .ok {
          root := bundle.root.moved ["p".toList] ["q".toList]
          manifest := bundle.manifest.map fun entry =>
            (entry.1.moved ["p".toList] ["q".toList], entry.2)
          flatText := text
          sources := bundle.sources.map fun entry =>
            (entry.1.moved ["p".toList] ["q".toList], entry.2) } ∧
        text = bundle.flatText ∧
        text = "\n\n//File: [lib/A.sol]\n\ncontract A {}\n\n".toList := by
  have hnames : ∀ name ∈ ["q".toList, "p".toList],
      Tree.IsEntryName name ∧ Char.ofNat 0 ∉ name := by
    unfold Tree.IsEntryName
    decide
  obtain ⟨hresolve, ⟨remaining, hstuck, -⟩ | ⟨leveled, hleveled, hassign, -, hartifacts⟩⟩ :=
    artifacts_of_moved below_yard (under_yard []) ["q".toList]
  · cases assignLevels_yard.symm.trans hstuck
  · obtain rfl : yard = leveled := congrArg Prod.fst (assignLevels_yard.symm.trans hassign)
    obtain ⟨bundle, text, hbundle, hmoved, htext, -, hsame⟩ :=
      hartifacts yardRoot yardRoot_mem ['\n']
    have hinside := hsame (by decide)
    refine ⟨below_yard, under_yard [], fun t cwd hlinks => (hresolve hnames t cwd hlinks).2,
      bundle, text, hbundle, hmoved, hinside, ?_⟩
    rw [hinside, htext]
    decide

/-- With a base beside the imported file, its label is its whole path, which shows where the project
stands. -/
theorem flatText_of_moved_ne :
    yard.Below ["p".toList] ∧
      (Path.ofLocation ["p".toList, "src".toList]).Under ["p".toList] ∧
      yard.assignLevels = (yard, .ok yard.nodes) ∧
      ∃ bundle moved,
        Bundle.assemble yard yardRoot.path ['\n']
            (some (.ofLocation ["p".toList, "src".toList])) = .ok bundle ∧
        Bundle.assemble (yard.moved ["p".toList] ["q".toList] below_yard)
            (yardRoot.path.moved ["p".toList] ["q".toList]) ['\n']
            (some ((Path.ofLocation ["p".toList, "src".toList]).moved ["p".toList] ["q".toList])) =
          .ok moved ∧
        bundle.flatText = "\n\n//File: [/p/lib/A.sol]\n\ncontract A {}\n\n".toList ∧
        moved.flatText = "\n\n//File: [/q/lib/A.sol]\n\ncontract A {}\n\n".toList ∧
        bundle.flatText ≠ moved.flatText := by
  refine ⟨below_yard, under_yard ["src".toList], assignLevels_yard, ?_⟩
  obtain ⟨bundle, hbundle, htext, hmoved⟩ := Bundle.assemble_moved below_yard (by decide)
    yardRoot_mem (under_yard ["src".toList]) ["q".toList] ['\n']
  have hbefore : bundle.flatText =
      "\n\n//File: [/p/lib/A.sol]\n\ncontract A {}\n\n".toList := by
    rw [htext]
    decide
  have hafter : labelledText yardRoot yard.nodes ['\n'] (movedLabel ["p".toList] ["q".toList]
      (.ofLocation ["p".toList, "src".toList])) =
        "\n\n//File: [/q/lib/A.sol]\n\ncontract A {}\n\n".toList := by decide
  refine ⟨bundle, _, hbundle, hmoved, hbefore, hafter, fun hsame => ?_⟩
  exact absurd (hbefore.symm.trans (hsame.trans hafter)) (by decide)

end SolidityFlattener
