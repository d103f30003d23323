import SolidityFlattener.Proofs.Artifact.Reflattening
import SolidityFlattener.Proofs.Artifact.SourceContent
import SolidityFlattener.Proofs.Run.Flattening

/-!
Line breaks, read and written.

What is found in a source depends on its lines, so it is the same however they are ended. What is
written is lines with a separator between them, in the flat text and in the compiler sources alike.
So with another separator the same is written, but for that separator in the place of each line
feed; and where it is a carriage return with a line feed, neither of the two stands alone.
-/

namespace SolidityFlattener

namespace Text

variable {front back newline line : Text} {lines : List Text}

/-- A text in which carriage returns and line feeds stand in pairs only. -/
inductive Paired : Text → Prop
  | nil : Paired []
  | other {c : Char} {t : Text} : c ≠ '\r' → c ≠ '\n' → Paired t → Paired (c :: t)
  | pair {t : Text} : Paired t → Paired ('\r' :: '\n' :: t)

namespace Paired

theorem append (hfront : Paired front) (hback : Paired back) : Paired (front ++ back) := by
  induction hfront with
  | nil => exact hback
  | other hreturn hfeed _ ih => exact .other hreturn hfeed ih
  | pair _ ih => exact .pair ih

theorem of_oneLine (h : line.OneLine) : Paired line := by
  induction line with
  | nil => exact .nil
  | cons c line ih =>
      obtain ⟨⟨hreturn, hfeed⟩, hline⟩ := oneLine_cons.1 h
      exact .other hreturn hfeed (ih hline)

theorem intercalate (hlines : ∀ line ∈ lines, line.OneLine) :
    Paired (['\r', '\n'].intercalate lines) := by
  induction lines with
  | nil =>
      rw [List.intercalate_nil]
      exact .nil
  | cons line lines ih =>
      obtain ⟨hline, hrest⟩ := List.forall_mem_cons.1 hlines
      by_cases hnil : lines = []
      · rw [hnil, List.intercalate_singleton]
        exact of_oneLine hline
      · rw [List.intercalate_cons_of_ne_nil hnil]
        apply append
        · exact append (of_oneLine hline) (.pair .nil)
        · exact ih hrest

end Paired

/-- Lines joined at a separator are those joined at line feeds, written with the separator. -/
theorem rebreak_intercalate (newline : Text) (hlines : ∀ line ∈ lines, line.OneLine) :
    rebreak newline (['\n'].intercalate lines) = newline.intercalate lines := by
  by_cases hnil : lines = []
  · rw [hnil, List.intercalate_nil, List.intercalate_nil]
    rfl
  · rw [rebreak_eq, List.splitOn_intercalate '\n' (fun line hline => (hlines line hline).2) hnil]

end Text

/-! ### Reading -/

namespace Source

variable {text other : Text}

/-- Texts with the same lines are scanned alike. -/
theorem scan_congr (h : text.lines = other.lines) : scan text = scan other := by
  rw [scan, scan, h]

theorem bases_congr (h : text.lines = other.lines) : bases text = bases other := by
  rw [bases, bases, h]

end Source

/-! ### Writing -/

variable {r : Registry} {root n : Node} {base : Option Path} {line : Text}

/-- A registry of which nothing that is written for a root holds a part of a line break: no header
line and no body line, no name of an imported file, and no label. -/
structure Registry.Unbroken (r : Registry) (root : Path) (base : Option Path) : Prop where
  header : ∀ n ∈ r.nodes, ∀ line ∈ n.header, line.OneLine
  body : ∀ n ∈ r.nodes, ∀ line ∈ n.body, line.OneLine
  names : ∀ n ∈ r.nodes, ∀ p ∈ n.imports, p.name.OneLine
  labels : ∀ n ∈ r.nodes, n.path ≠ root → (label base n.path).OneLine

namespace Registry.Unbroken

theorem oneLine_of_mem_flatLines (h : r.Unbroken root.path base) (hroot : root ∈ r.nodes)
    (hline : line ∈ flatLines root r.nodes base) : line.OneLine := by
  rcases mem_flatLines hline with rfl | hline | hline | hline
  · exact Text.oneLine_nil
  · exact h.header root hroot line hline
  · rcases mem_otherLines hline with rfl | ⟨n, hn, hne, rfl | hline⟩
    · exact Text.oneLine_nil
    · exact oneLine_labelLine (h.labels n hn hne)
    · exact h.body n hn line hline
  · exact h.body root hroot line hline

theorem oneLine_of_mem_contentLines (h : r.Unbroken root.path base) (hn : n ∈ r.nodes)
    (hline : line ∈ contentLines n) : line.OneLine := by
  rcases mem_contentLines hline with rfl | hline | hline | hline
  · exact Text.oneLine_nil
  · exact h.header n hn line hline
  · obtain ⟨p, hp, rfl⟩ := mem_importLines hline
    exact oneLine_importLine (h.names n hn p hp)
  · exact h.body n hn line hline

theorem rebreak_flatText (h : r.Unbroken root.path base) (hroot : root ∈ r.nodes)
    (newline : Text) :
    Text.rebreak newline (flatText root r.nodes ['\n'] base) =
      flatText root r.nodes newline base := by
  rw [flatText_eq_joinLines, flatText_eq_joinLines]
  apply Text.rebreak_intercalate
  exact fun line => h.oneLine_of_mem_flatLines hroot

theorem rebreak_sourceContent (h : r.Unbroken root.path base) (hn : n ∈ r.nodes)
    (newline : Text) :
    Text.rebreak newline (sourceContent n ['\n']) = sourceContent n newline := by
  rw [sourceContent_eq_joinLines, sourceContent_eq_joinLines]
  apply Text.rebreak_intercalate
  exact fun line => h.oneLine_of_mem_contentLines hn

theorem paired_flatText (h : r.Unbroken root.path base) (hroot : root ∈ r.nodes) :
    Text.Paired (flatText root r.nodes ['\r', '\n'] base) := by
  rw [flatText_eq_joinLines]
  exact .intercalate fun line => h.oneLine_of_mem_flatLines hroot

theorem paired_sourceContent (h : r.Unbroken root.path base) (hn : n ∈ r.nodes) :
    Text.Paired (sourceContent n ['\r', '\n']) := by
  rw [sourceContent_eq_joinLines]
  exact .intercalate fun line => h.oneLine_of_mem_contentLines hn

end Registry.Unbroken

/-- How lines are ended makes no difference to what is read, and none but itself to what is written.
Lines joined at any kind of line break are the lines of the text, and a scan and the base types are
as for line feeds. A registry with levels, of which nothing that is written holds a part of a line
break, has a bundle for each of its files and each separator; with a carriage return and a line feed
the flat text and all compiler sources are those with line feeds, each of these written as the pair,
and neither of the pair stands alone in them. -/
theorem lineBreaks_interchangeable :
    (∀ lines : List Text, lines ≠ [] → (∀ line ∈ lines, line.OneLine) →
      ∀ newline, Text.IsLineBreak newline →
        Text.lines (newline.intercalate lines) = lines ∧
        Source.scan (newline.intercalate lines) = Source.scan (['\n'].intercalate lines) ∧
        Source.bases (newline.intercalate lines) = Source.bases (['\n'].intercalate lines)) ∧
    ∀ (r : Registry) (root : Node) (base : Option Path), root ∈ r.nodes →
      (∀ n ∈ r.nodes, n.level.isSome) → r.Unbroken root.path base →
        ∃ feeds pairs, Bundle.assemble r root.path ['\n'] base = .ok feeds ∧
          Bundle.assemble r root.path ['\r', '\n'] base = .ok pairs ∧
          pairs.flatText = Text.rebreak ['\r', '\n'] feeds.flatText ∧
          pairs.sources =
            feeds.sources.map (fun entry => (entry.1, Text.rebreak ['\r', '\n'] entry.2)) ∧
          Text.Paired pairs.flatText ∧ ∀ entry ∈ pairs.sources, Text.Paired entry.2 := by
  constructor
  · intro lines hne hlines newline hnewline
    have hread : ∀ {newline}, Text.IsLineBreak newline →
        Text.lines (newline.intercalate lines) = lines :=
      fun h => Text.lines_intercalate_of_isLineBreak h hlines hne
    have hsame : Text.lines (newline.intercalate lines) =
        Text.lines (['\n'].intercalate lines) :=
      (hread hnewline).trans (hread (.inl (.inl rfl))).symm
    exact ⟨hread hnewline, Source.scan_congr hsame, Source.bases_congr hsame⟩
  · intro r root base hroot hlevels h
    obtain ⟨feeds, hfeeds⟩ := Bundle.exists_assemble hroot hlevels ['\n'] base
    obtain ⟨pairs, hpairs⟩ := Bundle.exists_assemble hroot hlevels ['\r', '\n'] base
    refine ⟨feeds, pairs, hfeeds, hpairs, ?_⟩
    have hget : r.get? root.path = some root := Registry.get?_path hroot
    obtain ⟨_, node, -, hnode, rfl⟩ := Bundle.assemble_eq_ok_iff.1 hfeeds
    obtain ⟨_, node', -, hnode', rfl⟩ := Bundle.assemble_eq_ok_iff.1 hpairs
    obtain rfl := Option.some.inj (hget.symm.trans hnode)
    obtain rfl := Option.some.inj (hget.symm.trans hnode')
    refine ⟨(h.rebreak_flatText hroot _).symm, ?_, h.paired_flatText hroot, ?_⟩
    · rw [List.map_map]
      refine List.map_congr_left fun n hn => ?_
      rw [Function.comp_apply, h.rebreak_sourceContent hn]
    · intro entry hentry
      obtain ⟨n, hn, rfl⟩ := List.mem_map.1 hentry
      exact h.paired_sourceContent hn

/-- Lines of a source with an import and a base type, empty ones at both ends. -/
def brokenLines : List Text :=
  [[], "import './L.sol';".toList, "contract R is L \x7b".toList, "\x7d".toList, []]

theorem unbroken_leveledPair : leveledPair.Unbroken (.top "R.sol") none :=
  ⟨by decide, by decide, by decide, by decide⟩

theorem lineBreaks_of_pair :
    (Text.lines (['\r'].intercalate brokenLines) = brokenLines ∧
      (Source.scan (['\r'].intercalate brokenLines)).specifiers = ["./L.sol".toList] ∧
      Source.bases (['\r', '\n'].intercalate brokenLines) = ["L".toList]) ∧
    ∃ feeds pairs, Bundle.assemble leveledPair (.top "R.sol") ['\n'] none = .ok feeds ∧
      Bundle.assemble leveledPair (.top "R.sol") ['\r', '\n'] none = .ok pairs ∧
      pairs.flatText = Text.rebreak ['\r', '\n'] feeds.flatText ∧ Text.Paired pairs.flatText := by
  obtain ⟨hread, hwritten⟩ := lineBreaks_interchangeable
  have hne : brokenLines ≠ [] := by decide
  have hlines : ∀ line ∈ brokenLines, line.OneLine := by decide
  constructor
  · obtain ⟨hgiven, hscan, -⟩ := hread brokenLines hne hlines ['\r'] (.inr rfl)
    obtain ⟨-, -, hbases⟩ := hread brokenLines hne hlines ['\r', '\n'] (.inl (.inr rfl))
    refine ⟨hgiven, ?_, ?_⟩
    · rw [hscan]
      decide +kernel
    · rw [hbases]
      decide +kernel
  · obtain ⟨feeds, pairs, hfeeds, hpairs, htext, -, hpaired, -⟩ :=
      hwritten leveledPair (pairRoot (some 1)) none (by decide) (by decide) unbroken_leveledPair
    exact ⟨feeds, pairs, hfeeds, hpairs, htext, hpaired⟩

end SolidityFlattener
