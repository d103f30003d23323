import SolidityFlattener.Imports.Candidate
import SolidityFlattener.Proofs.Outcomes
import SolidityFlattener.Proofs.Tree.Canonical

/-!
Files under their canonical paths.

A site is sound if it is one that a system can offer: entries have names of entries, and the
working directory is given by its canonical path. Then all canonical paths are plain, and a file
that is read by its canonical path stands at exactly the place that the path spells out.
-/

namespace SolidityFlattener

/-- A site that a system can offer. -/
structure Site.Sound (site : Site) : Prop where
  named : site.tree.Named
  cwd : site.tree.realPath true site.cwd (.ofLocation site.cwd) = .ok (.ofLocation site.cwd)

/-- The canonical path of a file: it leads through no link, is its own canonical path, and spells
out the place at which the file stands. -/
structure Site.CanonicalFile (site : Site) (p : Path) : Prop where
  absolute : p = .ofLocation p.parts
  plain : site.tree.Plain p.parts
  isFile : site.tree.isFile site.cwd p = .ok true
  realPath_eq : site.tree.realPath true site.cwd p = .ok p
  locate_eq : site.tree.locate .target site.cwd p = .ok p.parts

variable {site : Site} {p q root : Path} {place : Location} {text specifier : Text}

theorem Text.ofUtf8?_toUtf8 (text : Text) : Text.ofUtf8? text.toUtf8 = some text := by
  have hvalid : String.fromUTF8? text.toUtf8 = some (String.ofList text) :=
    dif_pos (String.ofList text).isValidUTF8
  rw [Text.ofUtf8?, hvalid, Option.map_some, String.toList_ofList]

namespace Tree

variable {t : Tree} {cwd : Location}

theorem exists_file_of_readText (h : t.readText cwd p = .ok text) :
    ∃ place content, t.locate .target cwd p = .ok place ∧
      t.lookup place = some (.file content) := by
  unfold readText at h
  obtain ⟨bytes, hbytes, -⟩ := bind_eq_ok_iff.1 h
  unfold readBytes at hbytes
  obtain ⟨entry, hentry, hfile⟩ := bind_eq_ok_iff.1 hbytes
  unfold find at hentry
  obtain ⟨place, hplace, hlookup⟩ := bind_eq_ok_iff.1 hentry
  cases entry with
  | directory => cases hfile
  | link target => cases hfile
  | file content =>
      refine ⟨place, content, hplace, ?_⟩
      split at hlookup
      · next found hfound => rw [hfound, Except.ok.inj hlookup]
      · cases hlookup

/-- A file that holds the bytes of a text is read as that text. -/
theorem readText_of_lookup (hplace : t.locate .target cwd p = .ok place)
    (hfile : t.lookup place = some (.file text.toUtf8)) :
    t.readText cwd p = .ok text.unifyBreaks := by
  simp [readText, readBytes, find, hplace, hfile, Text.ofUtf8?_toUtf8, bind, Except.bind]

theorem isFile_of_lookup {content : ByteArray} (hplace : t.locate .target cwd p = .ok place)
    (hfile : t.lookup place = some (.file content)) : t.isFile cwd p = .ok true := by
  simp [isFile, asks, find, hplace, hfile, bind, Except.bind]

end Tree

namespace Site

/-- All relative paths start from a plain location. -/
theorem Sound.plain_origin (hsound : site.Sound) (p : Path) :
    site.tree.Plain (p.origin site.cwd) := by
  unfold Path.origin
  split
  · exact .root
  · obtain ⟨place, heq, hplace⟩ :=
      Tree.exists_plain_of_realPath hsound.named site.cwd (p := .ofLocation site.cwd) .root
        hsound.cwd
    have hcwd : site.cwd = place := congrArg Path.parts heq
    rwa [hcwd]

theorem Sound.exists_plain_of_realPath (hsound : site.Sound)
    (h : site.tree.realPath true site.cwd p = .ok q) :
    ∃ place, q = .ofLocation place ∧ site.tree.Plain place :=
  Tree.exists_plain_of_realPath hsound.named site.cwd (hsound.plain_origin p) h

theorem Sound.nul_not_mem_of_realPath (hsound : site.Sound)
    (h : site.tree.realPath true site.cwd p = .ok q) :
    ∀ name ∈ p.parts, Char.ofNat 0 ∉ name := by
  obtain ⟨place, -, hreach⟩ :=
    Tree.canonical_of_realPath hsound.named site.cwd (hsound.plain_origin p) h
  exact Tree.nul_not_mem_of_canonical hreach

/-- The path that an import resolves to is the canonical one of the import's path. -/
theorem exists_realPath_of_resolveImport (h : resolveImport site p specifier = .ok q) :
    ∃ path, site.tree.realPath true site.cwd path = .ok q := by
  unfold resolveImport resolveImportWith at h
  split at h
  · cases h
  · next path hpath =>
    split at h
    · cases h
    · cases h
    · exact ⟨path, mapError_eq_ok_iff.1 h⟩

/-- What can be read by the canonical path of something is a file under its canonical path. -/
theorem Sound.canonicalFile (hsound : site.Sound)
    (hreal : site.tree.realPath true site.cwd p = .ok q)
    (hread : site.tree.readText site.cwd q = .ok text) : site.CanonicalFile q := by
  obtain ⟨place, rfl, hplain⟩ := hsound.exists_plain_of_realPath hreal
  obtain ⟨found, content, hfound, hfile⟩ := Tree.exists_file_of_readText hread
  obtain rfl : found = place := hplain.eq_of_locate hsound.named hfound
  exact {
    absolute := rfl
    plain := hplain
    isFile := Tree.isFile_of_lookup hfound hfile
    realPath_eq := hplain.realPath_ofLocation site.cwd
    locate_eq := hfound }

/-- A file has one canonical path. -/
theorem CanonicalFile.eq_of_locate (hp : site.CanonicalFile p) (hq : site.CanonicalFile q)
    (h : site.tree.locate .target site.cwd p = site.tree.locate .target site.cwd q) : p = q := by
  rw [hp.locate_eq, hq.locate_eq] at h
  rw [hp.absolute, hq.absolute, Except.ok.inj h]

/-- The canonical paths of files are among those of the entries. -/
theorem CanonicalFile.mem_entries (hp : site.CanonicalFile p) :
    p ∈ site.tree.entries.map fun e => Path.ofLocation e.1 := by
  obtain ⟨entry, hentry⟩ := Option.ne_none_iff_exists'.1 hp.plain.lookup_ne_none
  have hne : p.parts ≠ [] := by
    intro hroot
    have hfile := hp.isFile
    have hlocate := hp.locate_eq
    rw [hroot] at hlocate
    simp [Tree.isFile, Tree.asks, Tree.find, hlocate, Tree.lookup, bind, Except.bind] at hfile
  rw [hp.absolute]
  exact List.mem_map.2 ⟨_, Tree.mem_entries_of_lookup hentry hne, rfl⟩

end Site

end SolidityFlattener
