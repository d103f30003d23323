import SolidityFlattener.Proofs.Imports.FirstFailure
import SolidityFlattener.Proofs.Tree.Lookups

/-!
One search on two sites.

Loading a file looks up the way to the file and, for each of its imports as long as the ones before
lead somewhere, the way to what the import names. Two sites on which these are the same load the
file alike. And a search is the same on two sites that load alike each file that it comes to: these
are the files of the breadth-first order up to the first one that cannot be loaded.
-/

namespace SolidityFlattener

variable {site site' : Site} {t t' : Tree} {cwd : Location} {packageRoot : Option Path}
  {extractor : Source.Extractor} {weight : Weight} {root p q : Path} {specifier : Text}
  {depth : Int}

namespace Site

/-! ### One file -/

/-- An import of a file that loading the file comes to: all before it lead somewhere. -/
def Tries (site : Site) (extractor : Source.Extractor) (p : Path) (specifier : Text) : Prop :=
  ∃ text before after, site.tree.readText site.cwd p = .ok text ∧
    (extractor.scan text).specifiers = before ++ specifier :: after ∧
      ∀ other ∈ before, ∃ q, resolveImport site p other = .ok q

/-- The locations that loading a file looks up. -/
inductive LooksUp (site : Site) (extractor : Source.Extractor) (p : Path) : Location → Prop
  | text {place : Location} :
      place ∈ site.tree.locateLookups .target site.cwd p → LooksUp site extractor p place
  | candidate {specifier : Text} {path : Path} {place : Location} :
      site.Tries extractor p specifier → candidate? p specifier site.packageRoot = some path →
        place ∈ site.tree.locateLookups .target site.cwd path → LooksUp site extractor p place
  | target {specifier : Text} {path : Path} {place : Location} :
      site.Tries extractor p specifier → candidate? p specifier site.packageRoot = some path →
        site.tree.isFile site.cwd path = .ok true →
          place ∈ site.tree.realPathLookups true site.cwd path → LooksUp site extractor p place

theorem resolveImport_congr (hlinks : t'.links = t.links)
    (hcandidate : ∀ path, candidate? p specifier packageRoot = some path →
      ∀ place ∈ t.locateLookups .target cwd path, t'.shapeAt place = t.shapeAt place)
    (htarget : ∀ path, candidate? p specifier packageRoot = some path →
      t.isFile cwd path = .ok true →
        ∀ place ∈ t.realPathLookups true cwd path, t'.shapeAt place = t.shapeAt place) :
    resolveImport ⟨t', cwd, packageRoot⟩ p specifier =
      resolveImport ⟨t, cwd, packageRoot⟩ p specifier := by
  unfold resolveImport resolveImportWith
  cases hpath : candidate? p specifier packageRoot with
  | none => rfl
  | some path =>
      simp only [Tree.isFile_congr (hcandidate path hpath)]
      cases hfile : t.isFile cwd path with
      | error fault => rfl
      | ok present =>
          cases present with
          | false => rfl
          | true => simp only [Tree.realPath_congr hlinks (htarget path hpath hfile)]

/-- What a file is loaded as depends on what loading it looks up, and on the text that it reads. -/
theorem loadNode_congr (hlinks : t'.links = t.links)
    (h : ∀ place, Site.LooksUp ⟨t, cwd, packageRoot⟩ extractor p place →
      t'.shapeAt place = t.shapeAt place)
    (hread : ∀ place, t.locate .target cwd p = .ok place → t'.lookup place = t.lookup place)
    (depth : Int) :
    loadNode ⟨t', cwd, packageRoot⟩ extractor p depth =
      loadNode ⟨t, cwd, packageRoot⟩ extractor p depth := by
  unfold loadNode
  simp only [Tree.readText_congr (fun place hplace => h place (.text hplace)) hread]
  cases htext : t.readText cwd p with
  | error fault => cases fault <;> rfl
  | ok text =>
      refine (foldlM_congr_of_ok fun before specifier after hsplit hbefore => ?_).symm
      have htries : Site.Tries ⟨t, cwd, packageRoot⟩ extractor p specifier :=
        ⟨text, before, after, htext, hsplit, hbefore⟩
      exact (resolveImport_congr hlinks
        (fun path hpath place hplace => h place (.candidate htries hpath hplace))
        fun path hpath hfile place hplace => h place (.target htries hpath hfile hplace)).symm

end Site

/-! ### One search -/

namespace Search

variable {s : Search} {visited rest : List Path} {n : Node} {rounds : ℕ} {r : Registry}
  {trace trace' : Trace Registry}

/-- Whether an import is new does not depend on the site. -/
theorem follow_congr (h : q ∉ s.registry.paths →
      loadNode site' extractor q (depth + 1) = loadNode site extractor q (depth + 1)) :
    follow site' extractor weight depth s q = follow site extractor weight depth s q := by
  unfold follow
  rw [Registry.raiseDepth?_eq]
  by_cases hq : q ∈ s.registry.paths
  · simp only [hq, if_true]
  · simp only [hq, if_false, h hq]

theorem Ordered.visit_congr (h : Ordered site extractor root visited s)
    (hexplored : Explored site extractor root s.queue s.registry) (hqueue : s.queue = p :: rest)
    (hload : ∀ q, site.Meets extractor root q → ∀ depth,
      loadNode site' extractor q depth = loadNode site extractor q depth) :
    Search.visit site' extractor weight { s with queue := rest } p =
      Search.visit site extractor weight { s with queue := rest } p := by
  obtain ⟨n, hn, rfl⟩ := Registry.mem_paths.1 (hexplored.queued p (by simp [hqueue]))
  have hget := Registry.get?_path hn
  unfold Search.visit
  simp only [hget]
  refine Trace.bind_congr fun _ _ => (Trace.foldlM_congr ?_).symm
  intro before q after s' himports hbefore
  refine (follow_congr fun hnew => ?_).symm
  exact hload q (h.meets_of_visit hexplored hqueue hn himports hbefore hnew) _

theorem Ordered.run_congr (weight : Weight) (rounds : ℕ)
    (h : Ordered site extractor root visited s)
    (hexplored : Explored site extractor root s.queue s.registry)
    (hload : ∀ q, site.Meets extractor root q → ∀ depth,
      loadNode site' extractor q depth = loadNode site extractor q depth) :
    run site' extractor weight rounds s = run site extractor weight rounds s := by
  induction rounds generalizing visited s with
  | zero => rfl
  | succ rounds ih =>
      unfold run
      split
      · rfl
      · next p rest hqueue =>
        rw [h.visit_congr hexplored hqueue hload]
        refine Trace.bind_congr fun s' hvisit => ?_
        have hordered := h.visit hexplored hqueue hvisit
        rw [hqueue] at hexplored
        exact ih hordered (hexplored.visit hvisit).1

/-- Visits until the queue is empty can go in one way only. -/
theorem Completes.unique (h : Completes site extractor weight s trace)
    (h' : Completes site extractor weight s trace') : trace = trace' := by
  induction h generalizing trace' with
  | done hqueue =>
      cases h' with
      | done => rfl
      | failed hqueue' => simp [hqueue] at hqueue'
      | next hqueue' => simp [hqueue] at hqueue'
  | failed hqueue hvisit =>
      cases h' with
      | done hqueue' => simp [hqueue] at hqueue'
      | failed hqueue' hvisit' =>
          obtain ⟨rfl, rfl⟩ := List.cons_eq_cons.1 (hqueue.symm.trans hqueue')
          rw [Except.error.inj (hvisit.symm.trans hvisit')]
      | next hqueue' hvisit' =>
          obtain ⟨rfl, rfl⟩ := List.cons_eq_cons.1 (hqueue.symm.trans hqueue')
          cases hvisit.symm.trans hvisit'
  | next hqueue hvisit _ ih =>
      cases h' with
      | done hqueue' => simp [hqueue] at hqueue'
      | failed hqueue' hvisit' =>
          obtain ⟨rfl, rfl⟩ := List.cons_eq_cons.1 (hqueue.symm.trans hqueue')
          cases hvisit.symm.trans hvisit'
      | next hqueue' hvisit' hrest' =>
          obtain ⟨rfl, rfl⟩ := List.cons_eq_cons.1 (hqueue.symm.trans hqueue')
          obtain rfl := Except.ok.inj (hvisit.symm.trans hvisit')
          rw [ih hrest']

end Search

/-- More rounds than there are entries change nothing. -/
theorem run_start_eq (weight : Weight) (hsound : site.Sound)
    (hpath : site.tree.realPath true site.cwd root = .ok p) {node : Node}
    (hnode : loadNode site extractor p 0 = .ok node) {rounds : ℕ}
    (hrounds : site.tree.entries.length < rounds) :
    Search.run site extractor weight rounds ⟨Registry.empty.add node, [p]⟩ =
      Search.run site extractor weight (site.tree.entries.length + 1)
        ⟨Registry.empty.add node, [p]⟩ := by
  have hstart : Search.Explored site extractor p [p] (Registry.empty.add node) := .start hnode
  refine (Search.Explored.completes (s := ⟨Registry.empty.add node, [p]⟩) hstart hsound hpath
    ?_).unique (completes_start hsound hpath hnode)
  simp [Registry.paths]
  omega

/-- Discovery is the same on two sites that load alike what a search comes to. -/
theorem discover_congr (hsound : site.Sound) (hsound' : site'.Sound)
    (hroot : site'.tree.realPath true site'.cwd root = site.tree.realPath true site.cwd root)
    (hload : ∀ path, site.tree.realPath true site.cwd root = .ok path →
      ∀ q, site.Meets extractor path q → ∀ depth,
        loadNode site' extractor q depth = loadNode site extractor q depth) :
    discover site' extractor weight root = discover site extractor weight root := by
  unfold discover
  rw [hroot]
  refine Trace.bind_congr fun path hpath => ?_
  have hpath : site.tree.realPath true site.cwd root = .ok path := mapError_eq_ok_iff.1 hpath
  have hload := hload path hpath
  have hfirst := hload path (site.meets_root extractor path) 0
  rw [hfirst]
  refine Trace.bind_congr fun node hnode => ?_
  have hnode : loadNode site extractor path 0 = .ok node := hnode
  -- the two trees may allow for different numbers of rounds, of which both need fewer
  have hrounds := run_start_eq weight hsound hpath hnode
    (Nat.lt_succ_of_le (Nat.le_max_left _ site'.tree.entries.length))
  have hrounds' := run_start_eq weight hsound' (hroot.trans hpath)
    (hfirst.trans hnode) (Nat.lt_succ_of_le (Nat.le_max_right site.tree.entries.length _))
  have hsame := (Search.Ordered.start hnode).run_congr weight
    (max site.tree.entries.length site'.tree.entries.length + 1) (Search.Explored.start hnode) hload
  simp only [hrounds'.symm.trans (hsame.trans hrounds)]

end SolidityFlattener
