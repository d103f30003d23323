import SolidityFlattener.Proofs.Graph.LevelAssignment
import SolidityFlattener.Proofs.Imports.BreadthFirst
import Mathlib.Order.Bounds.Basic
import Mathlib.Data.List.Nodup

/-!
A registry told by the calls that it was made with.

A registry starts empty and is changed by calls, some of which fail. What one call does to the files
is told once: a file that stays keeps its path, its parts and its base names, its depth is raised to
what the call passes for it, and a file that is new is the one that was added. From this the
registry after any calls is told by the calls alone. Its order is kept by all calls but those that
put the files in another order, and these give the order that was asked for or computed.
-/

namespace SolidityFlattener

namespace Registry

/-- A call that can change a registry. -/
inductive Call
  | add (n : Node)
  | raiseDepth (path : Path) (depth : Int)
  | requireImport (path target : Path)
  | requireInherit (path target : Path)
  | linkInheritance
  | assignLevels
  | reorder (order : List Path)
deriving DecidableEq, Repr

/-- A change of the file under a path, which has to be registered. -/
def change (r : Registry) (path : Path) (f : Node → Node) : Registry × Except Failure Unit :=
  if path ∈ r.paths then (r.modify path f, .ok ()) else (r, .error .unregistered)

/-- What a registry holds after a call, and why the call failed if it did. -/
def call (r : Registry) : Call → Registry × Except Failure Unit
  | .add n => (r.add n, .ok ())
  | .raiseDepth path depth =>
    match r.raiseDepth? path depth with
    | some raised => (raised, .ok ())
    | none => (r, .error .unregistered)
  | .requireImport path target => r.change path (·.requireImport target)
  | .requireInherit path target => r.change path (·.requireInherit target)
  | .linkInheritance => (r.linkInheritance, .ok ())
  | .assignLevels => (r.assignLevels.1, r.assignLevels.2.map fun _ => ())
  | .reorder order =>
    match r.reorder order with
    | .ok reordered => (reordered, .ok ())
    | .error failure => (r, .error failure)

/-- What is registered after calls one after another, the failing ones included. -/
def after (calls : List Call) : Registry := calls.foldl (fun r c => (r.call c).1) empty

namespace Call

/-- The file that a call adds. -/
def added? : Call → Option Node
  | .add n => some n
  | _ => none

/-- The depth that a call passes for a path. -/
def depthFor? (p : Path) : Call → Option Int
  | .add n => if n.path = p then some n.depth else none
  | .raiseDepth path depth => if path = p then some depth else none
  | _ => none

/-- A call that puts the files in another order. -/
def Rearranges : Call → Prop
  | .assignLevels => True
  | .reorder _ => True
  | _ => False

end Call

variable {r r' : Registry} {c : Call} {calls before rest : List Call} {n m : Node} {p : Path}
  {depth : Int} {order : List Path}

theorem after_concat (calls : List Call) (c : Call) :
    after (calls ++ [c]) = ((after calls).call c).1 := by
  rw [after, List.foldl_append]
  rfl

/-! ### What a call does to the files -/

/-- A file as a call leaves it, but for what it requires and for its level. -/
structure Kept (c : Call) (n m : Node) : Prop where
  path : m.path = n.path
  header : m.header = n.header
  body : m.body = n.body
  bases : m.bases = n.bases
  depth : m.depth = (c.depthFor? n.path).elim n.depth (max n.depth)

theorem Kept.refl (h : c.depthFor? n.path = none) : Kept c n n where
  path := rfl
  header := rfl
  body := rfl
  bases := rfl
  depth := by rw [h, Option.elim_none]

/-- What a change of the file under one path leaves. -/
theorem exists_kept_of_modify {f : Node → Node} (hm : m ∈ (r.modify p f).nodes)
    (hchanged : ∀ n, n.path = p → Kept c n (f n))
    (hother : ∀ n ∈ r.nodes, n.path ≠ p → c.depthFor? n.path = none) :
    ∃ n ∈ r.nodes, Kept c n m := by
  obtain ⟨n, hn, rfl⟩ := List.mem_map.1 hm
  refine ⟨n, hn, ?_⟩
  split
  · next hpath =>
    have hkept := hchanged n hpath
    exact ⟨rfl, hkept.header, hkept.body, hkept.bases, hkept.depth⟩
  · next hpath => exact .refl (hother n hn hpath)

theorem exists_kept_of_change {f : Node → Node} (hm : m ∈ (r.change p f).1.nodes)
    (hchanged : ∀ n, n.path = p → Kept c n (f n))
    (hother : ∀ n ∈ r.nodes, n.path ≠ p → c.depthFor? n.path = none) :
    ∃ n ∈ r.nodes, Kept c n m := by
  unfold change at hm
  split at hm
  · exact exists_kept_of_modify hm hchanged hother
  · next hp =>
    have hne : m.path ≠ p := fun heq => hp (heq ▸ path_mem_paths hm)
    exact ⟨m, hm, .refl (hother m hm hne)⟩

theorem mem_nodes_of_reorder (h : r.reorder order = .ok r') (hm : m ∈ r'.nodes) : m ∈ r.nodes := by
  rw [nodes_of_reorder h] at hm
  obtain ⟨q, -, hget⟩ := List.mem_filterMap.1 hm
  exact (get?_eq_some_iff.1 hget).1

/-- After a call a file is one that was registered, as the call keeps it, or the one it adds. -/
theorem kept_or_added (hm : m ∈ (r.call c).1.nodes) :
    (∃ n ∈ r.nodes, Kept c n m) ∨ c = .add m ∧ m.path ∉ r.paths := by
  cases c with
  | add added =>
      by_cases hadded : added.path ∈ r.paths
      · refine .inl (exists_kept_of_modify (show m ∈ (r.modify added.path _).nodes by
          simpa [call, Registry.add, hadded] using hm) ?_ ?_)
        · intro n hpath
          exact ⟨rfl, rfl, rfl, rfl, by simp [Call.depthFor?, hpath, Node.raiseDepth]⟩
        · intro n _ hpath
          simp [Call.depthFor?, Ne.symm hpath]
      · have hm : m ∈ r.nodes ++ [added] := by simpa [call, add_eq_push hadded, push] using hm
        rcases List.mem_append.1 hm with hm | hm
        · have hne : added.path ≠ m.path := fun heq => hadded (heq ▸ path_mem_paths hm)
          exact .inl ⟨m, hm, .refl (by simp [Call.depthFor?, hne])⟩
        · obtain rfl := List.mem_singleton.1 hm
          exact .inr ⟨rfl, hadded⟩
  | raiseDepth path depth =>
      refine .inl (exists_kept_of_change (p := path) (f := (·.raiseDepth depth)) ?_ ?_ ?_)
      · rw [call, raiseDepth?_eq] at hm
        unfold change
        split_ifs at hm ⊢ <;> exact hm
      · intro n hpath
        exact ⟨rfl, rfl, rfl, rfl, by simp [Call.depthFor?, hpath, Node.raiseDepth]⟩
      · intro n _ hpath
        simp [Call.depthFor?, Ne.symm hpath]
  | requireImport path target =>
      exact .inl (exists_kept_of_change hm (fun n _ => ⟨rfl, rfl, rfl, rfl, rfl⟩) fun _ _ _ => rfl)
  | requireInherit path target =>
      exact .inl (exists_kept_of_change hm (fun n _ => ⟨rfl, rfl, rfl, rfl, rfl⟩) fun _ _ _ => rfl)
  | linkInheritance =>
      obtain ⟨n, hn, rfl⟩ := List.mem_map.1 hm
      exact .inl ⟨n, hn, rfl, rfl, rfl, rfl, rfl⟩
  | assignLevels =>
      cases horder : r.order with
      | error failure =>
          rw [call, assignLevels_of_error horder] at hm
          exact .inl ⟨m, hm, .refl rfl⟩
      | ok order =>
          obtain ⟨leveled, hleveled, hassign⟩ := assignLevels_of_ok horder
          -- levels are given to the files of the computed order, which are those registered
          obtain ⟨other, hother, hnodes⟩ := exists_order_of_level hleveled
          rw [call, hassign, hnodes] at hm
          obtain ⟨n, hn, rfl⟩ := List.mem_map.1 hm
          exact .inl ⟨n, (order_perm hother).mem_iff.1 hn, rfl, rfl, rfl, rfl, rfl⟩
  | reorder order =>
      cases hreorder : r.reorder order with
      | error failure =>
          rw [call, hreorder] at hm
          exact .inl ⟨m, hm, .refl rfl⟩
      | ok reordered =>
          rw [call, hreorder] at hm
          exact .inl ⟨m, mem_nodes_of_reorder hreorder hm, .refl rfl⟩

/-! ### Rearrangements -/

theorem reorder_eq_ok_iff : (∃ r', r.reorder order = .ok r') ↔ order.Perm r.paths := by
  refine ⟨?_, exists_reorder⟩
  rintro ⟨r', h⟩
  unfold reorder at h
  split at h
  · assumption
  · cases h

/-- Paths rearrange those of a registry if each of these is there once and nothing else is. -/
theorem perm_paths_iff_count :
    order.Perm r.paths ↔ ∀ p, order.count p = if p ∈ r.paths then 1 else 0 := by
  have hcount : ∀ p, r.paths.count p = if p ∈ r.paths then 1 else 0 := fun p =>
    r.nodup_paths.count
  simp only [List.perm_iff_count, hcount]

/-- It is enough to compare how many paths there are and which: paths without a repetition that
fit into as many others leave no room for one there. -/
theorem perm_paths_iff_length :
    order.Perm r.paths ↔ order.length = r.size ∧ ∀ p, p ∈ order ↔ p ∈ r.paths := by
  have hsize : r.paths.length = r.size := List.length_map _
  constructor
  · intro h
    exact ⟨h.length_eq.trans hsize, fun p => h.mem_iff⟩
  · rintro ⟨hlength, hmem⟩
    have hsubperm : r.paths.Subperm order :=
      List.subperm_of_subset r.nodup_paths fun p hp => (hmem p).2 hp
    exact (hsubperm.perm_of_length_le (by omega)).symm

theorem call_reorder_eq_ok_iff : (r.call (.reorder order)).2 = .ok () ↔ order.Perm r.paths := by
  rw [← reorder_eq_ok_iff, call]
  cases r.reorder order with
  | error failure => simp
  | ok reordered => simp

/-! ### What a call does to the order -/

/-- The paths that calls add, the ones that were there already included. -/
def addedPaths (calls : List Call) : List Path := (calls.filterMap Call.added?).map Node.path

theorem eraseDups_of_nodup {paths : List Path} (h : paths.Nodup) : paths.eraseDups = paths := by
  induction paths using List.reverseRecOn with
  | nil => rfl
  | append_singleton paths p ih =>
      obtain ⟨hpaths, -, hnot⟩ := List.nodup_append.1 h
      have hp : p ∉ paths := fun hmem => hnot p hmem p (List.mem_singleton_self p) rfl
      rw [eraseDups_concat, if_neg hp, ih hpaths]

theorem eraseDups_paths (r : Registry) : r.paths.eraseDups = r.paths :=
  eraseDups_of_nodup r.nodup_paths

theorem paths_call_add (r : Registry) (n : Node) :
    (r.call (.add n)).1.paths = (r.paths ++ [n.path]).eraseDups := by
  rw [eraseDups_concat, eraseDups_paths]
  split_ifs with hn
  · have hadd : r.add n = r.modify n.path (·.raiseDepth n.depth) := dif_pos hn
    rw [call, hadd, paths_modify]
  · rw [call, add_eq_push hn, paths_push]

@[simp] theorem paths_change (f : Node → Node) : (r.change p f).1.paths = r.paths := by
  unfold change
  split
  · exact paths_modify f
  · rfl

theorem call_raiseDepth (r : Registry) (p : Path) (depth : Int) :
    r.call (.raiseDepth p depth) = r.change p (·.raiseDepth depth) := by
  rw [call, raiseDepth?_eq, change]
  split_ifs <;> rfl

/-- A call that fails leaves the registry as it was. -/
theorem call_of_error {failure : Failure} (h : (r.call c).2 = .error failure) :
    (r.call c).1 = r := by
  have hchange : ∀ {path : Path} {f : Node → Node}, (r.change path f).2 = .error failure →
      (r.change path f).1 = r := by
    intro path f h
    unfold change at h ⊢
    split_ifs at h ⊢
    rfl
  cases c with
  | add n => cases h
  | raiseDepth path depth =>
      rw [call_raiseDepth] at h ⊢
      exact hchange h
  | requireImport path target => exact hchange h
  | requireInherit path target => exact hchange h
  | linkInheritance => cases h
  | assignLevels =>
      cases horder : r.order with
      | error failure => rw [call, assignLevels_of_error horder]
      | ok order =>
          obtain ⟨leveled, -, hassign⟩ := assignLevels_of_ok horder
          rw [call, hassign] at h
          cases h
  | reorder order =>
      cases hreorder : r.reorder order with
      | error failure => rw [call, hreorder]
      | ok reordered =>
          rw [call, hreorder] at h
          cases h

/-- Apart from calls that put the files in another order, what is new comes last. -/
theorem paths_call (h : ¬(c.Rearranges ∧ (r.call c).2 = .ok ())) :
    (r.call c).1.paths = (r.paths ++ addedPaths [c]).eraseDups := by
  have hsame : c.added? = none → (r.call c).1.paths = r.paths →
      (r.call c).1.paths = (r.paths ++ addedPaths [c]).eraseDups := by
    intro hadded hpaths
    rw [addedPaths, List.filterMap_cons_none hadded, List.filterMap_nil, List.map_nil,
      List.append_nil, eraseDups_paths, hpaths]
  -- what is left of the rearrangements are those that fail
  have hfails : c.Rearranges → (r.call c).1 = r := by
    intro hrearranges
    cases houtcome : (r.call c).2 with
    | error failure => exact call_of_error houtcome
    | ok u => exact absurd ⟨hrearranges, houtcome⟩ h
  cases c with
  | add n => exact paths_call_add r n
  | raiseDepth path depth =>
      rw [call_raiseDepth] at hsame
      rw [call_raiseDepth]
      exact hsame rfl (paths_change _)
  | requireImport path target => exact hsame rfl (paths_change _)
  | requireInherit path target => exact hsame rfl (paths_change _)
  | linkInheritance => exact hsame rfl (paths_mapNodes r.linkNode fun _ => rfl)
  | assignLevels => exact hsame rfl (congrArg paths (hfails trivial))
  | reorder order => exact hsame rfl (congrArg paths (hfails trivial))

/-- The registry is put in the order that is asked for. -/
theorem paths_call_reorder (h : (r.call (.reorder order)).2 = .ok ()) :
    (r.call (.reorder order)).1.paths = order := by
  cases hreorder : r.reorder order with
  | error failure =>
      rw [call, hreorder] at h
      cases h
  | ok reordered =>
      have hperm := reorder_eq_ok_iff.1 ⟨reordered, hreorder⟩
      rw [call, hreorder]
      exact (congrArg (List.map Node.path) (nodes_of_reorder hreorder)).trans
        (r.map_path_filterMap_get? fun p hp => hperm.mem_iff.1 hp)

/-- The registry is put in the order that is computed for it. -/
theorem paths_call_assignLevels (h : (r.call .assignLevels).2 = .ok ()) :
    ∃ order, r.order = .ok order ∧ (r.call .assignLevels).1.paths = order.map Node.path := by
  cases horder : r.order with
  | error failure =>
      rw [call, assignLevels_of_error horder] at h
      cases h
  | ok order =>
      obtain ⟨leveled, hleveled, hassign⟩ := assignLevels_of_ok horder
      obtain ⟨other, hother, hnodes⟩ := exists_order_of_level hleveled
      obtain rfl : order = other := Except.ok.inj (horder.symm.trans hother)
      refine ⟨order, rfl, ?_⟩
      rw [call, hassign, paths, hnodes, List.map_map]
      rfl

theorem addedPaths_append (before rest : List Call) :
    addedPaths (before ++ rest) = addedPaths before ++ addedPaths rest := by
  simp [addedPaths]

theorem mem_addedPaths : p ∈ addedPaths calls ↔ ∃ n, .add n ∈ calls ∧ n.path = p := by
  simp only [addedPaths, List.mem_map, List.mem_filterMap]
  constructor
  · rintro ⟨n, ⟨c, hc, hadded⟩, hpath⟩
    cases c <;> cases hadded
    exact ⟨n, hc, hpath⟩
  · rintro ⟨n, hn, hpath⟩
    exact ⟨n, ⟨_, hn, rfl⟩, hpath⟩

/-- A call registers the path it adds and no other, and drops none. -/
theorem mem_paths_call : p ∈ (r.call c).1.paths ↔ p ∈ r.paths ∨ p ∈ addedPaths [c] := by
  by_cases h : c.Rearranges ∧ (r.call c).2 = .ok ()
  · obtain ⟨hrearranges, hok⟩ := h
    cases c with
    | assignLevels =>
        obtain ⟨order, horder, hpaths⟩ := paths_call_assignLevels hok
        rw [hpaths, ((order_perm horder).map Node.path).mem_iff]
        simp [addedPaths, Call.added?, paths]
    | reorder order =>
        rw [paths_call_reorder hok, (call_reorder_eq_ok_iff.1 hok).mem_iff]
        simp [addedPaths, Call.added?]
    | _ => exact hrearranges.elim
  · rw [paths_call h, List.mem_eraseDups, List.mem_append]

/-! ### After many calls -/

/-- The first file that calls add under a path. -/
def firstAdded? (calls : List Call) (p : Path) : Option Node :=
  (calls.filterMap Call.added?).find? fun n => n.path == p

/-- A call that did not fail passed a depth for a path. -/
def Passed (calls : List Call) (p : Path) (depth : Int) : Prop :=
  ∃ before c, before ++ [c] <+: calls ∧ c.depthFor? p = some depth ∧
    ((after before).call c).2 = .ok ()

/-- No call of those that follow on others puts the files in another order. -/
def Undisturbed (before rest : List Call) : Prop :=
  ∀ front c, front ++ [c] <+: rest →
    ¬(c.Rearranges ∧ ((after (before ++ front)).call c).2 = .ok ())

theorem concat_prefix_concat_iff {α : Type} {xs ys : List α} {x y : α} :
    xs ++ [x] <+: ys ++ [y] ↔ xs ++ [x] <+: ys ∨ xs = ys ∧ x = y := by
  rw [List.prefix_concat_iff, or_comm]
  simp

theorem mem_paths_after : p ∈ (after calls).paths ↔ p ∈ addedPaths calls := by
  induction calls using List.reverseRecOn with
  | nil => simp [after, empty, paths, addedPaths]
  | append_singleton calls c ih =>
      rw [after_concat, mem_paths_call, ih, addedPaths_append, List.mem_append]

/-- With one more call, a depth was passed before or is passed by that call. -/
theorem passed_concat : Passed (calls ++ [c]) p depth ↔
    Passed calls p depth ∨
      c.depthFor? p = some depth ∧ ((after calls).call c).2 = .ok () := by
  constructor
  · rintro ⟨before, d, hbegins, hdepth, hok⟩
    rcases concat_prefix_concat_iff.1 hbegins with hbegins | ⟨rfl, rfl⟩
    · exact .inl ⟨before, d, hbegins, hdepth, hok⟩
    · exact .inr ⟨hdepth, hok⟩
  · rintro (⟨before, d, hbegins, hdepth, hok⟩ | ⟨hdepth, hok⟩)
    · exact ⟨before, d, hbegins.trans (List.prefix_append _ _), hdepth, hok⟩
    · exact ⟨calls, c, List.prefix_rfl, hdepth, hok⟩

/-- A call that passes a depth does not fail where the path is registered. -/
theorem call_eq_ok_of_depthFor? (hdepth : c.depthFor? p = some depth) (hp : p ∈ r.paths) :
    (r.call c).2 = .ok () := by
  cases c with
  | add n => rfl
  | raiseDepth path d =>
      have hpath : path = p := by
        by_contra hne
        simp [Call.depthFor?, hne] at hdepth
      rw [call_raiseDepth, change, hpath, if_pos hp]
  | _ => cases hdepth

/-- Where a call passes a depth and does not fail, the path is registered afterwards. -/
theorem mem_paths_call_of_depthFor? (hdepth : c.depthFor? p = some depth)
    (hok : (r.call c).2 = .ok ()) : p ∈ (r.call c).1.paths := by
  cases c with
  | add n =>
      have hpath : n.path = p := by
        by_contra hne
        simp [Call.depthFor?, hne] at hdepth
      rw [paths_call_add, List.mem_eraseDups, hpath]
      simp
  | raiseDepth path d =>
      have hpath : path = p := by
        by_contra hne
        simp [Call.depthFor?, hne] at hdepth
      rw [call_raiseDepth] at hok ⊢
      rw [paths_change, ← hpath]
      by_contra hnot
      rw [change, if_neg hnot] at hok
      cases hok
  | _ => cases hdepth

theorem Passed.mem_paths (h : Passed calls p depth) : p ∈ (after calls).paths := by
  induction calls using List.reverseRecOn with
  | nil =>
      obtain ⟨before, d, hbegins, -⟩ := h
      simp at hbegins
  | append_singleton calls c ih =>
      rw [after_concat]
      rcases passed_concat.1 h with h | ⟨hdepth, hok⟩
      · exact mem_paths_call.2 (.inl (ih h))
      · exact mem_paths_call_of_depthFor? hdepth hok

/-- What a registry records of the calls it was made with. -/
structure Records (calls : List Call) (r : Registry) : Prop where
  parts : ∀ n ∈ r.nodes, ∃ first, firstAdded? calls n.path = some first ∧
    n.header = first.header ∧ n.body = first.body ∧ n.bases = first.bases
  depth : ∀ n ∈ r.nodes, IsGreatest {depth | Passed calls n.path depth} n.depth

theorem firstAdded?_concat (calls : List Call) (c : Call) (p : Path) :
    firstAdded? (calls ++ [c]) p =
      (firstAdded? calls p).or (c.added?.filter fun n => n.path == p) := by
  rw [firstAdded?, List.filterMap_append, List.find?_append]
  cases hadded : c.added? with
  | none => simp [hadded, firstAdded?]
  | some n => simp [hadded, firstAdded?, List.find?_singleton, Option.filter]

theorem firstAdded?_eq_none (h : p ∉ (after calls).paths) : firstAdded? calls p = none := by
  refine List.find?_eq_none.2 fun n hn hpath => h ?_
  have hpath : n.path = p := by simpa using hpath
  rw [mem_paths_after, ← hpath]
  exact List.mem_map_of_mem hn

theorem Records.step (h : Records calls (after calls)) (c : Call) :
    Records (calls ++ [c]) (after (calls ++ [c])) := by
  -- a file that stays was recorded before; of a new one the calls before say nothing
  rw [after_concat]
  constructor
  · intro m hm
    rcases kept_or_added hm with ⟨n, hn, hkept⟩ | ⟨rfl, hnew⟩
    · obtain ⟨first, hfirst, hheader, hbody, hbases⟩ := h.parts n hn
      refine ⟨first, ?_, hkept.header.trans hheader, hkept.body.trans hbody,
        hkept.bases.trans hbases⟩
      rw [firstAdded?_concat, hkept.path, hfirst, Option.some_or]
    · refine ⟨m, ?_, rfl, rfl, rfl⟩
      rw [firstAdded?_concat, firstAdded?_eq_none hnew]
      simp [Call.added?]
  · intro m hm
    rcases kept_or_added hm with ⟨n, hn, hkept⟩ | ⟨rfl, hnew⟩
    · have hgreatest := h.depth n hn
      rw [hkept.path, hkept.depth]
      simp only [passed_concat]
      cases hdepth : c.depthFor? n.path with
      | none => simpa using hgreatest
      | some d =>
          -- the file is registered, so this call does not fail and its depth counts
          have hok := call_eq_ok_of_depthFor? hdepth (path_mem_paths hn)
          have hset : {depth | Passed calls n.path depth ∨
              some d = some depth ∧ ((after calls).call c).2 = .ok ()} =
              insert d {depth | Passed calls n.path depth} := by
            ext depth
            simp [hok, or_comm, eq_comm]
          rw [hset, Option.elim_some, max_comm]
          exact hgreatest.insert d
    · have hset : {depth | Passed (calls ++ [.add m]) m.path depth} = {m.depth} := by
        ext depth
        have hnone : ¬Passed calls m.path depth := fun hpassed => hnew hpassed.mem_paths
        simp [passed_concat, hnone, Call.depthFor?, call, eq_comm]
      rw [hset]
      exact isGreatest_singleton

theorem records_after (calls : List Call) : Records calls (after calls) := by
  induction calls using List.reverseRecOn with
  | nil => exact ⟨by simp [after, empty], by simp [after, empty]⟩
  | append_singleton calls c ih => exact ih.step c

/-- As long as the files are not put in another order, new paths come last. -/
theorem paths_after_append (h : Undisturbed before rest) :
    (after (before ++ rest)).paths = ((after before).paths ++ addedPaths rest).eraseDups := by
  induction rest using List.reverseRecOn with
  | nil => simp [addedPaths, eraseDups_paths]
  | append_singleton rest c ih =>
      have hbefore : Undisturbed before rest := fun front d hbegins =>
        h front d (hbegins.trans (List.prefix_append _ _))
      have hkeeps := h rest c List.prefix_rfl
      rw [← List.append_assoc, after_concat, paths_call hkeeps, ih hbefore,
        eraseDups_eraseDups_append, List.append_assoc, ← addedPaths_append]

/-- Registries that are made by calls hold what was added, each path once under the path of its
file and with the parts and base names it was first added with, at the greatest depth that a call
passed for it without failing. From any time after which the files are not put in another order,
the paths are those of that time and then the new ones as they were added. A call for another order
succeeds if it lists each registered path once and nothing else, which the lengths and the members
tell; it gives that order, as levelling gives the computed one. A call that fails changes nothing.
-/
theorem registry_after_calls (calls : List Call) :
    (after calls).paths.Nodup ∧
    (∀ p n, (after calls).get? p = some n → n.path = p) ∧
    (∀ p, p ∈ (after calls).paths ↔ ∃ n, .add n ∈ calls ∧ n.path = p) ∧
    (∀ n ∈ (after calls).nodes, ∃ first, firstAdded? calls n.path = some first ∧
      n.header = first.header ∧ n.body = first.body ∧ n.bases = first.bases) ∧
    (∀ n ∈ (after calls).nodes, IsGreatest {depth | Passed calls n.path depth} n.depth) ∧
    (∀ before rest, calls = before ++ rest → Undisturbed before rest →
      (after calls).paths = ((after before).paths ++ addedPaths rest).eraseDups) ∧
    (∀ order,
      (((after calls).call (.reorder order)).2 = .ok () ↔
        ∀ p, order.count p = if p ∈ (after calls).paths then 1 else 0) ∧
      (((after calls).call (.reorder order)).2 = .ok () ↔
        order.length = (after calls).size ∧ ∀ p, p ∈ order ↔ p ∈ (after calls).paths) ∧
      (((after calls).call (.reorder order)).2 = .ok () →
        (after (calls ++ [.reorder order])).paths = order)) ∧
    (((after calls).call .assignLevels).2 = .ok () →
      ∃ order, (after calls).order = .ok order ∧
        (after (calls ++ [.assignLevels])).paths = order.map Node.path) ∧
    ∀ c failure, ((after calls).call c).2 = .error failure →
      after (calls ++ [c]) = after calls := by
  have hrecords := records_after calls
  refine ⟨(after calls).nodup_paths, ?_, ?_, hrecords.parts, hrecords.depth, ?_, ?_, ?_, ?_⟩
  · intro p n hget
    exact (get?_eq_some_iff.1 hget).2
  · intro p
    exact mem_paths_after.trans mem_addedPaths
  · rintro before rest rfl hundisturbed
    exact paths_after_append hundisturbed
  · intro order
    refine ⟨call_reorder_eq_ok_iff.trans perm_paths_iff_count,
      call_reorder_eq_ok_iff.trans perm_paths_iff_length, fun hok => ?_⟩
    rw [after_concat]
    exact paths_call_reorder hok
  · intro hok
    rw [after_concat]
    exact paths_call_assignLevels hok
  · intro c failure hfails
    rw [after_concat]
    exact call_of_error hfails

/-- Calls that go wrong in between: a path that is not there yet, a file added twice, and an order
with a repetition. -/
def uneven : List Call :=
  [.raiseDepth (.top "A.sol") 10, .add (Node.ofPath (.top "A.sol")),
    .add (Node.ofPath (.top "B.sol")), .reorder [.top "B.sol", .top "B.sol"],
    .reorder [.top "B.sol", .top "A.sol"]]

/-- What is called after the files were put in order. -/
def additions : List Call :=
  [.add { Node.ofPath (.top "C.sol") with depth := 2 }, .raiseDepth (.top "A.sol") 5,
    .add { Node.ofPath (.top "A.sol") with bases := ["C".toList], depth := 3 }]

theorem undisturbed_additions : Undisturbed uneven additions := by
  rintro front c ⟨back, hsplit⟩ ⟨hrearranges, -⟩
  have hmem : c ∈ additions := by
    rw [← hsplit]
    simp
  simp only [additions, List.mem_cons, List.not_mem_nil, or_false] at hmem
  rcases hmem with rfl | rfl | rfl <;> exact hrearranges

theorem registry_after_uneven :
    (after (uneven ++ additions)).paths = [.top "B.sol", .top "A.sol", .top "C.sol"] ∧
      ∃ n, (after (uneven ++ additions)).get? (.top "A.sol") = some n ∧ n.bases = [] ∧
        n.depth = 5 ∧ IsGreatest {depth | Passed (uneven ++ additions) n.path depth} 5 := by
  obtain ⟨-, -, -, hparts, hdepth, horder, -⟩ := registry_after_calls (uneven ++ additions)
  obtain ⟨n, hget, hn⟩ : ∃ n, (after (uneven ++ additions)).get? (.top "A.sol") = some n ∧
      n.depth = 5 := ⟨_, rfl, by decide⟩
  obtain ⟨hmem, hpath⟩ := get?_eq_some_iff.1 hget
  obtain ⟨first, hfirst, -, -, hbases⟩ := hparts n hmem
  have hgreatest := hdepth n hmem
  rw [hn] at hgreatest
  have hbefore : (after uneven).paths = [.top "B.sol", .top "A.sol"] := by decide
  refine ⟨?_, n, hget, ?_, hn, hgreatest⟩
  · rw [horder uneven additions rfl undisturbed_additions, hbefore]
    decide
  · rw [hpath] at hfirst
    obtain rfl : Node.ofPath (.top "A.sol") = first := Option.some.inj hfirst
    exact hbases

/-- A depth passed before its path was registered does not count. -/
theorem not_isGreatest_depth_uneven :
    ¬∀ n ∈ (after uneven).nodes,
      IsGreatest {depth | ∃ c ∈ uneven, c.depthFor? n.path = some depth} n.depth := by
  intro h
  have hgreatest := h (Node.ofPath (.top "A.sol")) (by decide)
  have hpassed : ∃ c ∈ uneven, c.depthFor? (.top "A.sol") = some 10 :=
    ⟨_, List.mem_cons_self, rfl⟩
  have hle : (10 : Int) ≤ 0 := hgreatest.2 hpassed
  omega

end Registry

end SolidityFlattener
