import SolidityFlattener.Trace
import Mathlib

/-!
What it takes for a computation to succeed: each of its steps does. A computation that fails does so
at its first step that does, and as that step does. So two computations end alike if each step that
one of them comes to ends alike in both.
-/

namespace SolidityFlattener

theorem bind_eq_ok_iff {ε α β : Type} {x : Except ε α} {f : α → Except ε β} {b : β} :
    (x >>= f) = .ok b ↔ ∃ a, x = .ok a ∧ f a = .ok b := by
  cases x with
  | error e => simp [bind, Except.bind]
  | ok a => simp [bind, Except.bind]

theorem bind_eq_error_iff {ε α β : Type} {x : Except ε α} {f : α → Except ε β} {e : ε} :
    (x >>= f) = .error e ↔ x = .error e ∨ ∃ a, x = .ok a ∧ f a = .error e := by
  cases x with
  | error e => simp [bind, Except.bind]
  | ok a => simp [bind, Except.bind]

@[simp] theorem mapError_eq_ok_iff {ε δ α : Type} {x : Except ε α} {f : ε → δ} {a : α} :
    x.mapError f = .ok a ↔ x = .ok a := by
  cases x with
  | error e => simp [Except.mapError]
  | ok b => simp [Except.mapError]

@[simp] theorem mapError_eq_error_iff {ε δ α : Type} {x : Except ε α} {f : ε → δ} {d : δ} :
    x.mapError f = .error d ↔ ∃ e, x = .error e ∧ f e = d := by
  cases x with
  | error e => simp [Except.mapError]
  | ok b => simp [Except.mapError]

theorem map_eq_ok_iff {ε α β : Type} {x : Except ε α} {f : α → β} {b : β} :
    x.map f = .ok b ↔ ∃ a, x = .ok a ∧ f a = b := by
  cases x <;> simp [Except.map]

theorem map_eq_error_iff {ε α β : Type} {x : Except ε α} {f : α → β} {e : ε} :
    x.map f = .error e ↔ x = .error e := by
  cases x <;> simp [Except.map]

/-- Two computations end alike, up to what is kept of their results, if their first steps do and
the rest ends alike after these. -/
theorem map_bind_congr {ε α β γ δ : Type} {x : Except ε α} {y : Except ε β} {f : α → Except ε γ}
    {g : β → Except ε γ} {k : γ → δ} (hfirst : x.map (fun _ => ()) = y.map fun _ => ())
    (hrest : ∀ a b, x = .ok a → y = .ok b → (f a).map k = (g b).map k) :
    (x >>= f).map k = (y >>= g).map k := by
  cases x with
  | error e =>
      rw [map_eq_error_iff.1 hfirst.symm]
      rfl
  | ok a =>
      obtain ⟨b, rfl, -⟩ := map_eq_ok_iff.1 hfirst.symm
      exact hrest a b rfl rfl

theorem bind_congr_of_ok {ε α β : Type} {x : Except ε α} {f g : α → Except ε β}
    (h : ∀ a, x = .ok a → f a = g a) : (x >>= f) = (x >>= g) := by
  cases x with
  | error e => rfl
  | ok a => exact h a rfl

/-! ### Steps that can fail, one for each member of a list -/

section Steps

variable {ε α β σ : Type} {f : α → Except ε β} {as : List α} {bs : List β}

theorem mapM_cons_eq_ok_iff {a : α} :
    (a :: as).mapM f = .ok bs ↔ ∃ b rest, f a = .ok b ∧ as.mapM f = .ok rest ∧ bs = b :: rest := by
  rw [List.mapM_cons, bind_eq_ok_iff]
  constructor
  · rintro ⟨b, hb, hrest⟩
    obtain ⟨rest, hmap, heq⟩ := bind_eq_ok_iff.1 hrest
    exact ⟨b, rest, hb, hmap, (Except.ok.inj heq).symm⟩
  · rintro ⟨b, rest, hb, hmap, rfl⟩
    exact ⟨b, hb, bind_eq_ok_iff.2 ⟨rest, hmap, rfl⟩⟩

theorem mem_of_mapM_eq_ok (h : as.mapM f = .ok bs) {b : β} :
    b ∈ bs ↔ ∃ a ∈ as, f a = .ok b := by
  induction as generalizing bs with
  | nil =>
      obtain rfl : [] = bs := Except.ok.inj h
      simp
  | cons a as ih =>
      obtain ⟨first, rest, hfirst, hrest, rfl⟩ := mapM_cons_eq_ok_iff.1 h
      simp [ih hrest, hfirst, eq_comm]

theorem exists_mapM_eq_ok_iff : (∃ bs, as.mapM f = .ok bs) ↔ ∀ a ∈ as, ∃ b, f a = .ok b := by
  induction as with
  | nil => exact ⟨fun _ => by simp, fun _ => ⟨[], rfl⟩⟩
  | cons a as ih =>
      rw [List.forall_mem_cons, ← ih]
      constructor
      · rintro ⟨bs, hbs⟩
        obtain ⟨b, rest, hb, hrest, -⟩ := mapM_cons_eq_ok_iff.1 hbs
        exact ⟨⟨b, hb⟩, rest, hrest⟩
      · rintro ⟨⟨b, hb⟩, rest, hrest⟩
        exact ⟨b :: rest, mapM_cons_eq_ok_iff.2 ⟨b, rest, hb, hrest, rfl⟩⟩

theorem mapM_append_eq_ok_iff {as' : List α} :
    (as ++ as').mapM f = .ok bs ↔
      ∃ front back, as.mapM f = .ok front ∧ as'.mapM f = .ok back ∧ bs = front ++ back := by
  rw [List.mapM_append, bind_eq_ok_iff]
  constructor
  · rintro ⟨front, hfront, hrest⟩
    obtain ⟨back, hback, heq⟩ := bind_eq_ok_iff.1 hrest
    exact ⟨front, back, hfront, hback, (Except.ok.inj heq).symm⟩
  · rintro ⟨front, back, hfront, hback, rfl⟩
    exact ⟨front, hfront, bind_eq_ok_iff.2 ⟨back, hback, rfl⟩⟩

/-- Steps that succeed in one way can be replaced by others that succeed in the same way. -/
theorem mapM_eq_ok_of_forall {g : α → Except ε β} (h : as.mapM f = .ok bs)
    (hsame : ∀ a ∈ as, ∀ b, f a = .ok b → g a = .ok b) : as.mapM g = .ok bs := by
  induction as generalizing bs with
  | nil => exact h
  | cons a as ih =>
      obtain ⟨ha, has⟩ := List.forall_mem_cons.1 hsame
      obtain ⟨b, rest, hb, hrest, rfl⟩ := mapM_cons_eq_ok_iff.1 h
      exact mapM_cons_eq_ok_iff.2 ⟨b, rest, ha b hb, ih hrest has, rfl⟩

/-- The results of steps that all succeed are those of the steps that do. -/
theorem filterMap_toOption_of_mapM (h : as.mapM f = .ok bs) :
    (as.filterMap fun a => (f a).toOption) = bs := by
  induction as generalizing bs with
  | nil => exact Except.ok.inj h
  | cons a as ih =>
      obtain ⟨b, rest, hb, hrest, rfl⟩ := mapM_cons_eq_ok_iff.1 h
      rw [List.filterMap_cons_some (by rw [hb]; rfl), ih hrest]

/-- A fold whose steps each need one result collects all results first. -/
theorem foldlM_eq_ok_iff {step : σ → β → σ} {s s' : σ} :
    as.foldlM (fun s a => return step s (← f a)) s = .ok s' ↔
      ∃ bs, as.mapM f = .ok bs ∧ s' = bs.foldl step s := by
  induction as generalizing s with
  | nil =>
      constructor
      · intro h
        exact ⟨[], rfl, (Except.ok.inj h).symm⟩
      · rintro ⟨bs, hbs, rfl⟩
        obtain rfl : [] = bs := Except.ok.inj hbs
        rfl
  | cons a as ih =>
      rw [List.foldlM_cons, bind_eq_ok_iff]
      constructor
      · rintro ⟨next, hnext, hrest⟩
        obtain ⟨b, hb, heq⟩ := bind_eq_ok_iff.1 hnext
        obtain rfl : step s b = next := Except.ok.inj heq
        obtain ⟨bs, hbs, rfl⟩ := ih.1 hrest
        exact ⟨b :: bs, mapM_cons_eq_ok_iff.2 ⟨b, bs, hb, hbs, rfl⟩, rfl⟩
      · rintro ⟨bs, hbs, rfl⟩
        obtain ⟨b, rest, hb, hrest, rfl⟩ := mapM_cons_eq_ok_iff.1 hbs
        exact ⟨step s b, bind_eq_ok_iff.2 ⟨b, hb, rfl⟩, ih.2 ⟨rest, hrest, rfl⟩⟩

/-- Such a fold fails as its first step that fails. -/
theorem foldlM_eq_error_iff {step : σ → β → σ} {s : σ} {e : ε} :
    as.foldlM (fun s a => return step s (← f a)) s = .error e ↔
      ∃ before a after, as = before ++ a :: after ∧ (∀ b ∈ before, ∃ c, f b = .ok c) ∧
        f a = .error e := by
  induction as generalizing s with
  | nil =>
      constructor
      · intro h
        cases h
      · rintro ⟨before, a, after, hsplit, -⟩
        simp at hsplit
  | cons a as ih =>
      rw [List.foldlM_cons, bind_eq_error_iff]
      constructor
      · rintro (hfirst | ⟨next, hnext, hrest⟩)
        · rcases bind_eq_error_iff.1 hfirst with ha | ⟨b, -, hb⟩
          · exact ⟨[], a, as, rfl, by simp, ha⟩
          · cases hb
        · obtain ⟨b, hb, -⟩ := bind_eq_ok_iff.1 hnext
          obtain ⟨before, c, after, rfl, hbefore, hc⟩ := ih.1 hrest
          exact ⟨a :: before, c, after, rfl, List.forall_mem_cons.2 ⟨⟨b, hb⟩, hbefore⟩, hc⟩
      · rintro ⟨before, c, after, hsplit, hbefore, hc⟩
        cases before with
        | nil =>
            obtain ⟨rfl, rfl⟩ := List.cons_eq_cons.1 hsplit
            exact .inl (bind_eq_error_iff.2 (.inl hc))
        | cons first before =>
            obtain ⟨rfl, rfl⟩ := List.cons_eq_cons.1 hsplit
            obtain ⟨⟨b, hb⟩, hbefore⟩ := List.forall_mem_cons.1 hbefore
            exact .inr ⟨step s b, bind_eq_ok_iff.2 ⟨b, hb, rfl⟩,
              ih.2 ⟨before, c, after, rfl, hbefore, hc⟩⟩

/-- The failure of a step, if it fails. -/
def failure? : Except ε β → Option ε
  | .error e => some e
  | .ok _ => none

/-- What such a fold comes to, told by the first failure and by the results. -/
theorem foldlM_eq_findSome? {step : σ → β → σ} {s : σ} :
    as.foldlM (fun s a => return step s (← f a)) s =
      match as.findSome? fun a => failure? (f a) with
      | some e => .error e
      | none => .ok ((as.filterMap fun a => (f a).toOption).foldl step s) := by
  induction as generalizing s with
  | nil => rfl
  | cons a as ih =>
      rw [List.foldlM_cons, List.findSome?_cons, List.filterMap_cons]
      cases hf : f a with
      | error e => rfl
      | ok b => exact ih

/-- Only the steps that such a fold comes to matter. -/
theorem foldlM_congr_of_ok {g : α → Except ε β} {step : σ → β → σ} {s : σ}
    (h : ∀ before a after, as = before ++ a :: after → (∀ b ∈ before, ∃ c, f b = .ok c) →
      f a = g a) :
    as.foldlM (fun s a => return step s (← f a)) s =
      as.foldlM (fun s a => return step s (← g a)) s := by
  induction as generalizing s with
  | nil => rfl
  | cons a as ih =>
      rw [List.foldlM_cons, List.foldlM_cons, ← h [] a as rfl (by simp)]
      refine bind_congr_of_ok fun next hnext => ?_
      obtain ⟨b, hb, -⟩ := bind_eq_ok_iff.1 hnext
      refine ih fun before c after hsplit hbefore => ?_
      exact h (a :: before) c after (by rw [hsplit, List.cons_append])
        (List.forall_mem_cons.2 ⟨⟨b, hb⟩, hbefore⟩)

end Steps

namespace Trace

variable {α β : Type}

@[simp] theorem outcome_pure (a : α) : (Pure.pure a : Trace α).outcome = .ok a := rfl

@[simp] theorem outcome_ofExcept (x : Except Failure α) : (ofExcept x).outcome = x := rfl

@[simp] theorem outcome_tell (weight : Weight) (message : Text) :
    (tell weight message).outcome = .ok () := rfl

theorem outcome_bind (x : Trace α) (f : α → Trace β) :
    (x >>= f).outcome = x.outcome >>= fun a => (f a).outcome := by
  change (Trace.bind x f).outcome = _
  unfold Trace.bind
  cases x.outcome with
  | error e => rfl
  | ok a => rfl

@[simp] theorem outcome_bind_eq_ok_iff {x : Trace α} {f : α → Trace β} {b : β} :
    (x >>= f).outcome = .ok b ↔ ∃ a, x.outcome = .ok a ∧ (f a).outcome = .ok b := by
  change (Trace.bind x f).outcome = .ok b ↔ _
  unfold Trace.bind
  cases x.outcome with
  | error e => simp
  | ok a => simp

theorem outcome_bind_eq_error_iff {x : Trace α} {f : α → Trace β} {e : Failure} :
    (x >>= f).outcome = .error e ↔
      x.outcome = .error e ∨ ∃ a, x.outcome = .ok a ∧ (f a).outcome = .error e := by
  change (Trace.bind x f).outcome = .error e ↔ _
  unfold Trace.bind
  cases x.outcome with
  | error e => simp
  | ok a => simp

/-- A fold of computations fails at the first of them that does, with what is known before it. -/
theorem exists_of_outcome_foldlM_eq_error {σ : Type} {f : σ → α → Trace σ} {as : List α} {s : σ}
    {e : Failure} (h : (as.foldlM f s).outcome = .error e) :
    ∃ before a after s', as = before ++ a :: after ∧ (before.foldlM f s).outcome = .ok s' ∧
      (f s' a).outcome = .error e := by
  induction as generalizing s with
  | nil => cases h
  | cons a as ih =>
      rw [List.foldlM_cons, outcome_bind_eq_error_iff] at h
      rcases h with hfirst | ⟨next, hnext, hrest⟩
      · exact ⟨[], a, as, s, rfl, rfl, hfirst⟩
      · obtain ⟨before, b, after, s', rfl, hbefore, hb⟩ := ih hrest
        refine ⟨a :: before, b, after, s', rfl, ?_, hb⟩
        rw [List.foldlM_cons, outcome_bind_eq_ok_iff]
        exact ⟨next, hnext, hbefore⟩

theorem bind_of_ok {x : Trace α} {f : α → Trace β} {a : α} (h : x.outcome = .ok a) :
    x >>= f = ⟨x.records ++ (f a).records, (f a).outcome⟩ := by
  change Trace.bind x f = _
  rw [Trace.bind, h]

theorem bind_of_error {x : Trace α} {f : α → Trace β} {e : Failure} (h : x.outcome = .error e) :
    x >>= f = ⟨x.records, .error e⟩ := by
  change Trace.bind x f = _
  rw [Trace.bind, h]

theorem bind_congr {x : Trace α} {f g : α → Trace β} (h : ∀ a, x.outcome = .ok a → f a = g a) :
    x >>= f = x >>= g := by
  cases hx : x.outcome with
  | error e => rw [bind_of_error hx, bind_of_error hx]
  | ok a => rw [bind_of_ok hx, bind_of_ok hx, h a hx]

theorem foldlM_congr {σ : Type} {f g : σ → α → Trace σ} {as : List α} {s : σ}
    (h : ∀ before a after s', as = before ++ a :: after →
      (before.foldlM f s).outcome = .ok s' → f s' a = g s' a) :
    as.foldlM f s = as.foldlM g s := by
  induction as generalizing s with
  | nil => rfl
  | cons a as ih =>
      rw [List.foldlM_cons, List.foldlM_cons, ← h [] a as s rfl rfl]
      refine bind_congr fun next hnext => ih fun before b after s' hsplit hbefore => ?_
      refine h (a :: before) b after s' (by rw [hsplit, List.cons_append]) ?_
      rw [List.foldlM_cons]
      exact outcome_bind_eq_ok_iff.2 ⟨next, hnext, hbefore⟩

end Trace

end SolidityFlattener
