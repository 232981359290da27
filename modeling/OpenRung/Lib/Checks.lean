import Mathlib.Algebra.Order.Ring.Int

/-! Chains of checks that end at the first one that fails. -/

variable {ε α β : Type}

theorem ite_error_eq_ok {p : Prop} [Decidable p] {e : ε} {next : Except ε α} {a : α} :
    (if p then .error e else next) = .ok a ↔ ¬ p ∧ next = .ok a := by
  by_cases h : p <;> simp [h]

theorem Except.bind_eq_ok {x : Except ε α} {f : α → Except ε β} {b : β} :
    x >>= f = .ok b ↔ ∃ a, x = .ok a ∧ f a = .ok b := by
  cases x with
  | error e => simp [bind, Except.bind]
  | ok a => simp [bind, Except.bind]

theorem List.forM_eq_ok {f : α → Except ε PUnit} {xs : List α} : xs.forM f = .ok () ↔ ∀ x ∈ xs, f x = .ok () := by
  induction xs with
  | nil => simp [pure, Except.pure]
  | cons x xs ih =>
    rw [List.forM, Except.bind_eq_ok, List.forall_mem_cons, ← ih]
    constructor
    · rintro ⟨u, hx, hxs⟩
      exact ⟨hx, hxs⟩
    · rintro ⟨hx, hxs⟩
      exact ⟨(), hx, hxs⟩

theorem List.mapM_eq_some_iff {f : α → Option β} {xs : List α} {ys : List β} :
    xs.mapM f = some ys ↔ (∀ x ∈ xs, (f x).isSome) ∧ xs.filterMap f = ys := by
  induction xs generalizing ys with
  | nil => simp
  | cons x xs ih =>
    rw [List.mapM_cons, List.forall_mem_cons]
    cases hx : f x with
    | none => simp
    | some y =>
      rw [List.filterMap_cons_some hx]
      cases hxs : xs.mapM f with
      | none =>
        have hnone := mt (fun hall => ih.mpr ⟨hall, rfl⟩) (by simp [hxs])
        simp [hnone]
      | some zs =>
        obtain ⟨hall, rfl⟩ := ih.mp hxs
        simp only [Option.isSome_some, true_and, iff_true_intro hall]
        simp
