import OpenRung.Lib.Forgetting
import OpenRung.Lib.TokenBucket

/-! Services whose records are token buckets: in every run of the service that keeps all of them, the requests of one
    key that were allowed stay within the capacity and the rate. -/

namespace Bucket

/-- The bucket a request finds, a full one if there is none yet. -/
def found (capacity rate now : ℚ) (b : Option Bucket) : Bucket := (b.getD (full capacity now)).refill capacity rate now

def request (capacity rate now : ℚ) (b : Option Bucket) : Bool × Bucket :=
  if (found capacity rate now b).tokens < 1 then (false, found capacity rate now b)
  else (true, (found capacity rate now b).spend)

variable {capacity rate now : ℚ} {times : List ℚ} {b : Option Bucket}

/-- The bucket of a key is within what its allowed requests leave; without any the key has no bucket. -/
def OptionWithin (capacity rate : ℚ) (times : List ℚ) : Option Bucket → Prop
  | none => times = []
  | some b => Within capacity rate times b

theorem OptionWithin.found (within : OptionWithin capacity rate times b) (capacity_nonneg : 0 ≤ capacity)
    (rate_nonneg : 0 ≤ rate) (past : ∀ old, b = some old → old.refilledAt ≤ now) :
    Within capacity rate times (found capacity rate now b) := by
  cases b with
  | none =>
    obtain rfl : times = [] := within
    exact (Within.full capacity_nonneg rate_nonneg now).refill rate_nonneg le_rfl
  | some old => exact Within.refill within rate_nonneg (past old rfl)

theorem OptionWithin.request (within : OptionWithin capacity rate times b) (capacity_nonneg : 0 ≤ capacity)
    (rate_nonneg : 0 ≤ rate) (past : ∀ old, b = some old → old.refilledAt ≤ now) :
    Within capacity rate (if (request capacity rate now b).1 then now :: times else times)
      (request capacity rate now b).2 := by
  have inside := within.found capacity_nonneg rate_nonneg past
  rcases lt_or_ge (Bucket.found capacity rate now b).tokens 1 with empty | one
  · rw [Bucket.request, if_pos empty]
    exact inside
  · rw [Bucket.request, if_neg (not_lt.mpr one)]
    exact inside.spend rate_nonneg one

theorem OptionWithin.period (hw : OptionWithin capacity rate times b) (hc : 0 ≤ capacity)
    (hr : 0 ≤ rate) {t t' : ℚ} (le : t ≤ t') : (taken times t t' : ℚ) ≤ capacity + rate * (t' - t) := by
  cases b with
  | none =>
    obtain rfl : times = [] := hw
    exact (Within.full hc hr 0).period t t' le
  | some old => exact Within.period hw t t' le

/-! ### Services -/

section
variable {κ τ β ρ : Type}

/-- The records of the service are buckets, read with the time in the rate's unit. -/
structure Measures [Preorder τ] (capacity rate : ℚ) (clock : τ → ℚ) (allowed : ρ → Bool) (read : β → Bucket)
    (service : Service τ β ρ) : Prop where
  clock_mono : Monotone clock
  past : ∀ {t b}, service.Fits t b → (read b).refilledAt ≤ clock t
  request : ∀ {t record}, (∀ b, record = some b → service.Fits t b) →
    (allowed (service.use t record).1, read (service.use t record).2) =
      Bucket.request capacity rate (clock t) (record.map read)

variable [DecidableEq κ]

def allowedTimes (clock : τ → ℚ) (allowed : ρ → Bool) (calls : List (Served κ τ ρ)) (key : κ) : List ℚ :=
  (calls.reverse.filter fun served => decide (served.key = key) && allowed served.answer).map fun served => clock served.time

variable {clock : τ → ℚ} {allowed : ρ → Bool}

theorem allowedTimes_snoc (calls : List (Served κ τ ρ)) (served : Served κ τ ρ) (key : κ) :
    allowedTimes clock allowed (calls ++ [served]) key =
      if served.key = key ∧ allowed served.answer then clock served.time :: allowedTimes clock allowed calls key
      else allowedTimes clock allowed calls key := by
  simp only [allowedTimes, List.reverse_append, List.reverse_singleton, List.singleton_append, List.filter_cons,
    Bool.and_eq_true, decide_eq_true_eq]
  split <;> rfl

theorem taken_allowedTimes (calls : List (Served κ τ ρ)) (key : κ) (t t' : ℚ) :
    taken (allowedTimes clock allowed calls key) t t' =
      calls.countP fun served => decide (served.key = key ∧ allowed served.answer ∧ t ≤ clock served.time ∧
        clock served.time ≤ t') := by
  simp only [taken, allowedTimes, List.countP_map, List.countP_filter, List.countP_reverse]
  refine List.countP_congr fun served _ => ?_
  simp only [Function.comp_apply, Bool.and_eq_true, decide_eq_true_eq]
  tauto

variable [Preorder τ] {read : β → Bucket} {service : Service τ β ρ} {calls : List (Served κ τ ρ)}
  {kept kept' : κ → Option β} {served : Served κ τ ρ}

theorem Measures.step (measures : Measures capacity rate clock allowed read service) (capacity_nonneg : 0 ≤ capacity)
    (rate_nonneg : 0 ≤ rate) (fit : ∀ key b, kept key = some b → service.Fits served.time b)
    (within : ∀ key, OptionWithin capacity rate (allowedTimes clock allowed calls key) ((kept key).map read))
    (keeps : service.Keeps kept served kept') (key : κ) :
    OptionWithin capacity rate (allowedTimes clock allowed (calls ++ [served]) key) ((kept' key).map read) := by
  rw [allowedTimes_snoc]
  by_cases same : served.key = key
  · subst same
    have answered := measures.request (fit served.key)
    rw [keeps.1] at answered
    have granted := congrArg Prod.fst answered
    have left := congrArg Prod.snd answered
    dsimp only at granted left
    have past : ∀ old, (kept served.key).map read = some old → old.refilledAt ≤ clock served.time := by
      intro old found
      obtain ⟨b, stored, rfl⟩ := Option.map_eq_some_iff.mp found
      exact measures.past (fit _ b stored)
    have next := (within served.key).request capacity_nonneg rate_nonneg past
    rw [← granted, ← left] at next
    rw [keeps.2, Function.update_self]
    simpa only [Option.map_some, OptionWithin, true_and] using next
  · rw [if_neg (fun both => same both.1), keeps.of_ne same]
    exact within key

theorem Measures.trace (hm : Measures capacity rate clock allowed read service) (hc : 0 ≤ capacity)
    (hr : 0 ≤ rate) (ht : Trace service.Keeps (fun _ => none) calls kept)
    (ho : calls.Pairwise fun c c' => c.time ≤ c'.time) :
    (∀ t, (∀ served ∈ calls, served.time ≤ t) → ∀ key b, kept key = some b → service.Fits t b) ∧
    ∀ key, OptionWithin capacity rate (allowedTimes clock allowed calls key) ((kept key).map read) := by
  induction ht with
  | refl =>
    refine ⟨fun t _ key b hf => ?_, fun _ => rfl⟩
    cases hf
  | @snoc calls middle last served _ hon ih =>
    obtain ⟨he, -, hb⟩ := List.pairwise_append.mp ho
    obtain ⟨fit, hw⟩ := ih he
    have hfi := fit served.time fun c mem => hb c mem served (by simp)
    refine ⟨fun t hp key b hf => ?_, hm.step hc hr hfi hw hon⟩
    exact service.fits_later (hp served (by simp)) (hon.fits hfi key b hf)

theorem Measures.bound (hm : Measures capacity rate clock allowed read service) (hc : 0 ≤ capacity)
    (hr : 0 ≤ rate) (ht : Trace service.Keeps (fun _ => none) calls kept)
    (ho : calls.Pairwise fun c c' => c.time ≤ c'.time) (key : κ) {t t' : ℚ} (le : t ≤ t') :
    ((calls.countP fun served => decide (served.key = key ∧ allowed served.answer ∧ t ≤ clock served.time ∧
      clock served.time ≤ t') : ℕ) : ℚ) ≤ capacity + rate * (t' - t) := by
  rw [← taken_allowedTimes]
  exact ((hm.trace hc hr ht ho).2 key).period hc hr le

end

end Bucket
