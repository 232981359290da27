import Mathlib.Algebra.Order.Field.Rat
import Mathlib.Tactic.Linarith
import Mathlib.Tactic.Ring

/-! Token buckets over the rationals. In a period of length `T` no more than the capacity plus `rate * T` tokens are
    taken (`Bucket.Within`). -/

structure Bucket where
  tokens : ℚ
  refilledAt : ℚ
  deriving DecidableEq

namespace Bucket

def full (capacity now : ℚ) : Bucket := ⟨capacity, now⟩

def refill (capacity rate now : ℚ) (b : Bucket) : Bucket :=
  ⟨min capacity (b.tokens + (now - b.refilledAt) * rate), now⟩

def spend (b : Bucket) : Bucket := { b with tokens := b.tokens - 1 }

def taken (times : List ℚ) (t t' : ℚ) : Nat := times.countP fun at_ => decide (t ≤ at_ ∧ at_ ≤ t')

/-- The bucket has been used at these times: none lies ahead, and whatever was taken since a time left room for the tokens
    that are there. -/
structure Within (capacity rate : ℚ) (times : List ℚ) (b : Bucket) : Prop where
  nonneg : 0 ≤ b.tokens
  le : b.tokens ≤ capacity
  past : ∀ at_ ∈ times, at_ ≤ b.refilledAt
  since : ∀ t ≤ b.refilledAt, (taken times t b.refilledAt : ℚ) + b.tokens ≤ capacity + rate * (b.refilledAt - t)
  period : ∀ t t', t ≤ t' → (taken times t t' : ℚ) ≤ capacity + rate * (t' - t)

variable {capacity rate now : ℚ} {times : List ℚ} {b : Bucket}

theorem taken_cons (at_ : ℚ) (times : List ℚ) (t t' : ℚ) :
    taken (at_ :: times) t t' = taken times t t' + if t ≤ at_ ∧ at_ ≤ t' then 1 else 0 := by
  simp [taken, List.countP_cons]

/-- What was taken up to some time was taken up to any later time. -/
theorem taken_eq_of_past {t t' t'' : ℚ} (hp : ∀ at_ ∈ times, at_ ≤ t') (le : t' ≤ t'') :
    taken times t t'' = taken times t t' := by
  refine List.countP_congr fun at_ mem => ?_
  have := hp at_ mem
  simp only [decide_eq_true_eq]
  exact ⟨fun hi => ⟨hi.1, this⟩, fun hi => ⟨hi.1, hi.2.trans le⟩⟩

theorem taken_eq_zero {t t' : ℚ} (hp : ∀ at_ ∈ times, at_ < t) : taken times t t' = 0 := by
  refine List.countP_eq_zero.mpr fun at_ mem hi => ?_
  exact absurd (of_decide_eq_true hi).1 (not_le.mpr (hp at_ mem))

theorem Within.full (capacity_nonneg : 0 ≤ capacity) (rate_nonneg : 0 ≤ rate) (now : ℚ) :
    Within capacity rate [] (full capacity now) := by
  refine ⟨capacity_nonneg, le_rfl, nofun, fun t le => ?_, fun t t' le => ?_⟩
  · have := mul_nonneg rate_nonneg (sub_nonneg.mpr le)
    simpa [taken, Bucket.full] using this
  · have := mul_nonneg rate_nonneg (sub_nonneg.mpr le)
    simp only [taken, List.countP_nil, Nat.cast_zero]
    linarith

theorem Within.refill (hw : Within capacity rate times b) (hr : 0 ≤ rate) (hl : b.refilledAt ≤ now) :
    Within capacity rate times (b.refill capacity rate now) := by
  have he : 0 ≤ (now - b.refilledAt) * rate := mul_nonneg (sub_nonneg.mpr hl) hr
  refine ⟨le_min (hw.nonneg.trans hw.le) (add_nonneg hw.nonneg he), min_le_left _ _,
    fun at_ mem => (hw.past at_ mem).trans hl, fun t le => ?_, hw.period⟩
  show (taken times t now : ℚ) + min capacity (b.tokens + (now - b.refilledAt) * rate) ≤ capacity + rate * (now - t)
  rcases le_or_gt t b.refilledAt with old | new
  · rw [taken_eq_of_past hw.past hl]
    have hs := hw.since t old
    have hre := min_le_right capacity (b.tokens + (now - b.refilledAt) * rate)
    calc (taken times t b.refilledAt : ℚ) + min capacity (b.tokens + (now - b.refilledAt) * rate)
        ≤ taken times t b.refilledAt + b.tokens + (now - b.refilledAt) * rate := by linarith
      _ ≤ capacity + rate * (b.refilledAt - t) + (now - b.refilledAt) * rate := by linarith
      _ = capacity + rate * (now - t) := by ring
  · rw [taken_eq_zero fun at_ mem => (hw.past at_ mem).trans_lt new]
    have hro : 0 ≤ rate * (now - t) := mul_nonneg hr (sub_nonneg.mpr le)
    have hc := min_le_left capacity (b.tokens + (now - b.refilledAt) * rate)
    simp only [Nat.cast_zero]
    linarith

/-- A token that is there may be taken now. -/
theorem Within.spend (hw : Within capacity rate times b) (hr : 0 ≤ rate) (one : 1 ≤ b.tokens) :
    Within capacity rate (b.refilledAt :: times) b.spend := by
  have hc : b.tokens - 1 ≤ capacity := by linarith [hw.le]
  refine ⟨sub_nonneg.mpr one, hc, ?_, fun t le => ?_, fun t t' le => ?_⟩
  · intro at_ mem
    rcases List.mem_cons.mp mem with rfl | mem
    · exact le_rfl
    · exact hw.past at_ mem
  · have hs := hw.since t le
    show (taken (b.refilledAt :: times) t b.refilledAt : ℚ) + (b.tokens - 1) ≤ capacity + rate * (b.refilledAt - t)
    rw [taken_cons, if_pos ⟨le, le_rfl⟩]
    push_cast
    linarith
  · rw [taken_cons]
    split
    next hi =>
      -- the period reaches to the new token, and all others lie before it
      have hs := hw.since t hi.1
      rw [taken_eq_of_past hw.past hi.2]
      have hm : rate * (b.refilledAt - t) ≤ rate * (t' - t) :=
        mul_le_mul_of_nonneg_left (sub_le_sub_right hi.2 t) hr
      push_cast
      linarith
    next =>
      simpa using hw.period t t' le

end Bucket
