import Mathlib.Algebra.Order.Ring.Int
import Mathlib.Data.List.Basic

/-! Binary search in a sequence that a test splits into a front part that passes and a back part that does not. -/

namespace SortedSearch
variable {α : Type}

def search (below : α → Bool) (xs : List α) (i j : Nat) : Nat :=
  if i < j then
    let h := (i + j) / 2
    if xs[h]?.any below then search below xs (h + 1) j else search below xs i h
  else i
termination_by j - i

variable {below : α → Bool} {xs : List α}

/-- `below` holds of a front part of the sequence. -/
def Splits (below : α → Bool) (xs : List α) : Prop := xs.Pairwise fun x y => below y = true → below x = true

theorem Splits.earlier (hs : Splits below xs) {i j : Nat} {x y : α} (hbe : i ≤ j) (hfi : xs[i]? = some x)
    (hse : xs[j]? = some y) (hh : below y = true) : below x = true := by
  rcases Nat.lt_or_eq_of_le hbe with hbe | rfl
  · obtain ⟨hi, rfl⟩ := List.getElem?_eq_some_iff.mp hfi
    obtain ⟨hin, rfl⟩ := List.getElem?_eq_some_iff.mp hse
    exact List.pairwise_iff_getElem.mp hs i j hi hin hbe hh
  · rw [hfi] at hse
    cases hse
    exact hh

structure Bounds (below : α → Bool) (xs : List α) (i j : Nat) : Prop where
  ordered : i ≤ j
  front : ∀ k x, xs[k]? = some x → k < i → below x = true
  back : ∀ k x, xs[k]? = some x → j ≤ k → below x = false

theorem search_bounds (hs : Splits below xs) (i j : Nat) (hi : j ≤ xs.length) (hb : Bounds below xs i j) :
    Bounds below xs (search below xs i j) (search below xs i j) := by
  fun_induction search below xs i j with
  | case1 i j ha h hp ih =>
    have hm : xs[h]? = some xs[h] := List.getElem?_eq_getElem (by omega)
    rw [hm] at hp
    exact ih hi ⟨by omega, fun k x ht hbe => hs.earlier (by omega) ht hm hp, hb.back⟩
  | case2 i j ha h hf ih =>
    have hm : xs[h]? = some xs[h] := List.getElem?_eq_getElem (by omega)
    rw [hm] at hf
    refine ih (by omega) ⟨by omega, hb.front, fun k x ht haf => ?_⟩
    exact Bool.eq_false_iff.mpr fun hh => hf (hs.earlier haf hm ht hh)
  | case3 i j hd =>
    obtain rfl : i = j := Nat.le_antisymm hb.ordered (Nat.not_lt.mp hd)
    exact hb

theorem search_le (i j : Nat) (ho : i ≤ j) : search below xs i j ≤ j := by
  fun_induction search below xs i j with
  | case1 i j ha h hp ih => exact ih (by omega)
  | case2 i j ha h hf ih => exact Nat.le_trans (ih (by omega)) (by omega)
  | case3 i j hd => exact ho

/-- A search of the whole sequence stops where the front part ends. -/
theorem search_spec (hs : Splits below xs) {k : Nat} {x : α} (ht : xs[k]? = some x) :
    below x = true ↔ k < search below xs 0 xs.length := by
  have all : Bounds below xs 0 xs.length :=
    ⟨Nat.zero_le _, fun _ _ _ hbe => absurd hbe (Nat.not_lt_zero _), fun k x ht haf => by
      obtain ⟨hi, -⟩ := List.getElem?_eq_some_iff.mp ht
      omega⟩
  have hb := search_bounds hs 0 xs.length (Nat.le_refl _) all
  constructor
  · intro hh
    by_contra haf
    rw [hb.back k x ht (Nat.not_lt.mp haf)] at hh
    cases hh
  · exact hb.front k x ht

end SortedSearch
