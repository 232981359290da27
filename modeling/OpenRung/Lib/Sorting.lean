import Mathlib.Algebra.Order.Ring.Int
import Mathlib.Data.List.Nodup
import Mathlib.Data.List.Perm.Basic
import Mathlib.Data.Prod.Lex

/-! The stable sort by a comparison that is the order of a key, and what its stability is worth: elements with equal keys
    keep the order they came in. -/

namespace List
variable {α β : Type} [LinearOrder β] (key : α → β) {less : α → α → Bool}

theorem pairwise_mergeSort_key (hr : ∀ a b, less a b = true ↔ key a < key b) (l : List α) :
    (l.mergeSort fun a b => !less b a).Pairwise fun a b => key a ≤ key b := by
  have hli : ∀ a b, (!less b a) = true ↔ key a ≤ key b := by
    intro a b
    rw [Bool.not_eq_true', ← Bool.not_eq_true, hr, not_lt]
  refine (pairwise_mergeSort ?_ ?_ l).imp (hli _ _).mp
  · intro a b c
    simp only [hli]
    exact le_trans
  · intro a b
    simp only [Bool.or_eq_true, hli]
    exact le_total _ _

/-- Distinct keys stand in strict order. -/
theorem pairwise_lt_mergeSort_key (hr : ∀ a b, less a b = true ↔ key a < key b)
    (hin : ∀ a b, key a = key b → a = b) {l : List α} (hd : l.Nodup) :
    (l.mergeSort fun a b => !less b a).Pairwise fun a b => key a < key b := by
  have hap := (mergeSort_perm l fun a b => !less b a).nodup_iff.mpr hd
  refine ((pairwise_mergeSort_key key hr l).and hap).imp ?_
  rintro a b ⟨le, ne⟩
  exact lt_of_le_of_ne le fun hs => ne (hin a b hs)

/-- Distinct keys allow one order only. -/
theorem Perm.eq_of_pairwise_key {l l' : List α} (hhp : l.Perm l') (hl : l.Pairwise fun a b => key a ≤ key b)
    (hl' : l'.Pairwise fun a b => key a ≤ key b) (hh : (l.map key).Nodup) : l = l' := by
  refine Perm.eq_of_pairwise ?_ hl hl' hhp
  intro a b ha hb hle hge
  exact inj_on_of_nodup_map hh ha (hhp.symm.subset hb) (le_antisymm hle hge)

/-- Where the positions of the elements increase along the list, they decide between equal keys. -/
theorem pairwise_mergeSort_stable {le : α → α → Bool} (hr : ∀ a b, le a b = true ↔ key a ≤ key b) (pos : α → Nat)
    {l : List α} (hi : l.Pairwise fun a b => pos a ≤ pos b) :
    (l.mergeSort le).Pairwise fun a b => toLex (key a, pos a) ≤ toLex (key b, pos b) := by
  have ht : ∀ a b c, le a b = true → le b c = true → le a c = true := by
    intro a b c
    simp only [hr]
    exact le_trans
  have hto : ∀ a b, (le a b || le b a) = true := by
    intro a b
    simp only [Bool.or_eq_true, hr]
    exact le_total _ _
  have hmo : ∀ {a b : α × Nat}, a ∈ l.zipIdx → b ∈ l.zipIdx → a.2 ≤ b.2 → pos a.1 ≤ pos b.1 := by
    intro a b mem hm le
    obtain ⟨-, hbu, eq⟩ := mem_zipIdx mem
    obtain ⟨-, hbo, eq'⟩ := mem_zipIdx hm
    rcases le.eq_or_lt with hs | hls
    · simp [eq, eq', hs]
    · rw [eq, eq']
      exact pairwise_iff_getElem.mp hi _ _ (by lia) (by lia) (by lia)
  rw [← mergeSort_zipIdx, pairwise_map]
  refine (pairwise_mergeSort (zipIdxLE_trans ht) (zipIdxLE_total hto) l.zipIdx).imp_of_mem ?_
  intro a b mem hm hbe
  rw [mem_mergeSort] at mem hm
  rw [Prod.Lex.toLex_le_toLex]
  simp only [zipIdxLE] at hbe
  split at hbe
  next hat =>
    rw [hr] at hat
    split at hbe
    next haL =>
      exact .inr ⟨le_antisymm hat ((hr _ _).mp haL), hmo mem hm (of_decide_eq_true hbe)⟩
    next hls => exact .inl (lt_of_le_not_ge hat (mt (hr _ _).mpr hls))
  next => cases hbe

end List
