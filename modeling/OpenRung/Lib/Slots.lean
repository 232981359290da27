import Mathlib.Algebra.Order.Ring.Int
import Mathlib.Data.List.Perm.Basic
import Mathlib.Data.List.Basic

/-! Records in a list that are replaced in place. Two lists that differ in one record differ by what that record
    contributes. -/

namespace List
variable {α β : Type} {l : List α} {i : Nat} {old : α}

theorem getElem?_set_cases {new a : α} {k : Nat} (ha : (l.set i new)[k]? = some a) :
    (k = i ∧ a = new) ∨ (k ≠ i ∧ l[k]? = some a) := by
  rw [getElem?_set] at ha
  by_cases hh : i = k
  · rw [if_pos hh] at ha
    split at ha
    · exact .inl ⟨hh.symm, (Option.some.inj ha).symm⟩
    · cases ha
  · rw [if_neg hh] at ha
    exact .inr ⟨Ne.symm hh, ha⟩

theorem getElem?_concat_cases {new a : α} {k : Nat} (ha : (l ++ [new])[k]? = some a) :
    l[k]? = some a ∨ (k = l.length ∧ a = new) := by
  rcases Nat.lt_trichotomy k l.length with lt | rfl | gt
  · rw [getElem?_append_left lt] at ha
    exact .inl ha
  · rw [getElem?_concat_length] at ha
    exact .inr ⟨rfl, (Option.some.inj ha).symm⟩
  · rw [getElem?_eq_none (by rw [length_append]; exact gt)] at ha
    cases ha

theorem set_eq_self (ht : l[i]? = some old) : l.set i old = l := by
  obtain ⟨lt, rfl⟩ := getElem?_eq_some_iff.mp ht
  exact set_getElem_self lt

theorem perm_cons_eraseIdx (ht : l[i]? = some old) : l.Perm (old :: l.eraseIdx i) := by
  obtain ⟨lt, rfl⟩ := getElem?_eq_some_iff.mp ht
  exact (getElem_cons_eraseIdx_perm lt).symm

theorem set_perm_cons_eraseIdx_of (ht : l[i]? = some old) (new : α) : (l.set i new).Perm (new :: l.eraseIdx i) :=
  set_perm_cons_eraseIdx (getElem?_eq_some_iff.mp ht).1 new

/-- What the other records contribute is common to both lists. -/
theorem exists_filterMap_set (f : α → Option β) (ht : l[i]? = some old) (new : α) :
    ∃ others : List β, (l.filterMap f).Perm ((f old).toList ++ others) ∧
      ((l.set i new).filterMap f).Perm ((f new).toList ++ others) := by
  refine ⟨(l.eraseIdx i).filterMap f, ?_, ?_⟩
  · have hp := (perm_cons_eraseIdx ht).filterMap f
    cases hc : f old with
    | none => simpa [hc] using hp
    | some b => simpa [hc] using hp
  · have hp := (set_perm_cons_eraseIdx_of ht new).filterMap f
    cases hc : f new with
    | none => simpa [hc] using hp
    | some b => simpa [hc] using hp

end List
