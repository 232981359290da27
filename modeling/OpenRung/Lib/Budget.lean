import Mathlib.Algebra.Order.Ring.Int
import Mathlib.Algebra.Order.BigOperators.Group.List
import Mathlib.Algebra.Order.Group.Nat
import Mathlib.Data.List.Infix

/-! Queues under a byte budget. The oldest elements are at the front, and those over the budget are dropped from there
    (`fit`). A queue that is cut and thinned out again and again still covers what was put into it (`Covers`). -/

namespace Budget
variable {α : Type} (size : α → Nat)

def total (xs : List α) : Nat := (xs.map size).sum

/-- The queue without its oldest elements, as many as it takes to be within the limit. -/
def fit (limit : Nat) : List α → List α
  | [] => []
  | x :: xs => if total size (x :: xs) ≤ limit then x :: xs else fit limit xs

/-- Of every run of newest elements of `full` within the limit, `kept` ends with those that satisfy `p`, and perhaps
    others of the run. -/
def Covers (limit : Nat) (p : α → Bool) (full kept : List α) : Prop :=
  ∀ recent, recent <:+ full → total size recent ≤ limit →
    ∃ held, held <:+ kept ∧ (recent.filter p).Sublist held ∧ held.Sublist recent

variable {size} {limit : Nat} {p : α → Bool} {full kept : List α}

@[simp] theorem total_nil : total size ([] : List α) = 0 := rfl

@[simp] theorem total_cons (x : α) (xs : List α) : total size (x :: xs) = size x + total size xs := by simp [total]

@[simp] theorem total_append (xs ys : List α) : total size (xs ++ ys) = total size xs + total size ys := by simp [total]

theorem total_le_of_sublist {xs ys : List α} (sub : xs.Sublist ys) : total size xs ≤ total size ys :=
  (sub.map size).sum_le_sum fun _ _ => Nat.zero_le _

theorem fit_suffix (limit : Nat) (xs : List α) : fit size limit xs <:+ xs := by
  induction xs with
  | nil => exact List.suffix_refl _
  | cons x xs ih =>
    unfold fit
    split
    · exact List.suffix_refl _
    · exact ih.trans (List.suffix_cons x xs)

theorem total_fit_le (size : α → Nat) (limit : Nat) (xs : List α) : total size (fit size limit xs) ≤ limit := by
  induction xs with
  | nil => exact Nat.zero_le _
  | cons x xs ih =>
    unfold fit
    split
    · assumption
    · exact ih

theorem fit_append_of_lt {ys : List α} (h : limit < total size ys) (xs : List α) :
    fit size limit (xs ++ ys) = fit size limit ys := by
  induction xs with
  | nil => rfl
  | cons x xs ih =>
    have hho : ¬ total size (x :: (xs ++ ys)) ≤ limit := by
      rw [total_cons, total_append]
      omega
    rw [List.cons_append, fit, if_neg hho, ih]

theorem fit_map {β : Type} (f : β → α) (limit : Nat) (xs : List β) :
    fit size limit (xs.map f) = (fit (size ∘ f) limit xs).map f := by
  induction xs with
  | nil => rfl
  | cons x xs ih =>
    have hht : total size ((x :: xs).map f) = total (size ∘ f) (x :: xs) := by simp [total]
    rw [fit, ← hht, List.map_cons, fit, ih]
    split <;> rfl

theorem suffix_fit {recent xs : List α} (hn : recent <:+ xs) (hw : total size recent ≤ limit) :
    recent <:+ fit size limit xs := by
  induction xs with
  | nil => exact hn
  | cons x xs ih =>
    unfold fit
    split
    · exact hn
    · rename_i ha
      rcases List.suffix_cons_iff.mp hn with rfl | hi
      · exact absurd hw ha
      · exact ih hi

namespace Covers

theorem refl (limit : Nat) (p : α → Bool) (xs : List α) : Covers size limit p xs xs := fun recent hn _ =>
  ⟨recent, hn, List.filter_sublist, List.Sublist.refl recent⟩

theorem mono {q : α → Bool} (hc : Covers size limit p full kept) (hs : ∀ x, q x = true → p x = true) :
    Covers size limit q full kept := by
  intro recent hn hw
  obtain ⟨held, hl, hh, of⟩ := hc recent hn hw
  exact ⟨held, hl, (List.monotone_filter_right recent hs).trans hh, of⟩

theorem fit (hc : Covers size limit p full kept) : Covers size limit p full (fit size limit kept) := by
  intro recent hn hw
  obtain ⟨held, hl, hh, of⟩ := hc recent hn hw
  exact ⟨held, suffix_fit hl ((total_le_of_sublist of).trans hw), hh, of⟩

/-- A filter that keeps what `p` asks for may thin out the queue. -/
theorem filter {q : α → Bool} (hc : Covers size limit p full kept) (hk : ∀ x, p x = true → q x = true) :
    Covers size limit p full (kept.filter q) := by
  intro recent hn hw
  obtain ⟨held, hl, hh, of⟩ := hc recent hn hw
  refine ⟨held.filter q, hl.filter q, ?_, List.filter_sublist.trans of⟩
  have hbo : (recent.filter p).filter q = recent.filter p :=
    List.filter_eq_self.mpr fun x mem => hk x (List.mem_filter.mp mem).2
  exact hbo ▸ hh.filter q

theorem newest_cases {recent xs ys : List α} (hn : recent <:+ xs ++ ys) :
    recent <:+ ys ∨ ∃ older, recent = older ++ ys ∧ older <:+ xs := by
  rcases List.suffix_or_suffix_of_suffix hn (List.suffix_append xs ys) with hi | ⟨older, rfl⟩
  · exact Or.inl hi
  · exact Or.inr ⟨older, rfl, List.suffix_append_self_iff.mp hn⟩

/-- An element that `p` does not ask for need not be added. -/
theorem skip (hc : Covers size limit p full kept) {x : α} (out : p x = false) :
    Covers size limit p (full ++ [x]) kept := by
  intro recent hn hw
  rcases List.suffix_concat_iff.mp hn with rfl | ⟨older, rfl, hb⟩
  · exact ⟨[], List.nil_suffix, List.Sublist.refl [], List.Sublist.refl []⟩
  · rw [total_append] at hw
    obtain ⟨held, hl, hh, of⟩ := hc older hb (by omega)
    refine ⟨held, hl, ?_, of.trans (List.sublist_append_left older [x])⟩
    rwa [List.filter_append, List.filter_singleton, out, cond_false, List.append_nil]

theorem append (hc : Covers size limit p full kept) (xs : List α) :
    Covers size limit p (full ++ xs) (kept ++ xs) := by
  intro recent hn hw
  rcases newest_cases hn with hi | ⟨older, rfl, hb⟩
  · exact ⟨recent, hi.trans (List.suffix_append kept xs), List.filter_sublist, List.Sublist.refl recent⟩
  · rw [total_append] at hw
    obtain ⟨held, hl, hh, of⟩ := hc older hb (by omega)
    refine ⟨held ++ xs, List.suffix_append_self_iff.mpr hl, ?_, of.append (List.Sublist.refl xs)⟩
    rw [List.filter_append]
    exact hh.append List.filter_sublist

end Covers

/-! ### Trimming late

A queue that is cut only when it is twice over the limit is cut to elements added since the last cut, so that every
element is moved at most once on the way. -/

def moved (size : α → Nat) (limit : Nat) (xs : List α) : Nat :=
  if (fit size limit xs).length = xs.length then 0 else (fit size limit xs).length

theorem moved_le_length (size : α → Nat) (limit : Nat) (xs : List α) : moved size limit xs ≤ (fit size limit xs).length := by
  unfold moved
  split
  · exact Nat.zero_le _
  · exact le_rfl

def addLate (size : α → Nat) (limit : Nat) (acc : List α × Nat) (x : α) : List α × Nat :=
  let queue := acc.1 ++ [x]
  if total size queue > 2 * limit then (fit size limit queue, acc.2 + moved size limit queue) else (queue, acc.2)

/-- The queue after the elements `xs`: what was moved so far is within the limit, and is no more than the elements before
    the fresh ones. -/
structure Late (size : α → Nat) (limit : Nat) (xs : List α) (acc : List α × Nat) : Prop where
  suffix : acc.1 <:+ xs
  newest : ∀ ys, ys <:+ xs → total size ys ≤ limit → ys <:+ acc.1
  bound : total size acc.1 ≤ 2 * limit
  parts : ∃ settled fresh, acc.1 = settled ++ fresh ∧ total size settled ≤ limit ∧ acc.2 + fresh.length ≤ xs.length

theorem Late.nil (limit : Nat) : Late size limit [] ([], 0) where
  suffix := List.suffix_rfl
  newest _ h _ := h
  bound := Nat.zero_le _
  parts := ⟨[], [], rfl, Nat.zero_le _, le_rfl⟩

theorem Late.add {xs : List α} {acc : List α × Nat} (h : Late size limit xs acc) (x : α) :
    Late size limit (xs ++ [x]) (addLate size limit acc x) := by
  have hhs : acc.1 ++ [x] <:+ xs ++ [x] := List.suffix_append_self_iff.mpr h.suffix
  have hhn : ∀ ys, ys <:+ xs ++ [x] → total size ys ≤ limit → ys <:+ acc.1 ++ [x] := by
    intro ys hys hle
    rcases List.suffix_concat_iff.mp hys with rfl | ⟨zs, rfl, hzs⟩
    · exact List.nil_suffix
    · rw [total_append] at hle
      exact List.suffix_append_self_iff.mpr (h.newest zs hzs (by omega))
  obtain ⟨settled, fresh, hhp, hhe, hhv⟩ := h.parts
  unfold addLate
  dsimp only
  split
  · rename_i hho
    -- what was moved before is dropped, since the fresh elements are over the limit by themselves
    have hhf : fit size limit (acc.1 ++ [x]) = fit size limit (fresh ++ [x]) := by
      rw [hhp, List.append_assoc]
      refine fit_append_of_lt ?_ settled
      rw [hhp, List.append_assoc, total_append] at hho
      omega
    have hle := total_fit_le size limit (acc.1 ++ [x])
    refine ⟨(fit_suffix _ _).trans hhs, fun ys hys hhy => suffix_fit (hhn ys hys hhy) hhy,
      hle.trans (by omega), _, [], (List.append_nil _).symm, hle, ?_⟩
    have hhm := moved_le_length size limit (acc.1 ++ [x])
    have hhl : (fit size limit (fresh ++ [x])).length ≤ _ := (fit_suffix limit (fresh ++ [x])).length_le
    rw [hhf] at hhm
    simp only [List.length_append, List.length_singleton, List.length_nil] at hhl ⊢
    omega
  · rename_i hhw
    refine ⟨hhs, hhn, not_lt.mp hhw, settled, fresh ++ [x], by rw [hhp, List.append_assoc], hhe, ?_⟩
    simp only [List.length_append, List.length_singleton]
    omega

theorem late_foldl (size : α → Nat) (limit : Nat) (xs : List α) : Late size limit xs (xs.foldl (addLate size limit) ([], 0)) := by
  induction xs using List.reverseRecOn with
  | nil => exact .nil limit
  | append_singleton xs x ih =>
    rw [List.foldl_append]
    exact ih.add x

/-- With a last cut, every element is moved at most twice. -/
theorem Late.moves_le {xs : List α} {acc : List α × Nat} (h : Late size limit xs acc) :
    acc.2 + moved size limit acc.1 ≤ 2 * xs.length := by
  obtain ⟨settled, fresh, -, -, hhv⟩ := h.parts
  have hhm := moved_le_length size limit acc.1
  have hhc : (fit size limit acc.1).length ≤ _ := (fit_suffix limit acc.1).length_le
  have hhl := h.suffix.length_le
  omega

end Budget
