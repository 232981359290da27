import OpenRung.Lib.Checks
import Mathlib.Data.List.DropRight

/-! Sequences read as lines that end in a separator. A file that was cut in the middle of a line is first cut back to
    its last separator (`complete`). A line written at a line boundary is read back whatever stands before or after it
    (`lines_append_line`), also when the file is cut back (`complete_append_line`). -/

namespace Lines
variable {α : Type} [DecidableEq α]

/-- The lines of `xs`, without their separators. A last line without a separator counts unless it is empty. -/
def lines (sep : α) : List α → List (List α)
  | [] => []
  | x :: xs =>
    if x = sep then [] :: lines sep xs
    else match lines sep xs with
      | [] => [[x]]
      | l :: ls => (x :: l) :: ls

/-- `xs` up to and including its last separator. -/
def complete (sep : α) (xs : List α) : List α := xs.rdropWhile (· ≠ sep)

def rest (sep : α) (xs : List α) : List α := xs.rtakeWhile (· ≠ sep)

/-- `xs` is empty or ends in a separator: what is appended to it starts a new line. -/
def Whole (sep : α) (xs : List α) : Prop := xs = [] ∨ ∃ ys, xs = ys ++ [sep]

variable {sep : α}

@[simp] theorem lines_nil : lines sep ([] : List α) = [] := rfl

@[simp] theorem lines_sep (xs : List α) : lines sep (sep :: xs) = [] :: lines sep xs := by simp [lines]

theorem lines_cons_ne {x : α} (ho : x ≠ sep) (xs : List α) :
    lines sep (x :: xs) = match lines sep xs with
      | [] => [[x]]
      | l :: ls => (x :: l) :: ls := if_neg ho

theorem lines_ne_nil (x : α) (xs : List α) : lines sep (x :: xs) ≠ [] := by
  by_cases hh : x = sep
  · simp [hh]
  · rw [lines_cons_ne hh]
    split <;> simp

theorem lines_line {l : List α} (hf : sep ∉ l) (xs : List α) :
    lines sep (l ++ sep :: xs) = l :: lines sep xs := by
  induction l with
  | nil => simp
  | cons x l ih =>
    rw [List.mem_cons, not_or] at hf
    rw [List.cons_append, lines_cons_ne (Ne.symm hf.1), ih hf.2]

theorem lines_unterminated {l : List α} (hf : sep ∉ l) (hfi : l ≠ []) : lines sep l = [l] := by
  induction l with
  | nil => exact absurd rfl hfi
  | cons x l ih =>
    rw [List.mem_cons, not_or] at hf
    rw [lines_cons_ne (Ne.symm hf.1)]
    cases l with
    | nil => rfl
    | cons y l => rw [ih hf.2 (by simp)]

/-- Reading commutes with an append at a line boundary. -/
theorem lines_append {a : List α} (hw : Whole sep a) (b : List α) :
    lines sep (a ++ b) = lines sep a ++ lines sep b := by
  obtain rfl | ⟨a, rfl⟩ := hw
  · rfl
  · rw [List.append_assoc]
    induction a with
    | nil => simp
    | cons x a ih =>
      by_cases hh : x = sep
      · subst hh
        show lines x (x :: (a ++ ([x] ++ b))) = lines x (x :: (a ++ [x])) ++ lines x b
        rw [lines_sep, lines_sep, ih, List.cons_append]
      · show lines sep (x :: (a ++ ([sep] ++ b))) = lines sep (x :: (a ++ [sep])) ++ lines sep b
        rw [lines_cons_ne hh, lines_cons_ne hh, ih]
        -- the lines of a terminated text are not none, so `x` joins the same first line on both sides
        cases hr : lines sep (a ++ [sep]) with
        | nil =>
          cases a with
          | nil => simp at hr
          | cons y a => exact absurd hr (lines_ne_nil y _)
        | cons l ls => rfl

theorem lines_append_line {a l : List α} (hw : Whole sep a) (hf : sep ∉ l) (b : List α) :
    lines sep (a ++ (l ++ sep :: b)) = lines sep a ++ l :: lines sep b := by
  rw [lines_append hw, lines_line hf]

omit [DecidableEq α] in
theorem Whole.nil : Whole sep ([] : List α) := Or.inl rfl

omit [DecidableEq α] in
theorem Whole.append {a b : List α} (hle : Whole sep a) (hri : Whole sep b) : Whole sep (a ++ b) := by
  obtain rfl | ⟨b, rfl⟩ := hri
  · simpa using hle
  · exact Or.inr ⟨a ++ b, (List.append_assoc ..).symm⟩

omit [DecidableEq α] in
theorem Whole.line (l : List α) : Whole sep (l ++ [sep]) := Or.inr ⟨l, rfl⟩

omit [DecidableEq α] in
theorem whole_flatMap (ls : List (List α)) : Whole sep (ls.flatMap (· ++ [sep])) := by
  induction ls with
  | nil => exact Whole.nil
  | cons l ls ih => exact (Whole.line l).append ih

theorem lines_flatMap_append {ls : List (List α)} (hf : ∀ l ∈ ls, sep ∉ l) (xs : List α) :
    lines sep (ls.flatMap (· ++ [sep]) ++ xs) = ls ++ lines sep xs := by
  induction ls with
  | nil => rfl
  | cons l ls ih =>
    have hl : (l :: ls).flatMap (· ++ [sep]) ++ xs = l ++ sep :: (ls.flatMap (· ++ [sep]) ++ xs) := by simp
    rw [hl, lines_line (hf l (by simp)), ih fun k mem => hf k (by simp [mem])]
    rfl

omit [DecidableEq α] in
/-- A cut leaves whole lines and perhaps a part of the next one. -/
theorem prefix_flatMap {ls : List (List α)} {xs : List α} (cut : xs <+: ls.flatMap (· ++ [sep])) :
    ∃ n tail, xs = (ls.take n).flatMap (· ++ [sep]) ++ tail ∧ (tail = [] ∨ ∃ l, ls[n]? = some l ∧ tail <+: l) := by
  induction ls generalizing xs with
  | nil => exact ⟨0, [], by simpa using cut, Or.inl rfl⟩
  | cons l ls ih =>
    rw [List.flatMap_cons] at cut
    by_cases hi : xs.length ≤ l.length
    · have hp : xs <+: l := by
        rw [List.append_assoc] at cut
        exact List.prefix_of_prefix_length_le cut (List.prefix_append _ _) hi
      exact ⟨0, xs, rfl, Or.inr ⟨l, rfl, hp⟩⟩
    · have hlo : (l ++ [sep]).length ≤ xs.length := by
        simp only [List.length_append, List.length_singleton]
        omega
      obtain ⟨ys, rfl⟩ := List.prefix_of_prefix_length_le (List.prefix_append _ _) cut hlo
      obtain ⟨n, tail, rfl, hla⟩ := ih ((List.prefix_append_right_inj _).mp cut)
      exact ⟨n + 1, tail, by simp, by simpa using hla⟩

theorem complete_whole (xs : List α) : Whole sep (complete sep xs) := by
  rcases List.eq_nil_or_concat (complete sep xs) with hn | ⟨ys, last, eq⟩
  · exact Or.inl hn
  · have hfi : complete sep xs ≠ [] := by simp [eq]
    have hst : (complete sep xs).getLast hfi = sep := by
      simpa [complete] using List.rdropWhile_last_not (fun x => decide (x ≠ sep)) xs hfi
    have his : last = sep := by simpa [eq] using hst
    exact Or.inr ⟨ys, by rw [eq, his, List.concat_eq_append]⟩

theorem complete_append_rest (xs : List α) : complete sep xs ++ rest sep xs = xs :=
  List.rdropWhile_append_rtakeWhile

theorem complete_append_free (xs : List α) {ys : List α} (hf : sep ∉ ys) :
    complete sep (xs ++ ys) = complete sep xs := by
  induction ys using List.reverseRecOn generalizing xs with
  | nil => simp
  | append_singleton ys y ih =>
    have hla : y ≠ sep := fun hsa => hf (by simp [hsa])
    rw [← List.append_assoc]
    simp only [complete] at ih ⊢
    rw [List.rdropWhile_concat_pos _ _ _ (by simpa using hla)]
    exact ih xs fun hi => hf (by simp [hi])

theorem complete_of_whole {xs : List α} (hw : Whole sep xs) : complete sep xs = xs := by
  obtain rfl | ⟨xs, rfl⟩ := hw
  · rfl
  · exact List.rdropWhile_concat_neg _ _ _ (by simp)

theorem rest_append_free {xs ys : List α} (hw : Whole sep xs) (hf : sep ∉ ys) : rest sep (xs ++ ys) = ys := by
  have hs := @complete_append_rest α _ sep (xs ++ ys)
  rw [complete_append_free xs hf, complete_of_whole hw] at hs
  exact List.append_cancel_left hs

/-- Cutting back to the last separator keeps everything up to any separator. -/
theorem complete_append_whole {a : List α} (hw : Whole sep a) (b : List α) :
    complete sep (a ++ b) = a ++ complete sep b := by
  have hs : a ++ b = (a ++ complete sep b) ++ rest sep b := by
    rw [List.append_assoc, complete_append_rest]
  have hf : sep ∉ rest sep b := by
    intro hi
    simpa using List.mem_rtakeWhile_imp hi
  rw [hs, complete_append_free _ hf, complete_of_whole (hw.append (complete_whole b))]

theorem complete_append_line {a l : List α} (hw : Whole sep a) (b : List α) :
    complete sep (a ++ (l ++ sep :: b)) = a ++ (l ++ sep :: complete sep b) := by
  have hl : l ++ sep :: b = (l ++ [sep]) ++ b := by simp
  rw [hl, complete_append_whole hw, complete_append_whole (Whole.line l)]
  simp

end Lines
