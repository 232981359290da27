import Mathlib.Algebra.Order.Ring.Int
import Mathlib.Data.List.Induction

/-! Histories of events, the newest last, read from the last event on that starts something anew. -/

variable {α : Type}

/-- `recent` is what the history holds from its last event that starts anew on, that event included; with no such event it
    is the whole history. -/
inductive Since (anew : List α → α → Prop) : List α → List α → Prop
  | whole {history : List α} (never : ∀ before event after, history = before ++ event :: after → ¬anew before event) :
    Since anew history history
  | last {before after : List α} {event : α} (starts : anew before event)
    (never : ∀ middle later rest, after = middle ++ later :: rest → ¬anew (before ++ event :: middle) later) :
    Since anew (before ++ event :: after) (event :: after)

namespace Since
variable {anew : List α → α → Prop} {history recent : List α} {event : α}

theorem nil : Since anew [] [] := whole fun before event after eq => by simp at eq

theorem restart (hs : anew history event) : Since anew (history ++ [event]) [event] :=
  last hs fun middle later rest eq => by simp at eq

theorem split_snoc {before after : List α} {middle last : α} (eq : history ++ [last] = before ++ middle :: after) :
    (history = before ∧ last = middle) ∨ ∃ rest, after = rest ++ [last] ∧ history = before ++ middle :: rest := by
  rcases List.eq_nil_or_concat after with rfl | ⟨rest, last', rfl⟩
  · obtain ⟨rfl, hsa⟩ := List.append_inj' eq rfl
    exact .inl ⟨rfl, List.singleton_inj.mp hsa⟩
  · rw [List.concat_eq_append, ← List.cons_append, ← List.append_assoc] at eq
    obtain ⟨hsa, hl⟩ := List.append_inj' eq rfl
    obtain rfl := List.singleton_inj.mp hl
    exact .inr ⟨rest, by rw [List.concat_eq_append], hsa⟩

theorem snoc (hsi : Since anew history recent) (hg : ¬anew history event) :
    Since anew (history ++ [event]) (recent ++ [event]) := by
  cases hsi with
  | whole hn =>
    refine whole fun before e after eq => ?_
    rcases split_snoc eq with ⟨rfl, rfl⟩ | ⟨rest, -, eq⟩
    · exact hg
    · exact hn before e rest eq
  | @last before after start hs hn =>
    rw [List.append_assoc, List.cons_append]
    refine last hs fun middle later rest eq => ?_
    rcases split_snoc eq with ⟨rfl, rfl⟩ | ⟨rest, -, eq⟩
    · exact hg
    · exact hn middle later rest eq

end Since
