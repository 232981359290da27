import Mathlib.Algebra.Order.Ring.Int
import Mathlib.Data.List.Infix

/-! Removing tokens (such as the encodings of white space) from both ends of a list. -/

namespace Trim
variable {α : Type} [DecidableEq α]

/-- The list without the tokens it starts with, of which there are at most `n`. -/
def dropTokens (tokens : List (List α)) : Nat → List α → List α
  | 0, s => s
  | n + 1, s =>
    match tokens.find? (·.isPrefixOf s) with
    | some token => dropTokens tokens n (s.drop token.length)
    | none => s

def dropLeft (tokens : List (List α)) (s : List α) : List α := dropTokens tokens s.length s

def trim (tokens : List (List α)) (s : List α) : List α :=
  (dropLeft (tokens.map List.reverse) (dropLeft tokens s).reverse).reverse

def Bare (tokens : List (List α)) (s : List α) : Prop := ∀ token ∈ tokens, ¬ token <+: s

variable {tokens : List (List α)} {s : List α}

theorem dropTokens_suffix (n : Nat) (s : List α) : dropTokens tokens n s <:+ s := by
  induction n generalizing s with
  | zero => exact List.suffix_rfl
  | succ n ih =>
    unfold dropTokens
    split
    · exact (ih _).trans (List.drop_suffix _ _)
    · exact List.suffix_rfl

theorem bare_dropTokens (hne : [] ∉ tokens) {n : Nat} (hn : s.length ≤ n) : Bare tokens (dropTokens tokens n s) := by
  induction n generalizing s with
  | zero =>
    intro token hmem hpre
    rw [List.length_eq_zero_iff.mp (Nat.le_zero.mp hn)] at hpre
    exact hne (List.prefix_nil.mp hpre ▸ hmem)
  | succ n ih =>
    unfold dropTokens
    split
    · rename_i token hfound
      have hpos : 0 < token.length :=
        List.length_pos_iff.mpr fun h => hne (h ▸ List.mem_of_find?_eq_some hfound)
      refine ih ?_
      rw [List.length_drop]
      omega
    · rename_i hnone
      intro token hmem hpre
      exact List.find?_eq_none.mp hnone token hmem (List.isPrefixOf_iff_prefix.mpr hpre)

/-- Only tokens are dropped, so what leaves nothing ends in one. -/
theorem suffix_of_dropTokens_eq_nil (n : Nat) (s : List α) (h : dropTokens tokens n s = []) :
    s = [] ∨ ∃ token ∈ tokens, token <:+ s := by
  induction n generalizing s with
  | zero => exact .inl h
  | succ n ih =>
    unfold dropTokens at h
    split at h
    · rename_i token hfound
      have hmem := List.mem_of_find?_eq_some hfound
      have hpre : token.isPrefixOf s = true := by simpa using List.find?_some hfound
      obtain ⟨rest, rfl⟩ := List.isPrefixOf_iff_prefix.mp hpre
      rw [List.drop_left] at h
      rcases ih rest h with rfl | ⟨last, hlast, hsuf⟩
      · exact .inr ⟨token, hmem, by simp⟩
      · exact .inr ⟨last, hlast, hsuf.trans (List.suffix_append _ _)⟩
    · exact .inl h

theorem bare_trim (hne : [] ∉ tokens) : Bare tokens (trim tokens s) := by
  intro token hmem hpre
  have hsub : trim tokens s <+: dropLeft tokens s := by
    rw [← List.reverse_suffix, trim, List.reverse_reverse]
    exact dropTokens_suffix _ _
  exact bare_dropTokens hne le_rfl token hmem (hpre.trans hsub)

theorem trim_ne_nil (hbare : Bare tokens s) (hs : s ≠ []) : trim tokens s ≠ [] := by
  have hleft : dropLeft tokens s = s := by
    unfold dropLeft
    cases h : s.length with
    | zero => rfl
    | succ n =>
      have hnone : tokens.find? (·.isPrefixOf s) = none := by
        rw [List.find?_eq_none]
        intro token hmem hpre
        exact hbare token hmem (List.isPrefixOf_iff_prefix.mp hpre)
      rw [dropTokens, hnone]
  rw [trim, hleft, Ne, List.reverse_eq_nil_iff]
  intro h
  rcases suffix_of_dropTokens_eq_nil _ _ h with h | ⟨last, hlast, hsuf⟩
  · exact hs (List.reverse_eq_nil_iff.mp h)
  · obtain ⟨token, hmem, rfl⟩ := List.mem_map.mp hlast
    exact hbare token hmem (List.reverse_suffix.mp hsuf)

end Trim
