import OpenRung.Lib.Decimal

/-! Fields joined by a separator, such as the lines of a signed statement. A join of separator-free fields determines
    them, also against as many fields that are not known to be free of it (`join_injective`). -/

namespace Joined

section Lists
variable {α : Type} [DecidableEq α] {sep : α}

theorem count_intercalate (f : List α) (fs : List (List α)) :
    ([sep].intercalate (f :: fs)).count sep = fs.length + (f :: fs).flatten.count sep := by
  induction fs generalizing f with
  | nil => simp
  | cons g fs ih =>
    rw [List.intercalate_cons_cons, List.count_append, List.count_append, ih]
    simp only [List.count_singleton_self, List.length_cons, List.flatten_cons, List.count_append]
    omega

omit [DecidableEq α] in
theorem not_mem_flatten {fs : List (List α)} : sep ∉ fs.flatten ↔ ∀ f ∈ fs, sep ∉ f := by simp

omit [DecidableEq α] in
theorem mem_intercalate {a : α} {fs : List (List α)} (h : a ∈ [sep].intercalate fs) : a = sep ∨ ∃ f ∈ fs, a ∈ f := by
  induction fs with
  | nil => exact absurd h (by simp)
  | cons f fs ih =>
    cases fs with
    | nil => exact .inr ⟨f, List.mem_cons_self, by simpa using h⟩
    | cons g fs =>
      rw [List.intercalate_cons_cons, List.mem_append, List.mem_append] at h
      rcases h with (h | h) | h
      · exact .inr ⟨f, List.mem_cons_self, h⟩
      · exact .inl (List.mem_singleton.mp h)
      · rcases ih h with h | ⟨field, hhm, h⟩
        · exact .inl h
        · exact .inr ⟨field, List.mem_cons_of_mem _ hhm, h⟩

/-- As many fields that join to the same text as separator-free ones are the same fields. -/
theorem intercalate_injective {fs gs : List (List α)} (hl : fs.length = gs.length) (hf : ∀ f ∈ fs, sep ∉ f)
    (hsa : [sep].intercalate fs = [sep].intercalate gs) : fs = gs := by
  cases fs with
  | nil => exact (List.length_eq_zero_iff.mp hl.symm).symm
  | cons f fs =>
    cases gs with
    | nil => cases hl
    | cons g gs =>
      -- the free side has no separator inside its fields, so the other side has none either
      have hco := congrArg (List.count sep) hsa
      rw [count_intercalate, count_intercalate, Nat.succ.inj hl,
        List.count_eq_zero.mpr (not_mem_flatten.mpr hf)] at hco
      have ho := not_mem_flatten.mp (List.count_eq_zero.mp (Nat.add_left_cancel hco).symm)
      have hsp := congrArg (List.splitOn sep) hsa
      rwa [List.splitOn_intercalate sep hf (by simp), List.splitOn_intercalate sep ho (by simp)] at hsp

end Lists

def utf8 (text : String) : Bytes := text.toByteArray.data.toList

theorem utf8_injective : Function.Injective utf8 := by
  intro a b hsa
  exact String.toByteArray_inj.mp (ByteArray.ext (Array.toList_inj.mp hsa))

theorem utf8_eq_flatMap (text : String) : utf8 text = text.toList.flatMap String.utf8EncodeChar := by
  have h : text.toByteArray = text.toList.utf8Encode := by
    conv_lhs => rw [← String.ofList_toList (s := text)]
    exact String.toByteArray_ofList
  rw [utf8, h, List.utf8Encode, List.data_toByteArray]

theorem ofNat_mem_utf8 {text : String} (h : ∀ b ∈ utf8 text, b < 128) {c : Char} (hc : c ∈ text.toList) :
    c.toNat < 128 ∧ UInt8.ofNat c.toNat ∈ utf8 text := by
  rw [utf8_eq_flatMap] at h ⊢
  have hh : ∀ b ∈ String.utf8EncodeChar c, b ∈ text.toList.flatMap String.utf8EncodeChar :=
    fun b hb => List.mem_flatMap.mpr ⟨c, hc, hb⟩
  have hhs : c.toNat ≤ 127 := by
    by_contra hhb
    -- every longer encoding ends in a continuation byte
    have hhl : UInt8.ofNat (c.toNat % 64 + 128) ∈ String.utf8EncodeChar c := by
      rw [String.utf8EncodeChar, Char.toNat_val, if_neg hhb]
      split
      · simp
      · split <;> simp
    have hlt := UInt8.lt_iff_toNat_lt.mp (h _ (hh _ hhl))
    rw [UInt8.toNat_ofNat_of_lt' (by simp only [UInt8.size]; omega)] at hlt
    exact absurd hlt (by simp)
  refine ⟨by omega, hh _ ?_⟩
  rw [String.utf8EncodeChar, Char.toNat_val, if_pos hhs]
  exact List.mem_singleton.mpr rfl

theorem splitOn_join {fs : List String} (hso : fs ≠ []) (hf : ∀ f ∈ fs, '\n' ∉ f.toList) :
    ("\n".intercalate fs).toList.splitOn '\n' = fs.map String.toList := by
  rw [String.toList_intercalate]
  exact List.splitOn_intercalate '\n' (by simpa using hf) (by simpa using hso)

/-- Fields without a line break are determined by the text of their lines. -/
theorem join_injective {fs gs : List String} (hl : fs.length = gs.length) (hf : ∀ f ∈ fs, '\n' ∉ f.toList)
    (hsa : "\n".intercalate fs = "\n".intercalate gs) : fs = gs := by
  have hli := congrArg String.toList hsa
  rw [String.toList_intercalate, String.toList_intercalate] at hli
  have hfi : fs.map String.toList = gs.map String.toList := by
    refine intercalate_injective (by simpa using hl) ?_ hli
    intro f mem
    obtain ⟨g, hi, rfl⟩ := List.mem_map.mp mem
    exact hf g hi
  exact (List.map_injective_iff.mpr fun _ _ => String.toList_inj.mp) hfi

/-- The first line of a text that has more than one line. -/
theorem head_eq_of_join {f g : String} {fs gs : List String} (hm : fs ≠ []) (hmo : gs ≠ [])
    (hfr : '\n' ∉ f.toList) (hfe : '\n' ∉ g.toList)
    (hsa : "\n".intercalate (f :: fs) = "\n".intercalate (g :: gs)) : f = g := by
  have hhe : ∀ {h : String} {hs : List String}, hs ≠ [] → '\n' ∉ h.toList →
      ("\n".intercalate (h :: hs)).toList.takeWhile (· ≠ '\n') = h.toList := by
    intro h hs hmr hf
    have hln : ("\n".intercalate (h :: hs)).toList = h.toList ++ '\n' :: ("\n".intercalate hs).toList := by
      rw [String.intercalate_cons_of_ne_nil hmr]
      simp
    have hbe : ∀ c ∈ h.toList, decide (c ≠ '\n') = true := by
      intro c mem
      exact decide_eq_true fun hsa => hf (hsa ▸ mem)
    rw [hln, List.takeWhile_append_of_pos hbe]
    simp
  rw [← String.toList_inj, ← hhe hm hfr, ← hhe hmo hfe, hsa]

/-! ### Decimal texts -/

theorem natRepr_injective : Function.Injective Nat.repr := by
  intro m n hsa
  rw [Nat.repr_eq_ofList_toDigits, Nat.repr_eq_ofList_toDigits, String.ofList_inj] at hsa
  exact Decimal.digits_injective (by rw [Decimal.digits, hsa, Decimal.digits])

theorem isDigit_of_mem_natRepr {n : Nat} {c : Char} (mem : c ∈ n.repr.toList) : c.isDigit := by
  rw [Nat.repr_eq_ofList_toDigits, String.toList_ofList] at mem
  exact Nat.isDigit_of_mem_toDigits (by decide) (by decide) mem

theorem intRepr_injective : Function.Injective Int.repr := by
  have hsi : ∀ m n : Nat, "-" ++ m.repr ≠ n.repr := by
    intro m n hsa
    have hfs : '-' ∈ n.repr.toList := by simp [← hsa]
    exact absurd (isDigit_of_mem_natRepr hfs) (by decide)
  intro i j hsa
  cases i with
  | ofNat m =>
    cases j with
    | ofNat n => exact congrArg Int.ofNat (natRepr_injective hsa)
    | negSucc n => exact absurd hsa.symm (hsi _ _)
  | negSucc m =>
    cases j with
    | ofNat n => exact absurd hsa (hsi _ _)
    | negSucc n =>
      have hd : (m + 1).repr = (n + 1).repr := String.append_right_inj _ |>.mp hsa
      exact congrArg Int.negSucc (Nat.succ.inj (natRepr_injective hd))

theorem newline_not_mem_intRepr (i : Int) : '\n' ∉ i.repr.toList := by
  intro mem
  cases i with
  | ofNat m => exact absurd (isDigit_of_mem_natRepr mem) (by decide)
  | negSucc m =>
    have hla : '\n' ∈ (m + 1).repr.toList := by simpa [Int.repr] using mem
    exact absurd (isDigit_of_mem_natRepr hla) (by decide)

end Joined
