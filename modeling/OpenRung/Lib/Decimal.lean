import Mathlib.Algebra.Order.Ring.Int
import Mathlib.Data.List.Basic

/-! Texts as bytes, 64-bit integers and their decimal texts. A signed 64-bit integer is an `Int` brought into its
    range by `int64`; `parseInt` reads back what `formatInt` wrote of such a number. -/

abbrev Bytes := List UInt8

def ascii (text : String) : Bytes := text.toList.map fun c => UInt8.ofNat c.toNat

/-- The value that a signed 64-bit integer holds after a result `x`. -/
def int64 (x : Int) : Int := (x + 2 ^ 63) % 2 ^ 64 - 2 ^ 63

theorem int64_range (x : Int) : -2 ^ 63 ≤ int64 x ∧ int64 x < 2 ^ 63 := by
  unfold int64
  omega

theorem int64_add_le (x : Int) {d : Int} (hno : 0 ≤ d) : int64 (x + d) ≤ int64 x + d := by
  unfold int64
  omega

theorem int64_eq_self {x : Int} (low : -2 ^ 63 ≤ x) (hh : x < 2 ^ 63) : int64 x = x := by
  unfold int64
  omega

/-- A value less than half the range above `x` that is above it after wrapping is above it and has not wrapped. -/
theorem int64_above {x y : Int} (low : -2 ^ 63 ≤ x) (hh : x < 2 ^ 63) (hlo : -2 ^ 63 < y) (hne : y < x + 2 ^ 63)
    (hl : x < int64 y) : int64 y = y ∧ x < y := by
  unfold int64 at *
  omega

namespace Decimal

def digits (n : Nat) : Bytes := (Nat.toDigits 10 n).map fun c => UInt8.ofNat c.toNat

def formatInt (i : Int) : Bytes := if i < 0 then 45 :: digits i.natAbs else digits i.natAbs

def parseUint (text : Bytes) : Option Nat :=
  if text ≠ [] ∧ text.all (fun b => 48 ≤ b && b ≤ 57) then
    some (text.foldl (fun value b => 10 * value + (b.toNat - 48)) 0)
  else none

def parseBelow (limit : Nat) (text : Bytes) : Option Int :=
  (parseUint text).bind fun n => if n < limit then some (n : Int) else none

/-- An optional sign and digits, in the range of a signed 64-bit integer. -/
def parseInt : Bytes → Option Int
  | 45 :: text => (parseBelow (2 ^ 63 + 1) text).map fun i => -i
  | 43 :: text => parseBelow (2 ^ 63) text
  | text => parseBelow (2 ^ 63) text

theorem mem_digits {n : Nat} {b : UInt8} (mem : b ∈ digits n) : 48 ≤ b ∧ b ≤ 57 := by
  obtain ⟨c, hin, rfl⟩ := List.mem_map.mp mem
  have hi := Char.isDigit_iff_toNat.mp (Nat.isDigit_of_mem_toDigits (by decide) (by decide) hin)
  simp only [Char.reduceToNat] at hi
  rw [UInt8.le_iff_toNat_le, UInt8.le_iff_toNat_le, UInt8.toNat_ofNat']
  simp
  omega

theorem mem_formatInt {i : Int} {b : UInt8} (mem : b ∈ formatInt i) : b = 45 ∨ 48 ≤ b ∧ b ≤ 57 := by
  unfold formatInt at mem
  split at mem
  · rcases List.mem_cons.mp mem with rfl | mem
    · exact Or.inl rfl
    · exact Or.inr (mem_digits mem)
  · exact Or.inr (mem_digits mem)

theorem length_digits_le {n k : Nat} (hso : 0 < k) (hb : n < 10 ^ k) : (digits n).length ≤ k := by
  rw [digits, List.length_map, Nat.length_toDigits_le_iff (by decide) hso]
  exact hb

theorem parseUint_digits (n : Nat) : parseUint (digits n) = some n := by
  have hfi : digits n ≠ [] := by simp [digits, Nat.toDigits_ne_nil]
  have all : (digits n).all (fun b => 48 ≤ b && b ≤ 57) = true := by
    rw [List.all_eq_true]
    intro b mem
    have := mem_digits mem
    simp [this]
  rw [parseUint, if_pos ⟨hfi, all⟩, digits, List.foldl_map]
  have value : ∀ (cs : List Char) (start : Nat), (∀ c ∈ cs, c.isDigit) →
      cs.foldl (fun value c => 10 * value + ((UInt8.ofNat c.toNat).toNat - 48)) start = Nat.ofDigitChars 10 cs start := by
    intro cs
    induction cs with
    | nil => intros; rfl
    | cons c cs ih =>
      intro start hi
      have hhe := Char.isDigit_iff_toNat.mp (hi c (by simp))
      simp only [Char.reduceToNat] at hhe
      rw [Nat.ofDigitChars, List.foldl_cons, List.foldl_cons, ih _ fun d mem => hi d (by simp [mem])]
      have hby : (UInt8.ofNat c.toNat).toNat = c.toNat := by
        rw [UInt8.toNat_ofNat']
        omega
      rw [hby]
      rfl
  rw [value _ _ fun c mem => Nat.isDigit_of_mem_toDigits (by decide) (by decide) mem,
    Nat.ofDigitChars_toDigits (by decide) (by decide)]

theorem parseBelow_digits {n limit : Nat} (hb : n < limit) : parseBelow limit (digits n) = some (n : Int) := by
  simp [parseBelow, parseUint_digits, hb]

theorem parseInt_unsigned {b : UInt8} (hd : 48 ≤ b) (text : Bytes) :
    parseInt (b :: text) = parseBelow (2 ^ 63) (b :: text) := by
  unfold parseInt
  split
  · rename_i eq
    injection eq with head
    subst head
    exact absurd hd (by decide)
  · rename_i eq
    injection eq with head
    subst head
    exact absurd hd (by decide)
  · rfl

theorem parseInt_formatInt {i : Int} (low : -2 ^ 63 ≤ i) (hh : i < 2 ^ 63) : parseInt (formatInt i) = some i := by
  by_cases hn : i < 0
  · have hb : i.natAbs < 2 ^ 63 + 1 := by omega
    rw [formatInt, if_pos hn, parseInt, parseBelow_digits hb, Option.map_some, Option.some.injEq]
    omega
  · have hb : i.natAbs < 2 ^ 63 := by omega
    rw [formatInt, if_neg hn]
    cases ht : digits i.natAbs with
    | nil => exact absurd ht (by simp [digits, Nat.toDigits_ne_nil])
    | cons b rest =>
      have hf : b ∈ digits i.natAbs := by simp [ht]
      rw [parseInt_unsigned (mem_digits hf).1, ← ht, parseBelow_digits hb, Option.some.injEq]
      omega

theorem digits_injective : Function.Injective digits := by
  intro m n hs
  have hr := parseUint_digits m
  rw [hs, parseUint_digits] at hr
  exact (Option.some.inj hr).symm

theorem formatInt_injective : Function.Injective formatInt := by
  have hsi : ∀ m n, 45 :: digits m ≠ digits n := by
    intro m n hs
    have hf : (45 : UInt8) ∈ digits n := by simp [← hs]
    exact absurd (mem_digits hf).1 (by decide)
  intro i j hs
  unfold formatInt at hs
  split at hs <;> split at hs
  · have := digits_injective (List.cons.inj hs).2
    omega
  · exact absurd hs (hsi _ _)
  · exact absurd hs.symm (hsi _ _)
  · have := digits_injective hs
    omega

end Decimal
