import OpenRung.Lib.Decimal
import Mathlib.Data.List.Infix
import Mathlib.Tactic.Ring

/-! Reads of byte slices with their bounds checks, and unsigned numbers in big-endian order. -/

namespace Slice

/-- `data[lo:hi]`, or `none` where the read is out of bounds. -/
def slice (data : Bytes) (lo hi : Nat) : Option Bytes :=
  if lo ≤ hi ∧ hi ≤ data.length then some ((data.drop lo).take (hi - lo)) else none

def bigEndian : Nat → Nat → Bytes
  | 0, _ => []
  | w + 1, n => UInt8.ofNat (n / 256 ^ w) :: bigEndian w n

def ofBigEndian (bytes : Bytes) : Nat := bytes.foldl (fun n b => n * 256 + b.toNat) 0

/-! ### Numbers -/

@[simp] theorem length_bigEndian (w n : Nat) : (bigEndian w n).length = w := by
  induction w with
  | zero => rfl
  | succ w ih => simp [bigEndian, ih]

theorem foldl_eq (bytes : Bytes) (acc : Nat) :
    bytes.foldl (fun n b => n * 256 + b.toNat) acc = acc * 256 ^ bytes.length + ofBigEndian bytes := by
  induction bytes generalizing acc with
  | nil => simp [ofBigEndian]
  | cons b bytes ih =>
    rw [ofBigEndian, List.foldl_cons, List.foldl_cons, ih, ih, List.length_cons, pow_succ]
    ring

theorem ofBigEndian_cons (b : UInt8) (bytes : Bytes) :
    ofBigEndian (b :: bytes) = b.toNat * 256 ^ bytes.length + ofBigEndian bytes := by
  rw [ofBigEndian, List.foldl_cons, foldl_eq, Nat.zero_mul, Nat.zero_add]

theorem ofBigEndian_lt (bytes : Bytes) : ofBigEndian bytes < 256 ^ bytes.length := by
  induction bytes with
  | nil => decide
  | cons b bytes ih =>
    have hb : b.toNat + 1 ≤ 256 := b.toNat_lt
    calc ofBigEndian (b :: bytes) < (b.toNat + 1) * 256 ^ bytes.length := by
          rw [ofBigEndian_cons, Nat.add_mul, Nat.one_mul]
          exact Nat.add_lt_add_left ih _
      _ ≤ 256 * 256 ^ bytes.length := Nat.mul_le_mul_right _ hb
      _ = 256 ^ (b :: bytes).length := by rw [List.length_cons, pow_succ, Nat.mul_comm]

theorem ofBigEndian_bigEndian {w n : Nat} (h : n < 256 ^ w) : ofBigEndian (bigEndian w n) = n := by
  have hmod : ∀ w, ofBigEndian (bigEndian w n) = n % 256 ^ w := by
    intro w
    induction w with
    | zero => simp [bigEndian, ofBigEndian, Nat.mod_one]
    | succ w ih =>
      have hdigit : (UInt8.ofNat (n / 256 ^ w)).toNat = n / 256 ^ w % 256 := by simp
      rw [bigEndian, ofBigEndian_cons, ih, hdigit, length_bigEndian, pow_succ, Nat.mod_mul]
      ring
  rw [hmod, Nat.mod_eq_of_lt h]

theorem bigEndian_ofBigEndian (bytes : Bytes) : bigEndian bytes.length (ofBigEndian bytes) = bytes := by
  -- the digits below a power do not see what is added above it
  have hlow : ∀ (w k n : Nat), bigEndian w (k * 256 ^ w + n) = bigEndian w n := by
    intro w
    induction w with
    | zero => exact fun _ _ => rfl
    | succ w ih =>
      intro k n
      have hsplit : k * 256 ^ (w + 1) + n = k * 256 * 256 ^ w + n := by ring
      have hdigit : UInt8.ofNat ((k * 256 * 256 ^ w + n) / 256 ^ w) = UInt8.ofNat (n / 256 ^ w) := by
        rw [Nat.add_comm, Nat.add_mul_div_right _ _ (Nat.pow_pos (by decide))]
        apply UInt8.toNat_inj.mp
        simp
      rw [bigEndian, bigEndian, hsplit, hdigit, ih]
  induction bytes with
  | nil => rfl
  | cons b bytes ih =>
    have hlt := ofBigEndian_lt bytes
    have hdigit : (b.toNat * 256 ^ bytes.length + ofBigEndian bytes) / 256 ^ bytes.length = b.toNat := by
      rw [Nat.add_comm, Nat.add_mul_div_right _ _ (Nat.pow_pos (by decide)), Nat.div_eq_of_lt hlt, Nat.zero_add]
    rw [List.length_cons, bigEndian, ofBigEndian_cons, hdigit, hlow, ih, UInt8.ofNat_toNat]

/-! ### Reads -/

theorem split_at {data : Bytes} {n : Nat} (h : n ≤ data.length) : ∃ a b, data = a ++ b ∧ a.length = n :=
  ⟨data.take n, data.drop n, (List.take_append_drop n data).symm, List.length_take_of_le h⟩

/-- A read at the start of what follows `a`. -/
theorem slice_append {a d : Bytes} {lo hi n : Nat} (hlo : lo = a.length) (hhi : hi = lo + n) (hn : n ≤ d.length) :
    slice (a ++ d) lo hi = some (d.take n) := by
  subst hlo hhi
  simp [slice, hn]

theorem slice_part {data a x b : Bytes} {lo hi : Nat} (h : data = a ++ (x ++ b)) (hlo : lo = a.length)
    (hhi : hi = lo + x.length) : slice data lo hi = some x := by
  rw [h, slice_append hlo hhi (by simp), List.take_left]

end Slice
