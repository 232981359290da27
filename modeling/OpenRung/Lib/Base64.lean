import OpenRung.Lib.Decimal

/-! Base64 with the URL alphabet and no padding. The decoder skips line breaks and ignores the unused bits of a last
    value, so it accepts more than the encoder writes, and `decode_encode` is the direction that holds. -/

namespace Base64

def char (v : Nat) : UInt8 :=
  if v < 26 then UInt8.ofNat (65 + v)
  else if v < 52 then UInt8.ofNat (71 + v)
  else if v < 62 then UInt8.ofNat (v - 4)
  else if v = 62 then 45
  else 95

def value (c : UInt8) : Option Nat :=
  if 65 ≤ c ∧ c ≤ 90 then some (c.toNat - 65)
  else if 97 ≤ c ∧ c ≤ 122 then some (c.toNat - 71)
  else if 48 ≤ c ∧ c ≤ 57 then some (c.toNat + 4)
  else if c = 45 then some 62
  else if c = 95 then some 63
  else none

def encodeValues : Bytes → List Nat
  | [] => []
  | [a] => [a.toNat / 4, a.toNat % 4 * 16]
  | [a, b] => [a.toNat / 4, a.toNat % 4 * 16 + b.toNat / 16, b.toNat % 16 * 4]
  | a :: b :: c :: rest =>
    a.toNat / 4 :: (a.toNat % 4 * 16 + b.toNat / 16) :: (b.toNat % 16 * 4 + c.toNat / 64) :: c.toNat % 64 ::
      encodeValues rest

/-- The bytes of a sequence of six-bit values. One value alone is no byte. -/
def decodeValues : List Nat → Option Bytes
  | [] => some []
  | [_] => none
  | [w, x] => some [UInt8.ofNat (w * 4 + x / 16)]
  | [w, x, y] => some [UInt8.ofNat (w * 4 + x / 16), UInt8.ofNat (x % 16 * 16 + y / 4)]
  | w :: x :: y :: z :: rest => (decodeValues rest).map fun bytes =>
    UInt8.ofNat (w * 4 + x / 16) :: UInt8.ofNat (x % 16 * 16 + y / 4) :: UInt8.ofNat (y % 4 * 64 + z) :: bytes

def encode (bytes : Bytes) : Bytes := (encodeValues bytes).map char

def decode (text : Bytes) : Option Bytes :=
  ((text.filter fun c => c ≠ 10 && c ≠ 13).mapM value).bind decodeValues

theorem value_char {v : Nat} (hs : v < 64) : value (char v) = some v := by
  have all : ∀ v : Fin 64, value (char v) = some v.val := by decide
  exact all ⟨v, hs⟩

theorem encodeValues_small (bytes : Bytes) : ∀ v ∈ encodeValues bytes, v < 64 := by
  fun_induction encodeValues bytes with
  | case1 => simp
  | case2 a =>
    have := a.toNat_lt
    simp
    omega
  | case3 a b =>
    have := a.toNat_lt
    have := b.toNat_lt
    simp
    omega
  | case4 a b c rest ih =>
    have := a.toNat_lt
    have := b.toNat_lt
    have := c.toNat_lt
    simp only [List.mem_cons, forall_eq_or_imp]
    exact ⟨by omega, by omega, by omega, by omega, ih⟩

theorem length_encode (bytes : Bytes) : (encode bytes).length = (bytes.length * 8 + 5) / 6 := by
  rw [encode, List.length_map]
  fun_induction encodeValues bytes with
  | case1 => rfl
  | case2 a => simp
  | case3 a b => simp
  | case4 a b c rest ih =>
    simp only [List.length_cons, ih]
    omega

theorem ofNat_of_eq {n : Nat} {a : UInt8} (eq : n = a.toNat) : UInt8.ofNat n = a := by
  rw [eq, UInt8.ofNat_toNat]

theorem decodeValues_encodeValues (bytes : Bytes) : decodeValues (encodeValues bytes) = some bytes := by
  fun_induction encodeValues bytes with
  | case1 => rfl
  | case2 a =>
    simp only [decodeValues, Option.some.injEq, List.cons.injEq, and_true]
    exact ofNat_of_eq (by omega)
  | case3 a b =>
    have := b.toNat_lt
    simp only [decodeValues, Option.some.injEq, List.cons.injEq, and_true]
    exact ⟨ofNat_of_eq (by omega), ofNat_of_eq (by omega)⟩
  | case4 a b c rest ih =>
    have := b.toNat_lt
    have := c.toNat_lt
    simp only [decodeValues, ih, Option.map_some, Option.some.injEq, List.cons.injEq, and_true]
    exact ⟨ofNat_of_eq (by omega), ofNat_of_eq (by omega), ofNat_of_eq (by omega)⟩

theorem mapM_value_char {vs : List Nat} (hs : ∀ v ∈ vs, v < 64) : (vs.map char).mapM value = some vs := by
  induction vs with
  | nil => rfl
  | cons v vs ih =>
    rw [List.map_cons, List.mapM_cons, value_char (hs v (by simp)), ih fun w mem => hs w (by simp [mem])]
    rfl

theorem not_mem_encode {c : UInt8} (ho : value c = none) (bytes : Bytes) : c ∉ encode bytes := by
  intro mem
  obtain ⟨v, hi, rfl⟩ := List.mem_map.mp mem
  rw [value_char (encodeValues_small bytes v hi)] at ho
  cases ho

theorem decode_encode (bytes : Bytes) : decode (encode bytes) = some bytes := by
  have hk : (encode bytes).filter (fun c => c ≠ 10 && c ≠ 13) = encode bytes := by
    rw [List.filter_eq_self]
    intro c mem
    have lf : c ≠ 10 := fun eq => not_mem_encode (by decide) bytes (eq ▸ mem)
    have cr : c ≠ 13 := fun eq => not_mem_encode (by decide) bytes (eq ▸ mem)
    simp [lf, cr]
  rw [decode, hk, encode, mapM_value_char (encodeValues_small bytes), Option.bind_some, decodeValues_encodeValues]

end Base64
