import Mathlib

/-!
Machine words as numbers: bytes read little-endian, and the carry out of a 64-bit addition, with and
without a carry in, stated on the words' values.
-/

/-- The number whose little-endian bytes these are. -/
def littleEndian (bytes : List UInt8) : Nat :=
  bytes.foldr (fun byte value => byte.toNat + 256 * value) 0

@[simp] theorem littleEndian_nil : littleEndian [] = 0 := rfl

@[simp] theorem littleEndian_cons (byte : UInt8) (bytes : List UInt8) :
    littleEndian (byte :: bytes) = byte.toNat + 256 * littleEndian bytes := rfl

/-- The bytes after `front` count `256 ^ front.length` times as much. -/
theorem littleEndian_append (front back : List UInt8) :
    littleEndian (front ++ back) = littleEndian front + 256 ^ front.length * littleEndian back := by
  induction front with
  | nil => simp
  | cons byte front ih =>
    simp only [List.cons_append, littleEndian_cons, ih, List.length_cons, Nat.pow_succ]
    ring

/-- Cutting the bytes after the first `n`. -/
theorem littleEndian_take_drop (bytes : List UInt8) {n : Nat} (long : n ≤ bytes.length) :
    littleEndian bytes = littleEndian (bytes.take n) + 256 ^ n * littleEndian (bytes.drop n) := by
  have split := littleEndian_append (bytes.take n) (bytes.drop n)
  rwa [List.take_append_drop, List.length_take_of_le long] at split

theorem littleEndian_lt (bytes : List UInt8) : littleEndian bytes < 256 ^ bytes.length := by
  induction bytes with
  | nil => simp
  | cons byte bytes ih =>
    have small := byte.toNat_lt
    simp only [littleEndian_cons, List.length_cons, Nat.pow_succ]
    omega

/-- One step of long division in base `base`: dividing `x * base + digit` continues from the
remainder of `x`, with the quotient of `x` shifted by one digit. -/
theorem longDivision_step (x digit base m : Nat) (positive : 0 < m) :
    (x * base + digit) / m = x / m * base + (x % m * base + digit) / m ∧
      (x * base + digit) % m = (x % m * base + digit) % m := by
  have split : x * base + digit = (x % m * base + digit) + m * (x / m * base) := by
    calc x * base + digit = (m * (x / m) + x % m) * base + digit := by rw [Nat.div_add_mod]
      _ = (x % m * base + digit) + m * (x / m * base) := by ring
  rw [split, Nat.add_mul_div_left _ _ positive, Nat.add_mul_mod_self_left]
  exact ⟨Nat.add_comm _ _, rfl⟩

namespace UInt64

/-- Two half words joined into one word, the high one shifted up. -/
theorem shiftLeft_or_toNat {high low : UInt64} (highSmall : high.toNat < 2 ^ 32)
    (lowSmall : low.toNat < 2 ^ 32) :
    ((high <<< 32) ||| low).toNat = high.toNat * 2 ^ 32 + low.toNat := by
  have shifted : (high <<< 32).toNat = high.toNat * 2 ^ 32 := by
    rw [UInt64.toNat_shiftLeft]
    have shift : (32 : UInt64).toNat % 64 = 32 := rfl
    rw [shift, Nat.shiftLeft_eq]
    exact Nat.mod_eq_of_lt (by omega)
  rw [UInt64.toNat_or, shifted, Nat.mul_comm, Nat.two_pow_add_eq_or_of_lt lowSmall]

/-- A wrapped sum is below an addend exactly when the true sum does not fit. -/
theorem add_lt_left_iff (a b : UInt64) : a + b < a ↔ 2 ^ 64 ≤ a.toNat + b.toNat := by
  have small := a.toNat_lt
  have small' := b.toNat_lt
  rw [UInt64.lt_iff_toNat_lt, UInt64.toNat_add]
  omega

/-- The same test with the addends the other way round, as in `money > amount + money`. -/
theorem add_lt_right_iff (a b : UInt64) : b + a < a ↔ 2 ^ 64 ≤ a.toNat + b.toNat := by
  rw [UInt64.add_comm]
  exact add_lt_left_iff a b

/-- A sum of words computed in 64 bits is the true sum modulo `2 ^ 64`. -/
theorem toNat_foldl_add (money : UInt64) (amounts : List UInt64) :
    (amounts.foldl (· + ·) money).toNat = (money.toNat + (amounts.map UInt64.toNat).sum) % 2 ^ 64 := by
  -- The running sum is generalized: it is the accumulator of the fold.
  induction amounts generalizing money with
  | nil => simp [Nat.mod_eq_of_lt money.toNat_lt]
  | cons amount rest ih =>
    rw [List.foldl_cons, ih, UInt64.toNat_add, List.map_cons, List.sum_cons, Nat.mod_add_mod,
      Nat.add_assoc]

/-- With a carry in, the sum carries out when the words' sum does, or when it is the largest word
and the carry in is set. -/
theorem add_carry_iff (a b : UInt64) (carry : Bool) :
    (a + b < a ∨ (carry = true ∧ a + b = 0xFFFFFFFFFFFFFFFF)) ↔
      2 ^ 64 ≤ a.toNat + b.toNat + carry.toNat := by
  have small := a.toNat_lt
  have small' := b.toNat_lt
  have largest : a + b = 0xFFFFFFFFFFFFFFFF ↔ (a.toNat + b.toNat) % 2 ^ 64 = 2 ^ 64 - 1 := by
    rw [← UInt64.toNat_inj, UInt64.toNat_add]
    rfl
  rw [add_lt_left_iff, largest]
  cases carry with
  | false => simp
  | true => simp; omega

end UInt64

namespace UInt32

/-- A sum that fits in 32 bits is the true sum. -/
theorem toNat_add_of_lt {a b : UInt32} (fits : a.toNat + b.toNat < 2 ^ 32) :
    (a + b).toNat = a.toNat + b.toNat := by
  rw [UInt32.toNat_add, Nat.mod_eq_of_lt fits]

/-- A product that fits in 32 bits is the true product. -/
theorem toNat_mul_of_lt {a b : UInt32} (fits : a.toNat * b.toNat < 2 ^ 32) :
    (a * b).toNat = a.toNat * b.toNat := by
  rw [UInt32.toNat_mul, Nat.mod_eq_of_lt fits]

end UInt32
