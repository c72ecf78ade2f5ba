import Mathlib
import Qwertycoin.Lib.Words

/-!
A number's digits in a base at a fixed width, lowest first: the digits of its remainder modulo
`base ^ width`, padded with zeros. Read back with Mathlib's `Nat.ofDigits`, they give that remainder
(`ofDigits_fixedDigits`); and any digits below the base are the fixed-width digits of their own
value (`fixedDigits_ofDigits`), so a fixed-width representation is unique. In base 256 the digits
are bytes, read back by `littleEndian`.
-/

namespace Nat

/-- The lowest `width` digits of `value` in `base`, lowest first. -/
def fixedDigits (base : Nat) : (width value : Nat) → List Nat
  | 0, _ => []
  | width + 1, value => value % base :: fixedDigits base width (value / base)

variable {base : Nat}

@[simp] theorem length_fixedDigits (width value : Nat) :
    (fixedDigits base width value).length = width := by
  induction width generalizing value with
  | zero => rfl
  | succ width ih => simp [fixedDigits, ih]

theorem fixedDigits_lt (positive : 0 < base) :
    ∀ (width value : Nat), ∀ d ∈ fixedDigits base width value, d < base
  | 0, _, d, member => by simp [fixedDigits] at member
  | width + 1, value, d, member => by
    simp only [fixedDigits, List.mem_cons] at member
    rcases member with rfl | later
    · exact Nat.mod_lt _ positive
    · exact fixedDigits_lt positive width _ d later

/-- Zero is all zero digits. -/
@[simp] theorem fixedDigits_zero (width : Nat) : fixedDigits base width 0 = List.replicate width 0 := by
  induction width with
  | zero => rfl
  | succ width ih => simp [fixedDigits, ih, List.replicate_succ]

/-- The digits depend only on the value modulo `base ^ width`. -/
theorem fixedDigits_mod : ∀ (width value : Nat),
    fixedDigits base width (value % base ^ width) = fixedDigits base width value
  | 0, _ => rfl
  | width + 1, value => by
    -- The lowest digit is the same, and the quotients agree modulo `base ^ width`.
    have lowest : value % base ^ (width + 1) % base = value % base := by
      rw [Nat.pow_succ, Nat.mod_mul_left_mod]
    have quotient : value % base ^ (width + 1) / base = value / base % base ^ width := by
      rw [Nat.pow_succ, Nat.mul_comm, Nat.mod_mul_right_div_self]
    rw [fixedDigits, fixedDigits, lowest, quotient, fixedDigits_mod width]

/-- Reading the digits back gives the value modulo `base ^ width`. -/
theorem ofDigits_fixedDigits : ∀ (width value : Nat),
    ofDigits base (fixedDigits base width value) = value % base ^ width
  | 0, value => by simp [fixedDigits, Nat.mod_one]
  | width + 1, value => by
    rw [fixedDigits, ofDigits_cons, ofDigits_fixedDigits width, Nat.pow_succ, Nat.mul_comm _ base,
      Nat.mod_mul]

/-- Digits below the base are the fixed-width digits of their value. -/
theorem fixedDigits_ofDigits : ∀ {digits : List Nat}, (∀ d ∈ digits, d < base) →
    fixedDigits base digits.length (ofDigits base digits) = digits
  | [], _ => rfl
  | d :: digits, small => by
    have low : d < base := small d List.mem_cons_self
    have rest := fixedDigits_ofDigits fun e member => small e (List.mem_cons_of_mem d member)
    -- The lowest digit is the remainder, and the others are the quotient's.
    have remainder : (d + base * ofDigits base digits) % base = d := by
      rw [Nat.add_mul_mod_self_left, Nat.mod_eq_of_lt low]
    have quotient : (d + base * ofDigits base digits) / base = ofDigits base digits := by
      rw [Nat.add_mul_div_left _ _ (Nat.zero_lt_of_lt low), Nat.div_eq_of_lt low, Nat.zero_add]
    simp only [List.length_cons, fixedDigits, ofDigits_cons, remainder, quotient, rest]

end Nat

/-- Little-endian bytes are the digits of their value in base 256. -/
theorem littleEndian_eq_ofDigits (bytes : List UInt8) :
    littleEndian bytes = Nat.ofDigits 256 (bytes.map UInt8.toNat) := by
  induction bytes with
  | nil => rfl
  | cons byte bytes ih => simp [ih, Nat.ofDigits_cons]

/-- The lowest `width` bytes of a value, as bytes, read back as its remainder. -/
theorem littleEndian_fixedDigits (width value : Nat) :
    littleEndian ((Nat.fixedDigits 256 width value).map UInt8.ofNat) = value % 256 ^ width := by
  have small := Nat.fixedDigits_lt (by norm_num : 0 < 256) width value
  -- Each digit is below 256, so it survives the trip through a byte.
  have same : ((Nat.fixedDigits 256 width value).map UInt8.ofNat).map UInt8.toNat =
      Nat.fixedDigits 256 width value := by
    rw [List.map_map]
    conv_rhs => rw [← List.map_id (Nat.fixedDigits 256 width value)]
    exact List.map_congr_left fun d member => by
      simp [Nat.mod_eq_of_lt (small d member)]
  rw [littleEndian_eq_ofDigits, same, Nat.ofDigits_fixedDigits]

/-- Bytes are the fixed-width bytes of their own little-endian value. -/
theorem fixedDigits_littleEndian (bytes : List UInt8) :
    (Nat.fixedDigits 256 bytes.length (littleEndian bytes)).map UInt8.ofNat = bytes := by
  have small : ∀ d ∈ bytes.map UInt8.toNat, d < 256 := by
    intro d member
    obtain ⟨byte, -, rfl⟩ := List.mem_map.mp member
    exact byte.toNat_lt
  have digits := Nat.fixedDigits_ofDigits small
  rw [List.length_map] at digits
  rw [littleEndian_eq_ofDigits, digits, List.map_map]
  conv_rhs => rw [← List.map_id bytes]
  exact List.map_congr_left fun byte _ => UInt8.ofNat_toNat

/-! ### Digits written as offsets

A digit can be written as its offset from the digit before it, modulo the base; subtracting the
digit before reads it back (`sub_add_mod_offset`). Three digits in base `n` are all of a value below
`n ^ 3` (`mod_add_mul_mod_add_mul_div`).
-/

namespace Nat

/-- The offset of `q` from a digit `a`, modulo `n`, less `a`, is `q` modulo `n`. -/
theorem sub_add_mod_offset {n a : Nat} (q : Nat) (below : a ≤ n) :
    (n - a + (q + a) % n) % n = q % n := by
  rw [Nat.add_mod_mod, show n - a + (q + a) = q + n by omega, Nat.add_mod_right]

/-- A value below `n ^ 3` is its three lowest digits in base `n`. -/
theorem mod_add_mul_mod_add_mul_div {n v : Nat} (small : v < n * n * n) :
    v % n + n * (v / n % n) + n * n * (v / n / n % n) = v := by
  have positive : 0 < n * n := by
    rcases Nat.eq_zero_or_pos n with zero | pos
    · subst zero
      simp at small
    · exact Nat.mul_pos pos pos
  have top : v / n / n < n := by
    rw [Nat.div_div_eq_div_mul, Nat.div_lt_iff_lt_mul positive, ← Nat.mul_assoc]
    exact small
  -- The value is its lowest digit and `n` times the rest, twice over.
  have low := Nat.mod_add_div v n
  have high := Nat.mod_add_div (v / n) n
  rw [Nat.mod_eq_of_lt top]
  calc v % n + n * (v / n % n) + n * n * (v / n / n)
      = v % n + n * (v / n % n + n * (v / n / n)) := by ring
    _ = v % n + n * (v / n) := by rw [high]
    _ = v := low

end Nat
