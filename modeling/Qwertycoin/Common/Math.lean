import Mathlib

/-!
`Common::meanValue` and `Common::medianValue` of `Math.h` on 64-bit values, with the rounding of the
`double` they return and of the integer conversion their callers apply to it.
-/

namespace Common

/-- Round to nearest, ties to even, of `n / unit`. -/
def roundNearestEven (n unit : Nat) : Nat :=
  let quotient := n / unit
  let rest := n % unit
  if unit < 2 * rest ∨ (2 * rest = unit ∧ quotient % 2 = 1) then quotient + 1 else quotient

/-- The value of `double(x)` for a natural number `x`: the nearest number with a 53-bit
significand, ties to even. -/
def roundToDouble (x : Nat) : Nat :=
  if x < 2 ^ 53 then x
  else
    let unit := 2 ^ (Nat.log2 x - 52)
    roundNearestEven x unit * unit

/-- A number below `2^53` converts to `double` exactly. -/
@[simp]
theorem roundToDouble_of_lt {x : Nat} (small : x < 2 ^ 53) : roundToDouble x = x := by
  rw [roundToDouble, if_pos small]

/-- `Common::meanValue`, truncated by the caller's conversion to an integer: the sum is taken in the
element type, so it wraps. The quotient is the exact one, which the `double` division gives
whenever the sum is below `2^53`. -/
def meanValue (v : List UInt64) : Nat :=
  if v.isEmpty then 0 else roundToDouble (v.foldl (· + ·) 0).toNat / v.length

/-- `std::sort` of 64-bit values: any sorting algorithm gives the same list. -/
def sortValues (v : List UInt64) : List UInt64 := v.insertionSort (· ≤ ·)

/--
`Common::medianValue`, truncated by the caller's conversion to an integer.

One value is returned as it is; otherwise the values are sorted, and an odd count gives the middle
one, an even count the wrapping sum of the two middle ones, halved. Each is converted to `double` on
the way (the conversion back is out of range only for values within `2^11` of `2^64`).
-/
def medianValue (v : List UInt64) : Nat :=
  match v with
  | [] => 0
  | [x] => roundToDouble x.toNat
  | _ =>
    let n := v.length / 2
    let sorted := sortValues v
    if v.length % 2 = 1 then roundToDouble (sorted.getD n 0).toNat
    else roundToDouble (sorted.getD (n - 1) 0 + sorted.getD n 0).toNat / 2

end Common
