import Qwertycoin.Lib.Bisection
import Qwertycoin.Lib.Words
import Qwertycoin.Core.Currency

/-! The block reward: 128-bit helpers of `int-util.h`, the size penalty and `getBlockReward`. -/

namespace CryptoNote

/-- `hi_dword`: the upper thirty-two bits. -/
def hiDword (val : UInt64) : UInt64 := val >>> 32

/-- `lo_dword`: the lower thirty-two bits. -/
def loDword (val : UInt64) : UInt64 := val &&& 0xFFFFFFFF

/-- `mul128`: the product of two words from four half-word products, as (low word, high word). -/
def mul128 (multiplier multiplicand : UInt64) : UInt64 × UInt64 :=
  let a := hiDword multiplier
  let b := loDword multiplier
  let c := hiDword multiplicand
  let d := loDword multiplicand
  let ac := a * c
  let ad := a * d
  let bc := b * c
  let bd := b * d
  let adbc := ad + bc
  let adbcCarry : UInt64 := if adbc < ad then 1 else 0
  let productLo := bd + (adbc <<< 32)
  let productLoCarry : UInt64 := if productLo < bd then 1 else 0
  (productLo, ac + (adbc >>> 32) + (adbcCarry <<< 32) + productLoCarry)

theorem hiDword_toNat (val : UInt64) : (hiDword val).toNat = val.toNat / 2 ^ 32 := by
  simp [hiDword, UInt64.toNat_shiftRight, Nat.shiftRight_eq_div_pow]

theorem loDword_toNat (val : UInt64) : (loDword val).toNat = val.toNat % 2 ^ 32 := by
  simp only [loDword, UInt64.toNat_and]
  exact Nat.and_two_pow_sub_one_eq_mod val.toNat 32

/-- Two half words multiply without wrapping. -/
theorem toNat_mul_of_half {x y : UInt64} (hx : x.toNat < 2 ^ 32) (hy : y.toNat < 2 ^ 32) :
    (x * y).toNat = x.toNat * y.toNat := by
  have fits : x.toNat * y.toNat < 2 ^ 64 := by
    calc x.toNat * y.toNat < 2 ^ 32 * 2 ^ 32 := Nat.mul_lt_mul'' hx hy
      _ = 2 ^ 64 := by rfl
  rw [UInt64.toNat_mul, Nat.mod_eq_of_lt fits]

/-- `mul128` is the product, as a low and a high word. -/
theorem mul128_spec (multiplier multiplicand : UInt64) :
    (mul128 multiplier multiplicand).1.toNat + 2 ^ 64 * (mul128 multiplier multiplicand).2.toNat =
      multiplier.toNat * multiplicand.toNat := by
  have hm := multiplier.toNat_lt
  have hn := multiplicand.toNat_lt
  have a := hiDword_toNat multiplier
  have b := loDword_toNat multiplier
  have c := hiDword_toNat multiplicand
  have d := loDword_toNat multiplicand
  have a32 : (hiDword multiplier).toNat < 2 ^ 32 := by rw [a]; omega
  have b32 : (loDword multiplier).toNat < 2 ^ 32 := by rw [b]; omega
  have c32 : (hiDword multiplicand).toNat < 2 ^ 32 := by rw [c]; omega
  have d32 : (loDword multiplicand).toNat < 2 ^ 32 := by rw [d]; omega
  have ac := toNat_mul_of_half a32 c32
  have ad := toNat_mul_of_half a32 d32
  have bc := toNat_mul_of_half b32 c32
  have bd := toNat_mul_of_half b32 d32
  -- The four half-word products, with the bound a product of half words has.
  have bound : ∀ x y : Nat, x < 2 ^ 32 → y < 2 ^ 32 → x * y ≤ (2 ^ 32 - 1) * (2 ^ 32 - 1) :=
    fun x y hx hy => Nat.mul_le_mul (by omega) (by omega)
  have acB := bound _ _ a32 c32
  have adB := bound _ _ a32 d32
  have bcB := bound _ _ b32 c32
  have bdB := bound _ _ b32 d32
  -- The product in half words.
  have expand : multiplier.toNat * multiplicand.toNat =
      2 ^ 64 * ((hiDword multiplier).toNat * (hiDword multiplicand).toNat) +
      2 ^ 32 * ((hiDword multiplier).toNat * (loDword multiplicand).toNat +
        (loDword multiplier).toNat * (hiDword multiplicand).toNat) +
      (loDword multiplier).toNat * (loDword multiplicand).toNat := by
    have m : multiplier.toNat = 2 ^ 32 * (hiDword multiplier).toNat + (loDword multiplier).toNat := by
      omega
    have n : multiplicand.toNat = 2 ^ 32 * (hiDword multiplicand).toNat +
        (loDword multiplicand).toNat := by omega
    rw [m, n]
    ring
  rw [expand]
  simp only [mul128]
  generalize (hiDword multiplier).toNat * (hiDword multiplicand).toNat = X at *
  generalize (hiDword multiplier).toNat * (loDword multiplicand).toNat = Y at *
  generalize (loDword multiplier).toNat * (hiDword multiplicand).toNat = Z at *
  generalize (loDword multiplier).toNat * (loDword multiplicand).toNat = W at *
  -- A carry word is one exactly when the sum it watches does not fit.
  have carryWord : ∀ u v : UInt64, (if u + v < u then (1 : UInt64) else 0).toNat =
      if 2 ^ 64 ≤ u.toNat + v.toNat then 1 else 0 := by
    intro u v
    by_cases wrap : 2 ^ 64 ≤ u.toNat + v.toNat
    · rw [if_pos ((UInt64.add_lt_left_iff u v).mpr wrap), if_pos wrap]
      rfl
    · rw [if_neg (mt (UInt64.add_lt_left_iff u v).mp wrap), if_neg wrap]
      rfl
  have shift : (32 : UInt64).toNat % 64 = 32 := rfl
  simp only [carryWord, shift, UInt64.toNat_add, UInt64.toNat_shiftLeft, UInt64.toNat_shiftRight,
    ac, ad, bc, bd, Nat.shiftLeft_eq, Nat.shiftRight_eq_div_pow]
  -- The two carries, of the middle sum and of the low word, each set or not.
  split <;> split <;> omega

/-- `div_with_reminder`: one step of long division in base `2^32`, as (quotient, remainder). -/
def divWithReminder (dividend : UInt64) (divisor remainder : UInt32) : UInt64 × UInt32 :=
  let dividend := dividend ||| (remainder.toUInt64 <<< 32)
  (dividend / divisor.toUInt64, (dividend % divisor.toUInt64).toUInt32)

/-- `div128_32`: a 128-bit word divided by a 32-bit one, as (high quotient, low quotient,
remainder). -/
def div128By32 (dividendHi dividendLo : UInt64) (divisor : UInt32) : UInt64 × UInt64 × UInt32 :=
  let (q3, r3) := divWithReminder (hiDword dividendHi) divisor 0
  let (q2, r2) := divWithReminder (loDword dividendHi) divisor r3
  let (q1, r1) := divWithReminder (hiDword dividendLo) divisor r2
  let (q0, r0) := divWithReminder (loDword dividendLo) divisor r1
  ((q3 <<< 32) ||| q2, (q1 <<< 32) ||| q0, r0)

/-- `getPenalizedAmount`: the amount scaled by `(2m - s) * s / m^2` once the block is larger
than the median; the asserts of the source are compiled out. -/
def getPenalizedAmount (amount : UInt64) (medianSize currentBlockSize : Nat) : UInt64 :=
  if amount = 0 then 0
  else if currentBlockSize ≤ medianSize then amount
  else
    let multiplicand :=
      (2 * UInt64.ofNat medianSize - UInt64.ofNat currentBlockSize) * UInt64.ofNat currentBlockSize
    let (productLo, productHi) := mul128 amount multiplicand
    let (hi, lo, _) := div128By32 productHi productLo (UInt32.ofNat medianSize)
    let (_, penalized, _) := div128By32 hi lo (UInt32.ofNat medianSize)
    penalized

/-! ### The penalty is the exact scaled amount -/

/-- One call of `div_with_reminder` continues a long division by one 32-bit digit: given the
remainder of `x`, it returns the next quotient digit and the remainder of `x * 2^32 + digit`. -/
theorem divWithReminder_step (x : Nat) {digit : UInt64} {divisor remainder : UInt32}
    (positive : 0 < divisor.toNat) (small : digit.toNat < 2 ^ 32)
    (rest : remainder.toNat = x % divisor.toNat) :
    (divWithReminder digit divisor remainder).1.toNat < 2 ^ 32 ∧
      x / divisor.toNat * 2 ^ 32 + (divWithReminder digit divisor remainder).1.toNat =
        (x * 2 ^ 32 + digit.toNat) / divisor.toNat ∧
      (divWithReminder digit divisor remainder).2.toNat =
        (x * 2 ^ 32 + digit.toNat) % divisor.toNat := by
  obtain ⟨quotient, remainderEq⟩ := longDivision_step x digit.toNat (2 ^ 32) divisor.toNat positive
  have below : remainder.toNat < divisor.toNat := rest ▸ Nat.mod_lt _ positive
  -- The remainder is joined above the digit; the two do not overlap.
  have joined : (digit ||| (remainder.toUInt64 <<< 32)).toNat =
      remainder.toNat * 2 ^ 32 + digit.toNat := by
    rw [UInt64.or_comm, UInt64.shiftLeft_or_toNat (by simpa using remainder.toNat_lt) small,
      UInt32.toNat_toUInt64]
  have divisorWord : divisor.toUInt64.toNat = divisor.toNat := UInt32.toNat_toUInt64 divisor
  unfold divWithReminder
  dsimp only
  refine ⟨?_, ?_, ?_⟩
  · rw [UInt64.toNat_div, joined, divisorWord, Nat.div_lt_iff_lt_mul positive]
    omega
  · rw [UInt64.toNat_div, joined, divisorWord, rest, quotient]
  · rw [UInt64.toNat_toUInt32, UInt64.toNat_mod, joined, divisorWord, rest, ← remainderEq]
    exact Nat.mod_eq_of_lt (Nat.lt_trans (Nat.mod_lt _ positive) divisor.toNat_lt)

/-- `div128_32` divides the 128-bit word exactly: the quotient as a high and a low word, and the
remainder. -/
theorem div128By32_spec (dividendHi dividendLo : UInt64) {divisor : UInt32}
    (positive : 0 < divisor.toNat) :
    (div128By32 dividendHi dividendLo divisor).1.toNat * 2 ^ 64 +
        (div128By32 dividendHi dividendLo divisor).2.1.toNat =
      (dividendHi.toNat * 2 ^ 64 + dividendLo.toNat) / divisor.toNat ∧
      (div128By32 dividendHi dividendLo divisor).2.2.toNat =
        (dividendHi.toNat * 2 ^ 64 + dividendLo.toNat) % divisor.toNat := by
  -- The four 32-bit digits of the dividend, most significant first.
  have hiSplit : dividendHi.toNat = (hiDword dividendHi).toNat * 2 ^ 32 +
      (loDword dividendHi).toNat := by
    rw [hiDword_toNat, loDword_toNat]
    omega
  have loSplit : dividendLo.toNat = (hiDword dividendLo).toNat * 2 ^ 32 +
      (loDword dividendLo).toNat := by
    rw [hiDword_toNat, loDword_toNat]
    omega
  have digit : ∀ word : UInt64, (hiDword word).toNat < 2 ^ 32 ∧ (loDword word).toNat < 2 ^ 32 :=
    fun word => by
      rw [hiDword_toNat, loDword_toNat]
      have := word.toNat_lt
      omega
  unfold div128By32
  dsimp only
  -- Each call continues the division from the remainder the one before left.
  have step3 := divWithReminder_step 0 positive (digit dividendHi).1
    (by simp : (0 : UInt32).toNat = 0 % divisor.toNat)
  rcases call3 : divWithReminder (hiDword dividendHi) divisor 0 with ⟨q3, r3⟩
  rw [call3, Nat.zero_mul, Nat.zero_add, Nat.zero_div, Nat.zero_mul, Nat.zero_add] at step3
  dsimp only at step3 ⊢
  have step2 := divWithReminder_step (hiDword dividendHi).toNat positive (digit dividendHi).2
    step3.2.2
  rcases call2 : divWithReminder (loDword dividendHi) divisor r3 with ⟨q2, r2⟩
  rw [call2, ← hiSplit] at step2
  dsimp only at step2 ⊢
  have step1 := divWithReminder_step dividendHi.toNat positive (digit dividendLo).1 step2.2.2
  rcases call1 : divWithReminder (hiDword dividendLo) divisor r2 with ⟨q1, r1⟩
  rw [call1] at step1
  dsimp only at step1 ⊢
  have step0 := divWithReminder_step (dividendHi.toNat * 2 ^ 32 + (hiDword dividendLo).toNat)
    positive (digit dividendLo).2 step1.2.2
  rcases call0 : divWithReminder (loDword dividendLo) divisor r1 with ⟨q0, r0⟩
  rw [call0] at step0
  dsimp only at step0 ⊢
  have whole : dividendHi.toNat * 2 ^ 64 + dividendLo.toNat =
      (dividendHi.toNat * 2 ^ 32 + (hiDword dividendLo).toNat) * 2 ^ 32 +
        (loDword dividendLo).toNat := by
    rw [loSplit]
    ring
  rw [whole, UInt64.shiftLeft_or_toNat step3.1 step2.1, UInt64.shiftLeft_or_toNat step1.1 step0.1]
  refine ⟨?_, step0.2.2⟩
  rw [← step0.2.1, ← step1.2.1, ← step2.2.1, ← step3.2.1]
  ring

/-- The block-size factor `(2m - s) * s` is at most `m ^ 2`, and below it once `s` passes `m`. -/
theorem penaltyFactor_le (medianSize currentBlockSize : Nat) (atLeast : medianSize ≤ currentBlockSize)
    (atMost : currentBlockSize ≤ 2 * medianSize) :
    (2 * medianSize - currentBlockSize) * currentBlockSize ≤ medianSize ^ 2 ∧
      (medianSize < currentBlockSize →
        (2 * medianSize - currentBlockSize) * currentBlockSize < medianSize ^ 2) := by
  obtain ⟨excess, rfl⟩ := Nat.exists_eq_add_of_le atLeast
  -- `(m - t) * (m + t) = m ^ 2 - t ^ 2`.
  have factor : (2 * medianSize - (medianSize + excess)) * (medianSize + excess) =
      medianSize * medianSize - excess * excess := by
    rw [Nat.mul_self_sub_mul_self_eq, Nat.mul_comm]
    congr 1
    omega
  have excessLe : excess * excess ≤ medianSize * medianSize := Nat.mul_self_le_mul_self (by omega)
  rw [factor, Nat.pow_two]
  refine ⟨Nat.sub_le _ _, fun larger => ?_⟩
  have : 0 < excess * excess := Nat.mul_pos (by omega) (by omega)
  omega

/-- `getPenalizedAmount` within the asserts of the source: the amount times `(2m - s) * s / m ^ 2`,
rounded down, which is at most the amount, so that the second division's high quotient is zero. -/
theorem getPenalizedAmount_toNat (amount : UInt64) {medianSize currentBlockSize : Nat}
    (positive : 0 < medianSize) (atLeast : medianSize ≤ currentBlockSize)
    (atMost : currentBlockSize ≤ 2 * medianSize) (fits : 2 * medianSize ≤ 2 ^ 32) :
    (getPenalizedAmount amount medianSize currentBlockSize).toNat =
      amount.toNat * (2 * medianSize - currentBlockSize) * currentBlockSize / medianSize ^ 2 := by
  have square : 0 < medianSize ^ 2 := Nat.pow_pos positive
  have factor := penaltyFactor_le medianSize currentBlockSize atLeast atMost
  unfold getPenalizedAmount
  by_cases zero : amount = 0
  · rw [if_pos zero, zero]
    simp
  rw [if_neg zero]
  by_cases small : currentBlockSize ≤ medianSize
  · -- The block is at the median: the factor is `m ^ 2` itself.
    rw [if_pos small, show currentBlockSize = medianSize by omega, Nat.mul_assoc,
      show (2 * medianSize - medianSize) * medianSize = medianSize ^ 2 by
        rw [Nat.pow_two]
        congr 1
        omega,
      Nat.mul_div_cancel _ square]
  rw [if_neg small]
  dsimp only
  -- The multiplicand `(2m - s) * s` is computed exactly in 64 bits.
  have medianWord : (UInt64.ofNat medianSize).toNat = medianSize := by
    rw [UInt64.toNat_ofNat']
    exact Nat.mod_eq_of_lt (by omega)
  have blockWord : (UInt64.ofNat currentBlockSize).toNat = currentBlockSize := by
    rw [UInt64.toNat_ofNat']
    exact Nat.mod_eq_of_lt (by omega)
  have twice : (2 * UInt64.ofNat medianSize).toNat = 2 * medianSize := by
    rw [UInt64.toNat_mul, medianWord]
    exact Nat.mod_eq_of_lt (by simp only [UInt64.reduceToNat]; omega)
  have difference : (2 * UInt64.ofNat medianSize - UInt64.ofNat currentBlockSize).toNat =
      2 * medianSize - currentBlockSize := by
    rw [UInt64.toNat_sub_of_le _ _ (by rw [UInt64.le_iff_toNat_le, twice, blockWord]; exact atMost),
      twice, blockWord]
  have multiplicand : ((2 * UInt64.ofNat medianSize - UInt64.ofNat currentBlockSize) *
      UInt64.ofNat currentBlockSize).toNat = (2 * medianSize - currentBlockSize) * currentBlockSize := by
    rw [UInt64.toNat_mul, difference, blockWord]
    refine Nat.mod_eq_of_lt (Nat.lt_of_le_of_lt factor.1 ?_)
    calc medianSize ^ 2 ≤ (2 ^ 31) ^ 2 := Nat.pow_le_pow_left (by omega) 2
      _ < 2 ^ 64 := by decide
  have divisor : (UInt32.ofNat medianSize).toNat = medianSize := by
    rw [UInt32.toNat_ofNat']
    exact Nat.mod_eq_of_lt (by omega)
  have divisorPositive : 0 < (UInt32.ofNat medianSize).toNat := by
    rw [divisor]
    exact positive
  rcases product : mul128 amount ((2 * UInt64.ofNat medianSize - UInt64.ofNat currentBlockSize) *
    UInt64.ofNat currentBlockSize) with ⟨productLo, productHi⟩
  have productSpec := mul128_spec amount ((2 * UInt64.ofNat medianSize -
    UInt64.ofNat currentBlockSize) * UInt64.ofNat currentBlockSize)
  rw [product, multiplicand] at productSpec
  dsimp only at productSpec ⊢
  rcases first : div128By32 productHi productLo (UInt32.ofNat medianSize) with ⟨hi, lo, _⟩
  have firstSpec := (div128By32_spec productHi productLo divisorPositive).1
  rw [first] at firstSpec
  dsimp only at firstSpec ⊢
  rcases second : div128By32 hi lo (UInt32.ofNat medianSize) with ⟨hi', penalized, _⟩
  have secondSpec := (div128By32_spec hi lo divisorPositive).1
  rw [second] at secondSpec
  dsimp only at secondSpec ⊢
  -- Two divisions by `m` are one by `m ^ 2`, and the quotient is at most the amount.
  have quotient : hi'.toNat * 2 ^ 64 + penalized.toNat =
      amount.toNat * (2 * medianSize - currentBlockSize) * currentBlockSize / medianSize ^ 2 := by
    rw [secondSpec, firstSpec, divisor, Nat.add_comm, Nat.mul_comm productHi.toNat, productSpec,
      Nat.div_div_eq_div_mul, ← Nat.pow_two, Nat.mul_assoc]
  have atMostAmount : amount.toNat * (2 * medianSize - currentBlockSize) * currentBlockSize /
      medianSize ^ 2 ≤ amount.toNat := by
    apply Nat.div_le_of_le_mul
    rw [Nat.mul_assoc, Nat.mul_comm (medianSize ^ 2)]
    exact Nat.mul_le_mul_left _ factor.1
  have := amount.toNat_lt
  omega

/-- `getPenalizedAmount` within the asserts of the source computes the penalized amount exactly:
the amount times `(2m - s) * s / m ^ 2`, rounded down, a quotient that fits in 64 bits; below the
amount once the block passes the median and the amount is not zero, and the amount itself up to the
median. -/
theorem getPenalizedAmount_exact (amount : UInt64) {medianSize currentBlockSize : Nat}
    (positive : 0 < medianSize) (atLeast : medianSize ≤ currentBlockSize)
    (atMost : currentBlockSize ≤ 2 * medianSize) (fits : 2 * medianSize ≤ 2 ^ 32) :
    (getPenalizedAmount amount medianSize currentBlockSize).toNat =
        amount.toNat * (2 * medianSize - currentBlockSize) * currentBlockSize / medianSize ^ 2 ∧
      amount.toNat * (2 * medianSize - currentBlockSize) * currentBlockSize / medianSize ^ 2 ≤
        amount.toNat ∧
      (medianSize < currentBlockSize → 0 < amount.toNat →
        getPenalizedAmount amount medianSize currentBlockSize < amount) ∧
      (currentBlockSize ≤ medianSize →
        getPenalizedAmount amount medianSize currentBlockSize = amount) := by
  have exact := getPenalizedAmount_toNat amount positive atLeast atMost fits
  have square : 0 < medianSize ^ 2 := Nat.pow_pos positive
  have factor := penaltyFactor_le medianSize currentBlockSize atLeast atMost
  refine ⟨exact, ?_, fun larger nonzero => ?_, fun small => ?_⟩
  · apply Nat.div_le_of_le_mul
    rw [Nat.mul_assoc, Nat.mul_comm (medianSize ^ 2)]
    exact Nat.mul_le_mul_left _ factor.1
  · -- A factor below `m ^ 2` scales a nonzero amount strictly down.
    rw [UInt64.lt_iff_toNat_lt, exact, Nat.div_lt_iff_lt_mul square, Nat.mul_assoc]
    exact Nat.mul_lt_mul_of_pos_left (factor.2 larger) nonzero
  · unfold getPenalizedAmount
    by_cases zero : amount = 0
    · rw [if_pos zero, zero]
    · rw [if_neg zero, if_pos small]

/-- Blocks of 150 bytes against a median of 100 keep three quarters of the amount. -/
theorem getPenalizedAmount_exact_at_150 :
    0 < 100 ∧ 100 ≤ 150 ∧ 150 ≤ 2 * 100 ∧ 2 * 100 ≤ 2 ^ 32 ∧
      (getPenalizedAmount 1000 100 150).toNat = 750 :=
  ⟨by decide, by decide, by decide, by decide,
    (getPenalizedAmount_exact 1000 (by decide) (by decide) (by decide) (by decide)).1.trans
      (by decide)⟩

/-- A zero amount stays zero under any penalty, so it is not strictly reduced. -/
theorem getPenalizedAmount_zero_not_below :
    (1 : Nat) < 2 ∧ getPenalizedAmount 0 1 2 = 0 ∧ ¬ getPenalizedAmount 0 1 2 < 0 := by
  decide

namespace Currency

variable (currency : Currency)

/--
`uint64_t(value * consistency)`, with the consistency factor of `getBlockReward` and the product
taken as exact real numbers.

From `UPGRADE_HEIGHT_REWARD_SCHEME` the factor is `blockTarget / difficultyTarget` below one, and
its fourth root capped at two above one. Above one, the floor of `value` times the factor is the
greatest `k` up to `2 * value` with `k ^ 4 * difficultyTarget ≤ value ^ 4 * blockTarget`, found by
bisection over `[value, 2 * value]`, an interval shorter than `2 ^ 64` for a 64-bit `value`.
-/
def scaleByConsistency (height : Nat) (blockTarget : UInt64) (value : Nat) : Nat :=
  if parameters.UPGRADE_HEIGHT_REWARD_SCHEME ≤ height ∧ currency.difficultyTarget ≠ 0 then
    let target := currency.difficultyTarget.toNat
    let span := blockTarget.toNat
    if span < target then value * span / target
    else if target < span then
      Nat.greatestBelow (fun k => k ^ 4 * target ≤ value ^ 4 * span) 64 value (2 * value)
    else value
  else value

/-- `getBlockReward`: the reward and the emission change, or `none` when the block is more than
twice the median size. The emission change is a two's complement `int64_t`, kept as its bits. -/
def getBlockReward (blockMajorVersion : UInt8) (medianSize currentBlockSize : Nat)
    (alreadyGeneratedCoins fee : UInt64) (height : Nat) (blockTarget : UInt64) :
    Option (UInt64 × UInt64) :=
  let emitted := (currency.moneySupply - alreadyGeneratedCoins)
    >>> UInt64.ofNat currency.emissionSpeedFactor
  let scaled := UInt64.ofNat (currency.scaleByConsistency height blockTarget emitted.toNat)
  -- Tail emission: the base reward never drops below `TAIL_EMISSION_REWARD`.
  let baseReward :=
    if alreadyGeneratedCoins + parameters.TAIL_EMISSION_REWARD ≥ currency.moneySupply
        ∨ scaled < parameters.TAIL_EMISSION_REWARD then parameters.TAIL_EMISSION_REWARD
    else scaled
  let medianSize := max medianSize (currency.blockGrantedFullRewardZoneByBlockVersion blockMajorVersion)
  if currentBlockSize > medianSize * 2 then none
  else
    let penalizedBaseReward := getPenalizedAmount baseReward medianSize currentBlockSize
    let penalizedFee :=
      if blockMajorVersion ≥ 2 ∨ currency.cryptonoteCoinVersion = 1 then
        getPenalizedAmount fee medianSize currentBlockSize
      else fee
    some (penalizedBaseReward + penalizedFee, penalizedBaseReward - (fee - penalizedFee))

end Currency

end CryptoNote
