import Mathlib
import Qwertycoin.Core.Blockchain.Run

/-!
The consistency factor of the block reward over the reals, the integer computation that refines
it, and what `validate_miner_transaction` makes of a block dated before its predecessor: the
`uint64_t` time difference wraps to a huge block target, and the factor reaches its cap of two.
-/

namespace CryptoNote

/-- Below a fourth root: `a ≤ v * q ^ (1/4)` exactly when `a ^ 4 ≤ v ^ 4 * q`, all three
non-negative. -/
theorem le_mul_rpow_quarter_iff {a v q : ℝ} (ha : 0 ≤ a) (hv : 0 ≤ v) (hq : 0 ≤ q) :
    a ≤ v * q ^ (1 / 4 : ℝ) ↔ a ^ 4 ≤ v ^ 4 * q := by
  have root : (q ^ (1 / 4 : ℝ)) ^ (4 : ℕ) = q := by
    rw [← Real.rpow_natCast, ← Real.rpow_mul hq]
    norm_num
  have scaled : (v * q ^ (1 / 4 : ℝ)) ^ 4 = v ^ 4 * q := by rw [mul_pow, root]
  rw [← scaled]
  exact (pow_le_pow_iff_left₀ ha (by positivity) (by norm_num)).symm

namespace Currency

variable (currency : Currency)

/-- The consistency factor of `getBlockReward` in exact arithmetic: from
`UPGRADE_HEIGHT_REWARD_SCHEME`, the ratio of the block's time to `difficultyTarget`, kept below one,
and above one its fourth root capped at two. -/
noncomputable def consistency (height : Nat) (blockTarget : ℝ) : ℝ :=
  if parameters.UPGRADE_HEIGHT_REWARD_SCHEME ≤ height ∧ currency.difficultyTarget ≠ 0 then
    let ratio := blockTarget / currency.difficultyTarget.toNat
    if ratio < 1 then max ratio 0
    else if 1 < ratio then min (ratio ^ (1 / 4 : ℝ)) 2
    else 1
  else 1

/-- Above one, the bisection of `scaleByConsistency` finds the floor of `value` times the fourth
root of `span / target` capped at two. -/
theorem greatestBelow_eq_floor {value span target : Nat} (positive : 0 < target)
    (longer : target < span) (within : value < 2 ^ 64) :
    Nat.greatestBelow (fun k => k ^ 4 * target ≤ value ^ 4 * span) 64 value (2 * value) =
      ⌊(value : ℝ) * min (((span : ℝ) / target) ^ (1 / 4 : ℝ)) 2⌋₊ := by
  have closed : ∀ a b, b ≤ a → decide (a ^ 4 * target ≤ value ^ 4 * span) = true →
      decide (b ^ 4 * target ≤ value ^ 4 * span) = true := by
    intro a b below atA
    simp only [decide_eq_true_eq] at atA ⊢
    exact le_trans (Nat.mul_le_mul_right _ (Nat.pow_le_pow_left below 4)) atA
  have atValue : decide (value ^ 4 * target ≤ value ^ 4 * span) = true := by
    simpa using Nat.mul_le_mul_left _ longer.le
  have spec := Nat.greatestBelow_spec closed 64 value (2 * value) (by omega) atValue (by omega)
  set r := Nat.greatestBelow (fun k => decide (k ^ 4 * target ≤ value ^ 4 * span)) 64 value
    (2 * value)
  have targetPos : (0 : ℝ) < target := by exact_mod_cast positive
  -- A multiple of the fourth root is compared through fourth powers, in `Nat`.
  have belowRoot : ∀ k : Nat, (k : ℝ) ≤ value * ((span : ℝ) / target) ^ (1 / 4 : ℝ) ↔
      k ^ 4 * target ≤ value ^ 4 * span := by
    intro k
    rw [le_mul_rpow_quarter_iff (by positivity) (by positivity) (by positivity), mul_div_assoc',
      le_div_iff₀ targetPos]
    exact_mod_cast Iff.rfl
  rw [eq_comm, Nat.floor_eq_iff (by positivity), mul_min_of_nonneg _ _ (by positivity)]
  constructor
  · apply le_min
    · exact (belowRoot r).mpr (by simpa using spec.holds)
    · have atMost := spec.le_hi
      have : (r : ℝ) ≤ (2 * value : Nat) := by exact_mod_cast atMost
      push_cast at this
      linarith
  · by_cases top : r = 2 * value
    · calc min (value * ((span : ℝ) / target) ^ (1 / 4 : ℝ)) (value * 2)
          ≤ value * 2 := min_le_right _ _
        _ < r + 1 := by rw [top]; push_cast; linarith
    · -- Past `r` the property fails, so `r + 1` lies above the root.
      have next := spec.above (r + 1) (by omega) (by have := spec.le_hi; omega)
      have above : ¬ ((r + 1 : Nat) : ℝ) ≤ value * ((span : ℝ) / target) ^ (1 / 4 : ℝ) := by
        rw [belowRoot]
        simpa using next
      push Not at above
      calc min (value * ((span : ℝ) / target) ^ (1 / 4 : ℝ)) (value * 2)
          ≤ value * ((span : ℝ) / target) ^ (1 / 4 : ℝ) := min_le_left _ _
        _ < r + 1 := by exact_mod_cast above

/-- `scaleByConsistency` computes `uint64_t(value * consistency)` with the factor and the product
exact: the floor of the real product. -/
theorem scaleByConsistency_eq_floor (height : Nat) (blockTarget : UInt64) {value : Nat}
    (within : value < 2 ^ 64) :
    currency.scaleByConsistency height blockTarget value =
      ⌊(value : ℝ) * currency.consistency height blockTarget.toNat⌋₊ := by
  unfold scaleByConsistency consistency
  by_cases scheme :
      parameters.UPGRADE_HEIGHT_REWARD_SCHEME ≤ height ∧ currency.difficultyTarget ≠ 0
  · rw [if_pos scheme, if_pos scheme]
    have positive : 0 < currency.difficultyTarget.toNat := by
      have := scheme.2
      rw [ne_eq, ← UInt64.toNat_inj] at this
      simp only [UInt64.toNat_zero] at this
      omega
    have targetPos : (0 : ℝ) < currency.difficultyTarget.toNat := by exact_mod_cast positive
    dsimp only
    -- The three branches of the source: below one, above one, exactly one.
    rcases lt_trichotomy blockTarget.toNat currency.difficultyTarget.toNat
      with shorter | same | longer
    · have ratioBelow : (blockTarget.toNat : ℝ) / currency.difficultyTarget.toNat < 1 :=
        (div_lt_one targetPos).mpr (by exact_mod_cast shorter)
      have product : (value : ℝ) * blockTarget.toNat = ((value * blockTarget.toNat : Nat) : ℝ) := by
        push_cast
        ring
      rw [if_pos shorter, if_pos ratioBelow, max_eq_left (by positivity), mul_div_assoc', product,
        Nat.floor_div_eq_div]
    · have ratioOne : (blockTarget.toNat : ℝ) / currency.difficultyTarget.toNat = 1 := by
        rw [same, div_self targetPos.ne']
      rw [if_neg (by omega), if_neg (by omega), ratioOne, if_neg (lt_irrefl 1),
        if_neg (lt_irrefl 1), mul_one, Nat.floor_natCast]
    · have ratioAbove : ¬ (blockTarget.toNat : ℝ) / currency.difficultyTarget.toNat < 1 := by
        rw [not_lt, one_le_div targetPos]
        exact_mod_cast longer.le
      have ratioOver : 1 < (blockTarget.toNat : ℝ) / currency.difficultyTarget.toNat :=
        (one_lt_div targetPos).mpr (by exact_mod_cast longer)
      rw [if_neg (by omega), if_pos longer, if_neg ratioAbove, if_pos ratioOver]
      exact greatestBelow_eq_floor positive longer within
  · rw [if_neg scheme, if_neg scheme, mul_one, Nat.floor_natCast]

/-- A block target at least sixteen times `difficultyTarget` gets the cap: twice the value. -/
theorem scaleByConsistency_of_sixteen_targets {height : Nat} {blockTarget : UInt64} {value : Nat}
    (scheme : parameters.UPGRADE_HEIGHT_REWARD_SCHEME ≤ height)
    (positive : 0 < currency.difficultyTarget.toNat)
    (long : 16 * currency.difficultyTarget.toNat ≤ blockTarget.toNat) (within : value < 2 ^ 64) :
    currency.scaleByConsistency height blockTarget value = 2 * value := by
  have nonzero : currency.difficultyTarget ≠ 0 := by
    intro zero
    rw [zero] at positive
    simp at positive
  unfold scaleByConsistency
  rw [if_pos ⟨scheme, nonzero⟩]
  dsimp only
  rw [if_neg (by omega), if_pos (by omega)]
  have closed : ∀ a b, b ≤ a →
      decide (a ^ 4 * currency.difficultyTarget.toNat ≤ value ^ 4 * blockTarget.toNat) = true →
      decide (b ^ 4 * currency.difficultyTarget.toNat ≤ value ^ 4 * blockTarget.toNat) = true := by
    intro a b below atA
    simp only [decide_eq_true_eq] at atA ⊢
    exact le_trans (Nat.mul_le_mul_right _ (Nat.pow_le_pow_left below 4)) atA
  -- Twice the value itself passes: `(2v)^4 * target = v^4 * (16 * target)`.
  have atDouble : (2 * value) ^ 4 * currency.difficultyTarget.toNat ≤
      value ^ 4 * blockTarget.toNat := by
    calc (2 * value) ^ 4 * currency.difficultyTarget.toNat
        = value ^ 4 * (16 * currency.difficultyTarget.toNat) := by ring
      _ ≤ value ^ 4 * blockTarget.toNat := Nat.mul_le_mul_left _ long
  have spec := Nat.greatestBelow_spec closed 64 value (2 * value) (by omega)
    (closed (2 * value) value (by omega) (by simpa using atDouble)) (by omega)
  apply le_antisymm spec.le_hi
  by_contra short
  have refused := spec.above (2 * value) (by omega) (le_refl _)
  simp only [decide_eq_false_iff_not] at refused
  exact refused atDouble

/-- A block dated before its predecessor, by less than `2 ^ 63` seconds, reads a `uint64_t` block
target that wraps to at least `2 ^ 63`, and gets the capped factor two. -/
theorem scaleByConsistency_before_predecessor {height : Nat} {timestamp previous : UInt64}
    {value : Nat} (scheme : parameters.UPGRADE_HEIGHT_REWARD_SCHEME ≤ height)
    (positive : 0 < currency.difficultyTarget.toNat)
    (small : currency.difficultyTarget.toNat ≤ 2 ^ 59) (earlier : timestamp < previous)
    (recent : previous.toNat - timestamp.toNat ≤ 2 ^ 63) (within : value < 2 ^ 64) :
    currency.scaleByConsistency height (timestamp - previous) value = 2 * value := by
  have earlierNat : timestamp.toNat < previous.toNat := UInt64.lt_iff_toNat_lt.mp earlier
  -- The difference wraps: `2 ^ 64 - (previous - timestamp)`.
  have wrapped : (timestamp - previous).toNat = 2 ^ 64 - (previous.toNat - timestamp.toNat) := by
    rw [UInt64.toNat_sub]
    have := previous.toNat_lt
    omega
  apply currency.scaleByConsistency_of_sixteen_targets scheme positive _ within
  rw [wrapped]
  omega

end Currency

end CryptoNote
