import Mathlib

/-!
The highest set bit of a word, as C code finds it. A binary search by shifts of halving widths,
`2 ^ (k - 1), …, 2, 1`, finds the binary logarithm: by shifting the value right while something is
left (`foldl_shiftStep`), or by shifting a power of two left while it stays below the value
(`foldl_growStep`). Smearing the highest bit into every bit below it, by or-ing in the word shifted by
`1, 2, 4, …, 32`, and then masking off all but the top of the run, leaves the highest power of two
not above the word (`smear_and_not`).
-/

namespace BitSearch

/-- The shift widths `2 ^ (k - 1), …, 2, 1`, largest first. -/
def halvings (k : Nat) : List Nat := (List.range k).reverse.map (2 ^ ·)

theorem halvings_succ (k : Nat) : halvings (k + 1) = 2 ^ k :: halvings k := by
  simp [halvings, List.range_succ]

/-- The shifts of a search over a 64-bit word. -/
theorem halvings_six : halvings 6 = [32, 16, 8, 4, 2, 1] := rfl

/-- The binary logarithm of a value with `i` more bits is `i` more than that of the value without
them. -/
theorem log2_eq_add_log2_div {value i : Nat} (nonzero : value / 2 ^ i ≠ 0) :
    value.log2 = i + (value / 2 ^ i).log2 := by
  have positive : 0 < 2 ^ i := Nat.two_pow_pos i
  have low := Nat.log2_self_le nonzero
  have high := (Nat.lt_log2_self : value / 2 ^ i < 2 ^ ((value / 2 ^ i).log2 + 1))
  have valueNonzero : value ≠ 0 := by
    intro zero
    rw [zero, Nat.zero_div] at nonzero
    exact nonzero rfl
  rw [Nat.log2_eq_iff valueNonzero]
  constructor
  · -- `2 ^ i` times the quotient's highest power is at most the value.
    calc 2 ^ (i + (value / 2 ^ i).log2) = 2 ^ i * 2 ^ (value / 2 ^ i).log2 := Nat.pow_add _ _ _
      _ ≤ 2 ^ i * (value / 2 ^ i) := Nat.mul_le_mul_left _ low
      _ ≤ value := Nat.mul_div_le value (2 ^ i)
  · -- The value is below `2 ^ i` times one more than the quotient.
    calc value < 2 ^ i * (value / 2 ^ i + 1) := Nat.lt_mul_div_succ value positive
      _ ≤ 2 ^ i * 2 ^ ((value / 2 ^ i).log2 + 1) := Nat.mul_le_mul_left _ high
      _ = 2 ^ (i + (value / 2 ^ i).log2 + 1) := by rw [← Nat.pow_add, Nat.add_assoc]

/-! ### Shifting the value right -/

/-- One step of the search by right shifts: shift the value by `i` when something is left, and
count the shift. -/
def shiftStep (state : Nat × Nat) (i : Nat) : Nat × Nat :=
  if state.1 >>> i > 0 then (state.1 >>> i, state.2 + i) else state

/-- The shifts by `2 ^ (k - 1), …, 1` of a value below `2 ^ 2 ^ k` count its binary logarithm, and
leave one. -/
theorem foldl_shiftStep : ∀ (k : Nat) {value : Nat} (depth : Nat), value ≠ 0 →
    value < 2 ^ 2 ^ k → (halvings k).foldl shiftStep (value, depth) = (1, depth + value.log2)
  | 0, value, depth, nonzero, small => by
    -- A value below two is one, whose logarithm is zero.
    have one : value = 1 := by simp at small; omega
    subst one
    rfl
  | k + 1, value, depth, nonzero, small => by
    rw [halvings_succ, List.foldl_cons]
    by_cases left : value >>> 2 ^ k > 0
    · -- The top half holds bits: shift them down and count the shift.
      rw [shiftStep, if_pos left]
      dsimp only
      rw [Nat.shiftRight_eq_div_pow] at left ⊢
      have below : value / 2 ^ 2 ^ k < 2 ^ 2 ^ k := by
        rw [Nat.div_lt_iff_lt_mul (Nat.two_pow_pos _), ← Nat.pow_add, ← Nat.two_mul,
          ← Nat.pow_succ']
        exact small
      rw [foldl_shiftStep k _ (by omega) below, @log2_eq_add_log2_div value (2 ^ k) (by omega),
        Nat.add_assoc]
    · -- The top half is empty: the value is already below `2 ^ 2 ^ k`.
      rw [shiftStep, if_neg left]
      rw [Nat.shiftRight_eq_div_pow] at left
      have below : value < 2 ^ 2 ^ k := by
        by_contra big
        exact left (Nat.div_pos (by omega) (Nat.two_pow_pos _))
      exact foldl_shiftStep k depth nonzero below

/-! ### Shifting a power of two left -/

/-- One step of the search by left shifts: shift the power by `i` when it stays at most `count`,
and count the shift. -/
def growStep (count : Nat) (state : Nat × Nat) (i : Nat) : Nat × Nat :=
  if state.1 <<< i ≤ count then (state.1 <<< i, state.2 + i) else state

/-- The shifts by `2 ^ (k - 1), …, 1` of a power of two at most `count`, and more than
`count / 2 ^ 2 ^ k`, end at the highest power of two at most `count`. -/
theorem foldl_growStep {count : Nat} : ∀ (k depth : Nat), 2 ^ depth ≤ count →
    count < 2 ^ depth * 2 ^ 2 ^ k →
      (halvings k).foldl (growStep count) (2 ^ depth, depth) = (2 ^ count.log2, count.log2)
  | 0, depth, low, high => by
    -- Between `2 ^ depth` and `2 ^ (depth + 1)`, the logarithm is `depth`.
    have log : count.log2 = depth := by
      rw [Nat.log2_eq_iff (by have := Nat.two_pow_pos depth; omega)]
      exact ⟨low, by simpa [Nat.pow_succ] using high⟩
    rw [log]
    rfl
  | k + 1, depth, low, high => by
    rw [halvings_succ, List.foldl_cons, growStep, Nat.shiftLeft_eq, ← Nat.pow_add]
    by_cases fits : 2 ^ (depth + 2 ^ k) ≤ count
    · -- The power can grow by `2 ^ k` bits.
      rw [if_pos fits]
      apply foldl_growStep k (depth + 2 ^ k) fits
      rw [Nat.pow_add, Nat.mul_assoc, ← Nat.pow_add, ← Nat.two_mul, ← Nat.pow_succ']
      exact high
    · -- It cannot: the count is below the power with `2 ^ k` more bits.
      rw [if_neg fits]
      apply foldl_growStep k depth low
      rw [← Nat.pow_add]
      omega

/-! ### Smearing the highest bit -/

/-- The bits of `smeared` from `j` on are set exactly where `x` has a set bit less than `width`
above `j`. -/
def Smeared (x smeared width : Nat) : Prop :=
  ∀ j, smeared.testBit j = true ↔ ∃ t, j ≤ t ∧ t < j + width ∧ x.testBit t = true

/-- Or-ing in the word shifted by the width of the run doubles the run. -/
theorem smeared_or_shiftRight {x smeared width : Nat} (run : Smeared x smeared width) :
    Smeared x (smeared ||| smeared >>> width) (2 * width) := by
  intro j
  rw [Nat.testBit_or, Nat.testBit_shiftRight, Bool.or_eq_true, run j, run (width + j)]
  constructor
  · rintro (⟨t, low, high, set⟩ | ⟨t, low, high, set⟩)
    · exact ⟨t, low, by omega, set⟩
    · exact ⟨t, by omega, by omega, set⟩
  · rintro ⟨t, low, high, set⟩
    -- The bit lies in the first half of the doubled run or in the second.
    by_cases first : t < j + width
    · exact Or.inl ⟨t, low, first, set⟩
    · exact Or.inr ⟨t, by omega, by omega, set⟩

/-- The same step on a word, for a shift below its width. -/
theorem smeared_or_shiftRight_word {x : Nat} {smeared : UInt64} {width : Nat} (i : UInt64)
    (sameWidth : i.toNat = width) (narrow : width < 64) (run : Smeared x smeared.toNat width) :
    Smeared x (smeared ||| smeared >>> i).toNat (2 * width) := by
  rw [UInt64.toNat_or, UInt64.toNat_shiftRight, sameWidth, Nat.mod_eq_of_lt narrow]
  exact smeared_or_shiftRight run

/-- A run of 64 bits from each bit on reaches the top of a word: the smeared word has every bit up
to the highest of `x` set, and none above. -/
theorem testBit_smeared {x smeared : Nat} (nonzero : x ≠ 0) (word : x < 2 ^ 64)
    (run : Smeared x smeared 64) (j : Nat) : smeared.testBit j = decide (j ≤ x.log2) := by
  have top : x.log2 < 64 := (Nat.log2_lt nonzero).mpr word
  by_cases below : j ≤ x.log2
  · -- The highest bit of `x` lies in the run from `j`.
    rw [decide_eq_true below]
    exact (run j).mpr ⟨x.log2, below, by omega, Nat.testBit_log2 nonzero⟩
  · -- Every bit of `x` from `j` on is clear.
    rw [decide_eq_false below, Bool.eq_false_iff]
    rintro set
    obtain ⟨t, low, -, setAt⟩ := (run j).mp set
    have small : x < 2 ^ t :=
      Nat.lt_of_lt_of_le Nat.lt_log2_self (Nat.pow_le_pow_right (by decide) (by omega))
    rw [Nat.testBit_lt_two_pow small] at setAt
    cases setAt

/-- Shifting by `1, 2, 4, …, 32` smears the highest bit of a word into all the bits below it, and
masking off each bit whose next one is set keeps the highest alone. -/
theorem smear_and_not {x : UInt64} (nonzero : x.toNat ≠ 0) :
    (([1, 2, 4, 8, 16, 32] : List UInt64).foldl (fun cnt i => cnt ||| cnt >>> i) x &&&
        ~~~(([1, 2, 4, 8, 16, 32] : List UInt64).foldl (fun cnt i => cnt ||| cnt >>> i) x >>> 1)
      ).toNat = 2 ^ x.toNat.log2 := by
  generalize smearedAs :
    ([1, 2, 4, 8, 16, 32] : List UInt64).foldl (fun cnt i => cnt ||| cnt >>> i) x = smeared
  -- Each shift doubles the run of bits below each set bit: 1, 2, 4, …, 64.
  have start : Smeared x.toNat x.toNat 1 := fun j =>
    ⟨fun set => ⟨j, Nat.le_refl j, by omega, set⟩,
      fun ⟨t, low, high, set⟩ => by rwa [show j = t by omega]⟩
  have run : Smeared x.toNat smeared.toNat 64 := by
    rw [← smearedAs]
    exact smeared_or_shiftRight_word 32 (by decide) (by decide)
      (smeared_or_shiftRight_word 16 (by decide) (by decide)
        (smeared_or_shiftRight_word 8 (by decide) (by decide)
          (smeared_or_shiftRight_word 4 (by decide) (by decide)
            (smeared_or_shiftRight_word 2 (by decide) (by decide)
              (smeared_or_shiftRight_word 1 (by decide) (by decide) start)))))
  have word := UInt64.toNat_lt x
  have top : x.toNat.log2 < 64 := (Nat.log2_lt nonzero).mpr word
  have shifted : (smeared >>> 1).toNat < 2 ^ 64 := UInt64.toNat_lt _
  -- A bit survives the mask when it is set and the next one up is not: only the highest.
  apply Nat.eq_of_testBit_eq
  intro j
  rw [UInt64.toNat_and, UInt64.toNat_not,
    show UInt64.size - 1 - (smeared >>> 1).toNat = 2 ^ 64 - ((smeared >>> 1).toNat + 1) by
      simp only [UInt64.size]; omega,
    Nat.testBit_and, Nat.testBit_two_pow_sub_succ shifted, UInt64.toNat_shiftRight,
    show (1 : UInt64).toNat % 64 = 1 from rfl, Nat.testBit_shiftRight,
    testBit_smeared nonzero word run j, testBit_smeared nonzero word run (1 + j), Nat.testBit_two_pow]
  rcases Nat.lt_trichotomy j x.toNat.log2 with below | same | above
  · simp [below.ne', Nat.le_of_lt below, show 1 + j ≤ x.toNat.log2 by omega]
  · subst same
    simp [top]
  · simp [above.ne, show ¬ j ≤ x.toNat.log2 by omega]

end BitSearch
