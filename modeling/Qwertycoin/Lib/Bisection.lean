import Mathlib

/-!
Bisection for the greatest natural number in an interval with a property that holds at the lower
end and is closed downwards, with fuel for the halvings, so that the search runs by evaluation.
-/

namespace Nat

/-- The greatest `r` in `[lo, hi]` with `P r`, by bisection, halving `fuel` times at most. -/
def greatestBelow (P : Nat → Bool) : (fuel lo hi : Nat) → Nat
  | 0, lo, _ => lo
  | fuel + 1, lo, hi =>
    if hi ≤ lo then lo
    else
      let mid := (lo + hi + 1) / 2
      if P mid then greatestBelow P fuel mid hi else greatestBelow P fuel lo (mid - 1)

/-- What bisection finds: a point of the interval with the property, above which the interval has
none. -/
structure IsGreatestBelow (P : Nat → Bool) (lo hi r : Nat) : Prop where
  lo_le : lo ≤ r
  le_hi : r ≤ hi
  holds : P r = true
  above : ∀ x, r < x → x ≤ hi → P x = false

section

variable {P : Nat → Bool}

/-- Bisection is correct when `P` holds at `lo`, is closed downwards, and the interval is shorter
than `2 ^ fuel`. The halving keeps the width below `2 ^ fuel` for the fuel left. -/
theorem greatestBelow_spec (closed : ∀ a b, b ≤ a → P a = true → P b = true) :
    ∀ (fuel lo hi : Nat), lo ≤ hi → P lo = true → hi - lo < 2 ^ fuel →
      IsGreatestBelow P lo hi (greatestBelow P fuel lo hi)
  | 0, lo, hi, ordered, atLo, narrow => by
    -- No fuel: the interval is the single point `lo`.
    have single : hi = lo := by simp at narrow; omega
    subst single
    simp only [greatestBelow]
    exact ⟨Nat.le_refl _, Nat.le_refl _, atLo, fun x above below => absurd below (by omega)⟩
  | fuel + 1, lo, hi, ordered, atLo, narrow => by
    unfold greatestBelow
    by_cases done : hi ≤ lo
    · rw [if_pos done]
      exact ⟨Nat.le_refl _, ordered, atLo, fun x above below => absurd below (by omega)⟩
    rw [if_neg done]
    have halves : 2 ^ (fuel + 1) = 2 * 2 ^ fuel := by rw [Nat.pow_succ]; omega
    by_cases atMid : P ((lo + hi + 1) / 2) = true
    · -- The greatest point lies in the upper half.
      simp only [atMid, if_true]
      have spec := greatestBelow_spec closed fuel ((lo + hi + 1) / 2) hi (by omega) atMid
        (by omega)
      exact ⟨by have := spec.lo_le; omega, spec.le_hi, spec.holds, spec.above⟩
    · -- No point from `mid` on has the property, as it is closed downwards.
      simp only [Bool.not_eq_true] at atMid
      simp only [atMid, Bool.false_eq_true, if_false]
      have spec := greatestBelow_spec closed fuel lo ((lo + hi + 1) / 2 - 1) (by omega) atLo
        (by omega)
      refine ⟨spec.lo_le, by have := spec.le_hi; omega, spec.holds, fun x above below => ?_⟩
      by_cases lower : x ≤ (lo + hi + 1) / 2 - 1
      · exact spec.above x above lower
      · cases atX : P x
        · rfl
        · have := closed x ((lo + hi + 1) / 2) (by omega) atX
          rw [atMid] at this
          cases this

end

end Nat
