import Mathlib

/-!
Loops whose counter doubles, `for (i = 1; i <= count; i *= 2)`: the counters they visit are the
powers of two up to `count`, `2 ^ k` for `k ≤ log 2 count`. A list that starts at `top` and in
which every element is at least twice the one before less `top + 1`, as the heights `top + 1 - 2^k`
are, is searched for its first element at most `f`: that element is at least `2f - top`.
-/

namespace Doubling

/-- `for (; i <= count; i *= 2) out.push_back(pick(i))`, for at most `rounds` rounds. -/
def loop {α : Type} (count : Nat) (pick : Nat → α) : (rounds : Nat) → (i : Nat) → List α
  | 0, _ => []
  | rounds + 1, i => if i ≤ count then pick i :: loop count pick rounds (2 * i) else []

variable {α : Type} {count : Nat} (pick : Nat → α)

/-- From `2 ^ j` on, the loop visits the powers of two up to `count`, given a round for each. -/
theorem loop_pow (positive : count ≠ 0) :
    ∀ rounds j, Nat.log 2 count + 1 - j ≤ rounds →
      loop count pick rounds (2 ^ j) =
        (List.range' j (Nat.log 2 count + 1 - j)).map fun k => pick (2 ^ k) := by
  intro rounds
  induction rounds with
  | zero =>
    intro j enough
    rw [Nat.le_zero.mp enough]
    rfl
  | succ rounds ih =>
    intro j enough
    rw [loop]
    by_cases fits : 2 ^ j ≤ count
    · -- `2 ^ j` is visited, and the loop goes on from `2 ^ (j + 1)`.
      have atMost : j ≤ Nat.log 2 count := Nat.le_log_of_pow_le (by decide) fits
      have left : Nat.log 2 count + 1 - j = (Nat.log 2 count + 1 - (j + 1)) + 1 := by omega
      rw [if_pos fits, left, List.range'_succ, List.map_cons, ← Nat.pow_succ',
        ih (j + 1) (by omega)]
    · -- Past `count`: the exponent is past `log 2 count`, and nothing is left to visit.
      have past : Nat.log 2 count < j :=
        Nat.lt_of_not_le fun atMost => fits (Nat.pow_le_of_le_log positive atMost)
      rw [if_neg fits, show Nat.log 2 count + 1 - j = 0 by omega]
      rfl

/-- From one, with `count` rounds, which are enough: the loop visits `2 ^ k` for every
`k ≤ log 2 count`. -/
theorem loop_one (positive : count ≠ 0) :
    loop count pick count 1 = (List.range (Nat.log 2 count + 1)).map fun k => pick (2 ^ k) := by
  have enough : Nat.log 2 count + 1 - 0 ≤ count := by
    have := Nat.log_lt_self 2 positive
    omega
  rw [← Nat.pow_zero 2, loop_pow pick positive count 0 enough, List.range_eq_range']
  rfl

/-! ### The distances below a bound -/

section Distances

variable {n c : Nat}

/-- `c - 2^k` over the powers of two up to `n ≤ c` strictly decreases. -/
theorem pairwise_sub_pow (fits : n ≤ c) (positive : n ≠ 0) :
    ((List.range (Nat.log 2 n + 1)).map fun k => c - 2 ^ k).Pairwise (· > ·) := by
  have largest := Nat.pow_log_le_self 2 positive
  rw [List.pairwise_map]
  refine List.pairwise_lt_range.imp_of_mem fun {j k} _ kIn less => ?_
  -- A larger power of two, still at most `n ≤ c`, leaves less below `c`.
  have kFits : 2 ^ k ≤ 2 ^ Nat.log 2 n :=
    Nat.pow_le_pow_right (by decide) (Nat.le_of_lt_succ (List.mem_range.mp kIn))
  have grows : 2 ^ j < 2 ^ k := Nat.pow_lt_pow_right (by decide) less
  omega

/-- Each `c - 2^k` over the powers of two up to `n` is at least `c - n`. -/
theorem sub_le_of_mem_sub_pow (positive : n ≠ 0) {x : Nat}
    (member : x ∈ (List.range (Nat.log 2 n + 1)).map fun k => c - 2 ^ k) : c - n ≤ x := by
  obtain ⟨k, kIn, rfl⟩ := List.mem_map.mp member
  have kFits : 2 ^ k ≤ n :=
    Nat.pow_le_of_le_log positive (Nat.le_of_lt_succ (List.mem_range.mp kIn))
  omega

end Distances

/-! ### Searching a list that halves its distance below the top -/

section Search

variable {top f h : Nat}

/-- After an element above `f`, the first element found at most `f` is at least `2f - top`. -/
theorem two_mul_le_of_find?_after :
    ∀ {prev : Nat} {l : List Nat}, (prev :: l).IsChain (fun a b => 2 * a ≤ b + top + 1) →
      f < prev → l.find? (· ≤ f) = some h → 2 * f ≤ h + top
  | _, [], _, _, found => by cases found
  | prev, a :: l, chain, above, found => by
    rw [List.isChain_cons_cons] at chain
    rw [List.find?_cons] at found
    by_cases low : a ≤ f
    · -- `a` is found: it is at least twice `prev` less `top + 1`, and `prev` is above `f`.
      rw [decide_eq_true low] at found
      cases found
      have := chain.1
      omega
    · -- `a` is passed over, and the search goes on after it.
      rw [decide_eq_false low] at found
      exact two_mul_le_of_find?_after chain.2 (Nat.lt_of_not_le low) found

/-- Searching such a list from `top ≥ f` for its first element at most `f` finds one at least
`2f - top`. -/
theorem two_mul_le_of_find? {l : List Nat}
    (chain : (top :: l).IsChain fun a b => 2 * a ≤ b + top + 1) (below : f ≤ top)
    (found : (top :: l).find? (· ≤ f) = some h) : 2 * f ≤ h + top := by
  rw [List.find?_cons] at found
  by_cases low : top ≤ f
  · -- The top itself is found; then it is `f`.
    rw [decide_eq_true low] at found
    cases found
    omega
  · rw [decide_eq_false low] at found
    exact two_mul_le_of_find?_after chain (Nat.lt_of_not_le low) found

end Search

end Doubling
