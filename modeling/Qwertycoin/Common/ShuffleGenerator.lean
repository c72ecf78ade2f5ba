import Qwertycoin.Lib.SparseArray
import Qwertycoin.Lib.StateRun

/-!
`ShuffleGenerator<T, Gen>`: the indexes `0, …, n - 1` in a random order, one a call, by a sparse
Fisher–Yates shuffle. The generator keeps the number of indexes left, `count`, and a map `selected`
from slots to the values moved into them; the slots below `count` form a virtual array of the
indexes not yet returned (`remaining`). A call draws a slot below `count`, returns its value, and
moves the value of the last slot into it.

Whatever the draws, as long as each lies in the range asked for, the first `n` calls return a
permutation of `0, …, n - 1`; the generator is empty exactly after the `n`-th, a further call throws,
and `reset` starts it over (`shuffleGenerator_permutation`).
-/

/-- `ShuffleGenerator<T, Gen>`, with natural numbers for `T`: the values moved into slots
(`selected`), the number of indexes left (`count`), the number shuffled (`N`) and the random
generator. -/
structure ShuffleGenerator (Gen : Type) where
  selected : Nat → Option Nat
  count : Nat
  N : Nat
  generator : Gen

namespace ShuffleGenerator

variable {Gen : Type}

/-- The constructor `ShuffleGenerator(n, gen)`. -/
def new (n : Nat) (generator : Gen) : ShuffleGenerator Gen := ⟨fun _ => none, n, n, generator⟩

/-- `empty()`. -/
def empty (s : ShuffleGenerator Gen) : Bool := s.count == 0

/-- `reset()`. -/
def reset (s : ShuffleGenerator Gen) : ShuffleGenerator Gen :=
  { s with count := s.N, selected := fun _ => none }

variable (distr : Gen → Nat → Nat × Gen)

/-- `operator()()`, where `distr generator hi` is what `uniform_int_distribution` draws from the
generator over `[0, hi]`, with the generator after the draw. -/
def next : EStateM String (ShuffleGenerator Gen) Nat := do
  let s ← get
  if s.count = 0 then throw "shuffle sequence ended"
  let count := s.count - 1
  let (value, generator) := distr s.generator count
  let rval := (s.selected count).getD count
  match s.selected value with
  | some lval =>
    set { s with selected := Function.update s.selected value (some rval), count, generator }
    return lval
  | none =>
    set { s with selected := Function.update s.selected value (some rval), count, generator }
    return value

/-- `n` calls of `operator()()`, with what they return in order. -/
def nextN : Nat → EStateM String (ShuffleGenerator Gen) (List Nat)
  | 0 => pure []
  | k + 1 => do
    let value ← next distr
    let values ← nextN k
    return value :: values

/-! ### One call -/

/-- An empty generator throws, and stays as it is. -/
theorem next_run_of_empty {s : ShuffleGenerator Gen} (ended : s.count = 0) :
    (next distr).run s = .error "shuffle sequence ended" s := by
  show (if s.count = 0 then _ else _ : EStateM String (ShuffleGenerator Gen) Nat).run s = _
  rw [if_pos ended]
  rfl

/-- A call with `count + 1` indexes left draws a slot below `count + 1`, returns its value, and
moves the last slot's value into it. -/
theorem next_run {s : ShuffleGenerator Gen} {count : Nat} (left : s.count = count + 1) :
    (next distr).run s =
      .ok ((s.selected (distr s.generator count).1).getD (distr s.generator count).1)
        { s with
          selected := Function.update s.selected (distr s.generator count).1
            (some ((s.selected count).getD count))
          count
          generator := (distr s.generator count).2 } := by
  show (if s.count = 0 then _ else _ : EStateM String (ShuffleGenerator Gen) Nat).run s = _
  rw [if_neg (by omega)]
  show (match s.selected (distr s.generator (s.count - 1)).1 with
    | some lval => _
    | none => _ : EStateM String (ShuffleGenerator Gen) Nat).run s = _
  rw [left, Nat.add_sub_cancel]
  -- Both branches write the last slot's value into the drawn one; they differ in what they read.
  cases s.selected (distr s.generator count).1 <;> rfl

/-! ### The indexes left -/

/-- The values the generator can still return: the slots below `count`, each holding the value
moved into it or else its own index. -/
def remaining (s : ShuffleGenerator Gen) : List Nat := SparseArray.view s.selected id s.count

/-- A generator that has returned `returned` can still return the other indexes below `N`. -/
def Shuffled (s : ShuffleGenerator Gen) (returned : List Nat) : Prop :=
  (s.remaining ++ returned).Perm (List.range s.N)

/-- A new generator can return every index. -/
theorem shuffled_new (n : Nat) (generator : Gen) : Shuffled (new n generator) [] := by
  simp [Shuffled, remaining, new, SparseArray.view]

/-- A call with indexes left returns one of them, which moves from what the generator can return
to what it returned. -/
theorem next_shuffled (inRange : ∀ generator hi, (distr generator hi).1 ≤ hi)
    {s : ShuffleGenerator Gen} {returned : List Nat} (shuffled : Shuffled s returned)
    {count : Nat} (left : s.count = count + 1) :
    ∃ value s', (next distr).run s = .ok value s' ∧ Shuffled s' (returned ++ [value]) ∧
      s'.count = count ∧ s'.N = s.N := by
  refine ⟨_, _, next_run distr left, ?_, rfl, rfl⟩
  -- The drawn slot is below `count + 1`, so the draw is a swap-remove of the virtual array.
  have swapped := @SparseArray.view_perm_swapRemove Nat s.selected id count _
    (inRange s.generator count)
  unfold Shuffled remaining at shuffled ⊢
  rw [left] at shuffled
  -- The value returned goes last among those returned.
  refine List.Perm.trans ?_ ((swapped.symm.append_right returned).trans shuffled)
  rw [← List.append_assoc, List.cons_append]
  exact List.perm_append_singleton _ _

/-! ### Runs of calls -/

/-- `k` calls with at least `k` indexes left return `k` of them, and leave `k` fewer. -/
theorem nextN_shuffled (inRange : ∀ generator hi, (distr generator hi).1 ≤ hi) :
    ∀ (k : Nat) {s : ShuffleGenerator Gen} {returned : List Nat}, k ≤ s.count →
      Shuffled s returned →
      ∃ values s', (nextN distr k).run s = .ok values s' ∧ Shuffled s' (returned ++ values) ∧
        s'.count = s.count - k ∧ s'.N = s.N
  | 0, s, _, _, shuffled => ⟨[], s, rfl, by simpa using shuffled, rfl, rfl⟩
  | k + 1, s, returned, enough, shuffled => by
    -- The first call, then the other `k` from the generator it leaves.
    obtain ⟨value, s₁, first, shuffled₁, count₁, sameN₁⟩ :=
      next_shuffled distr inRange shuffled (show s.count = (s.count - 1) + 1 by omega)
    obtain ⟨values, s₂, later, shuffled₂, count₂, sameN₂⟩ :=
      nextN_shuffled inRange k (by omega) shuffled₁
    refine ⟨value :: values, s₂, ?_, ?_, by omega, sameN₂.trans sameN₁⟩
    · exact EStateM.run_bind_eq_ok.mpr
        ⟨value, s₁, first, EStateM.run_bind_eq_ok.mpr ⟨values, s₂, later, rfl⟩⟩
    · simpa using shuffled₂

/-- `reset()` makes a generator a new one over the same indexes, keeping the random generator. -/
theorem reset_eq_new (s : ShuffleGenerator Gen) : reset s = new s.N s.generator := rfl

/-- Whatever the draws, each in the range asked for: the first `n` calls of a new generator return
each index below `n` exactly once; the generator is empty after them and not before; a further call
throws; and `reset()` makes it a new generator over the same `n` indexes. -/
theorem shuffleGenerator_permutation (inRange : ∀ generator hi, (distr generator hi).1 ≤ hi)
    (n : Nat) (generator : Gen) :
    ∃ values s, (nextN distr n).run (new n generator) = .ok values s ∧
      values.Perm (List.range n) ∧ empty s = true ∧
      (next distr).run s = .error "shuffle sequence ended" s ∧
      reset s = new n s.generator ∧
      ∀ k < n, ∃ values' s', (nextN distr k).run (new n generator) = .ok values' s' ∧
        empty s' = false := by
  obtain ⟨values, s, ran, shuffled, ended, sameN⟩ :=
    nextN_shuffled distr inRange n (Nat.le_refl n) (shuffled_new n generator)
  have zero : s.count = 0 := by simpa [new] using ended
  have sameN' : s.N = n := sameN
  refine ⟨values, s, ran, ?_, by simp [empty, zero], next_run_of_empty distr zero, ?_, ?_⟩
  · -- Nothing is left to return, so every index was returned.
    unfold Shuffled remaining at shuffled
    rw [zero, sameN'] at shuffled
    simpa [SparseArray.view] using shuffled
  · rw [reset_eq_new, sameN']
  · -- Fewer calls leave some indexes.
    intro k fewer
    obtain ⟨values', s', ran', -, left, -⟩ :=
      nextN_shuffled distr inRange k (Nat.le_of_lt fewer) (shuffled_new n generator)
    refine ⟨values', s', ran', ?_⟩
    simp only [new] at left
    simp [empty, left]
    omega

theorem shuffleGenerator_permutation_on_counter_draws :
    ∃ values s, (nextN (fun g hi => (g % (hi + 1), g + 1)) 4).run (new 4 1) = .ok values s ∧
      values.Perm (List.range 4) ∧ empty s = true ∧
      (next (fun g hi => (g % (hi + 1), g + 1))).run s = .error "shuffle sequence ended" s ∧
      reset s = new 4 s.generator ∧
      ∀ k < 4, ∃ values' s',
        (nextN (fun g hi => (g % (hi + 1), g + 1)) k).run (new 4 1) = .ok values' s' ∧
        empty s' = false :=
  shuffleGenerator_permutation _ (fun _ hi => Nat.le_of_lt_succ (Nat.mod_lt _ (Nat.succ_pos hi))) 4 1

example :
    ((nextN (fun g hi => (g % (hi + 1), g + 1)) 3).run (new 3 1)).value? = some [1, 0, 2] := by
  rfl

end ShuffleGenerator
