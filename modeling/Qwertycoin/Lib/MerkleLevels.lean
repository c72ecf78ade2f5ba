import Mathlib

/-!
Merkle trees built level by level. A level is a list of nodes; the level above combines them in
pairs from the front (`pairUp`), so that `d` rounds take a level of `2 ^ d` nodes to its root alone
(`length_iterate_pairUp`). A level of an even number of nodes followed by others pairs up part by
part (`pairUp_append`), which is how a level of leaves, some paired and some not, is built.
-/

namespace MerkleLevels

variable {α : Type} (combine : α → α → α)

/-- The level above: neighbouring nodes combined in pairs, from the front; a node left over
without a partner is dropped. -/
def pairUp : List α → List α
  | a :: b :: rest => combine a b :: pairUp rest
  | _ => []

@[simp] theorem pairUp_nil : pairUp combine ([] : List α) = [] := rfl

@[simp] theorem pairUp_cons_cons (a b : α) (rest : List α) :
    pairUp combine (a :: b :: rest) = combine a b :: pairUp combine rest := rfl

@[simp] theorem length_pairUp : ∀ l : List α, (pairUp combine l).length = l.length / 2
  | [] => by simp
  | [_] => by simp [pairUp]
  | a :: b :: rest => by
    rw [pairUp_cons_cons, List.length_cons, length_pairUp rest, List.length_cons,
      List.length_cons]
    omega

/-- Pairing a level of an even number of nodes followed by more nodes pairs each part alone. -/
theorem pairUp_append : ∀ {l₁ : List α} (l₂ : List α), l₁.length % 2 = 0 →
    pairUp combine (l₁ ++ l₂) = pairUp combine l₁ ++ pairUp combine l₂
  | [], _, _ => rfl
  | [_], _, odd => by simp at odd
  | a :: b :: rest, l₂, even => by
    rw [List.cons_append, List.cons_append, pairUp_cons_cons, pairUp_cons_cons,
      pairUp_append l₂ (by rw [List.length_cons, List.length_cons] at even; omega),
      List.cons_append]

/-- The first node above a level of at least two nodes combines its first two. -/
theorem getD_pairUp_zero {l : List α} (d : α) (two : 2 ≤ l.length) :
    (pairUp combine l).getD 0 d = combine (l.getD 0 d) (l.getD 1 d) := by
  rcases l with _ | ⟨a, _ | ⟨b, rest⟩⟩
  · simp at two
  · simp at two
  · rfl

/-- `d` rounds halve a level `d` times. -/
theorem length_iterate_pairUp (d : Nat) : ∀ l : List α,
    ((pairUp combine)^[d] l).length = l.length / 2 ^ d := by
  induction d with
  | zero => intro l; simp
  | succ d ih =>
    intro l
    rw [Function.iterate_succ_apply, ih, length_pairUp, Nat.div_div_eq_div_mul, Nat.pow_succ,
      Nat.mul_comm]

end MerkleLevels
