import Mathlib

/-!
Arrays stored sparsely: a partial map from slots to values, a slot without an entry holding a
default of its own. `view` lists the first `count` slots. A sparse Fisher–Yates shuffle removes a
slot by moving the last slot's value into it and shortening the array by one (a swap-remove); the
view before is then a permutation of the removed value followed by the view after
(`view_perm_swapRemove`).
-/

namespace SparseArray

variable {α : Type}

/-- The first `count` slots: the stored value where there is one, the slot's default otherwise. -/
def view (stored : Nat → Option α) (default : Nat → α) (count : Nat) : List α :=
  (List.range count).map fun slot => (stored slot).getD (default slot)

variable {stored : Nat → Option α} {default : Nat → α}

@[simp] theorem length_view (count : Nat) : (view stored default count).length = count := by
  simp [view]

/-- One more slot adds its value at the end. -/
theorem view_succ (count : Nat) :
    view stored default (count + 1) =
      view stored default count ++ [(stored count).getD (default count)] := by
  simp [view, List.range_succ]

theorem getElem_view {count slot : Nat} (inRange : slot < (view stored default count).length) :
    (view stored default count)[slot] = (stored slot).getD (default slot) := by
  simp [view]

/-- A write past the slots listed does not change them. -/
theorem view_update_of_le {count slot : Nat} (past : count ≤ slot) (value : Option α) :
    view (Function.update stored slot value) default count = view stored default count := by
  apply List.map_congr_left
  intro listed member
  rw [List.mem_range] at member
  rw [Function.update_of_ne (by omega)]

/-- A write to a slot sets its value in the view, which has it when it is listed. -/
theorem view_update_some {count slot : Nat} (value : α) :
    view (Function.update stored slot (some value)) default count =
      (view stored default count).set slot value := by
  apply List.ext_getElem (by simp)
  intro listed _ _
  by_cases same : slot = listed
  · -- The slot written reads the value written.
    subst same
    simp [view]
  · -- Every other slot reads as before.
    simp [view, same, Function.update_of_ne (Ne.symm same)]

/-- A list with a last element is a permutation of its `i`-th element followed by the list with
the last element moved into position `i`. -/
theorem perm_set_last : ∀ (l : List α) {i : Nat} (inRange : i < l.length) (last : α),
    (l ++ [last]).Perm (l[i] :: l.set i last)
  | [], _, inRange, _ => absurd inRange (Nat.not_lt_zero _)
  | first :: rest, 0, _, last => by
    -- The first element is drawn; the last one takes its place at the front.
    rw [List.getElem_cons_zero, List.set_cons_zero, List.cons_append]
    exact List.Perm.cons first (List.perm_append_singleton last rest)
  | first :: rest, i + 1, inRange, last => by
    -- The first element stays; the draw happens in the rest.
    have later := perm_set_last rest (Nat.lt_of_succ_lt_succ inRange) last
    rw [List.getElem_cons_succ, List.set_cons_succ, List.cons_append]
    exact (later.cons first).trans (List.Perm.swap _ _ _)

/-- Swap-remove of `slot` from an array of `count + 1` slots: the value at `slot` is removed, and
the last slot's value is written to `slot`. The view before is a permutation of the removed value
followed by the view after. -/
theorem view_perm_swapRemove {count slot : Nat} (within : slot ≤ count) :
    (view stored default (count + 1)).Perm
      ((stored slot).getD (default slot) ::
        view (Function.update stored slot (some ((stored count).getD (default count)))) default
          count) := by
  rw [view_succ]
  rcases Nat.lt_or_ge slot count with inside | atLast
  · -- A slot below the last: the last value moves into it.
    have listed : slot < (view stored default count).length := by simpa using inside
    rw [view_update_some, ← getElem_view listed]
    exact perm_set_last _ listed _
  · -- The last slot itself: nothing moves, and the array just ends one earlier.
    have same : slot = count := by omega
    subst same
    rw [view_update_of_le (Nat.le_refl slot)]
    exact List.perm_append_singleton _ _

end SparseArray
