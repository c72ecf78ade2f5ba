import Mathlib

/-!
The `ordered_non_unique` index of a Boost `multi_index_container`, as the list of the container's
elements in the index's order. A new element goes after every element whose key is not greater
(`insertUpper`). A replaced element keeps its place when its new key still lies between its
neighbours' and is linked in anew otherwise (`replaceAt`), as Boost's `in_place` test decides.

Each operation keeps the keys in order (`sorted_insertUpper`, `sorted_replaceAt`), and changes the
elements as a plain insertion or overwrite would (`perm_insertUpper`, `perm_replaceAt`), so that the
container's other indexes see only the elements, not their order.
-/

namespace OrderedIndex

variable {α κ : Type} [LinearOrder κ] (key : α → κ)

/-- `insert` into an `ordered_non_unique` index: after every element whose key is not greater than
the new one's. -/
def insertUpper (l : List α) (a : α) : List α :=
  l.takeWhile (fun x => !decide (key a < key x)) ++
    a :: l.dropWhile (fun x => !decide (key a < key x))

/-- Boost's `in_place` test for an `ordered_non_unique` index: the element at `i` may take the key
of `a` where it is when the previous element's key is not above it and the next one's not below. -/
def inPlace (l : List α) (i : Nat) (a : α) : Bool :=
  (i == 0 || l[i - 1]?.all fun prev => !decide (key a < key prev)) &&
    l[i + 1]?.all fun next => !decide (key next < key a)

/-- `replace` of the element at position `i` by `a`: in place when the order allows it, otherwise
unlinked and linked in as a new element. -/
def replaceAt (l : List α) (i : Nat) (a : α) : List α :=
  if inPlace key l i a then l.set i a else insertUpper key (l.eraseIdx i) a

/-- The index's order: keys never decrease along the list. -/
def Sorted (l : List α) : Prop := l.Pairwise fun x y => key x ≤ key y

variable {key}

/-! ### The elements -/

/-- An insertion adds the element, wherever it goes. -/
theorem perm_insertUpper (l : List α) (a : α) : (insertUpper key l a).Perm (a :: l) := by
  -- The list is cut in two at the insertion point; the two parts put together are the list.
  unfold insertUpper
  refine List.perm_middle.trans ?_
  rw [List.takeWhile_append_dropWhile]

/-- Overwriting a position is removing its element and adding the new one. -/
theorem perm_set_eraseIdx {l : List α} {i : Nat} (inRange : i < l.length) (a : α) :
    (l.set i a).Perm (a :: l.eraseIdx i) := by
  rw [List.set_eq_take_append_cons_drop, if_pos inRange, List.eraseIdx_eq_take_drop_succ]
  exact List.perm_middle

/-- A replacement changes the elements as an overwrite does, whether it keeps the place or not. -/
theorem perm_replaceAt {l : List α} {i : Nat} (inRange : i < l.length) (a : α) :
    (replaceAt key l i a).Perm (l.set i a) := by
  unfold replaceAt
  split
  · exact List.Perm.refl _
  · -- Linked in anew: the element left its place and the new one came in elsewhere.
    exact (perm_insertUpper _ a).trans (perm_set_eraseIdx inRange a).symm

/-! ### The order -/

/-- Along an ordered index, an earlier key is not above a later one. -/
theorem Sorted.getElem_le {l : List α} (sorted : Sorted key l) {j k : Nat} (jIn : j < l.length)
    (kIn : k < l.length) (order : j ≤ k) : key l[j] ≤ key l[k] := by
  rcases Nat.eq_or_lt_of_le order with same | before
  · subst same
    exact le_refl _
  · exact List.pairwise_iff_getElem.mp sorted j k jIn kIn before

/-- Every element the insertion point leaves after `a` has a key at least `a`'s: the first one is
above it, and the later ones are at least the first. -/
theorem le_of_mem_dropWhile (a : α) :
    ∀ {l : List α}, Sorted key l →
      ∀ y ∈ l.dropWhile (fun x => !decide (key a < key x)), key a ≤ key y
  | [], _, y, member => by simp at member
  | x :: rest, sorted, y, member => by
    rw [Sorted, List.pairwise_cons] at sorted
    rw [List.dropWhile_cons] at member
    split at member
    · -- `x` is not above `a`: the point lies further on.
      exact le_of_mem_dropWhile a sorted.2 y member
    · -- `x` is the first element above `a`.
      rename_i above
      have above : key a < key x := by simpa using above
      rcases List.mem_cons.mp member with same | later
      · rw [same]
        exact le_of_lt above
      · exact le_trans (le_of_lt above) (sorted.1 y later)

/-- An insertion keeps the index ordered. -/
theorem sorted_insertUpper {l : List α} (sorted : Sorted key l) (a : α) :
    Sorted key (insertUpper key l a) := by
  have whole := sorted
  rw [Sorted, ← @List.takeWhile_append_dropWhile _ (fun x => !decide (key a < key x)) l,
    List.pairwise_append] at whole
  obtain ⟨front, back, across⟩ := whole
  rw [Sorted, insertUpper, List.pairwise_append, List.pairwise_cons]
  refine ⟨front, ⟨le_of_mem_dropWhile a sorted, back⟩, fun x xIn y yIn => ?_⟩
  rcases List.mem_cons.mp yIn with same | later
  · -- The elements before the insertion point are those not above `a`.
    rw [same]
    simpa using List.mem_takeWhile_imp xIn
  · exact across x xIn y later

/-- An overwrite that passes the `in_place` test keeps the index ordered: the new key lies between
the neighbours', and so between every earlier and every later key. -/
theorem sorted_set {l : List α} (sorted : Sorted key l) {i : Nat} {a : α}
    (fits : inPlace key l i a = true) : Sorted key (l.set i a) := by
  simp only [inPlace, Bool.and_eq_true, Bool.or_eq_true, beq_iff_eq] at fits
  obtain ⟨afterPrevious, beforeNext⟩ := fits
  rw [Sorted, List.pairwise_iff_getElem]
  intro j k jIn kIn before
  rw [List.length_set] at jIn kIn
  rw [List.getElem_set, List.getElem_set]
  split_ifs with atJ atK atK
  · omega
  · -- The overwritten position comes first: its next neighbour is at most the later key.
    subst atJ
    rw [List.getElem?_eq_getElem (show i + 1 < l.length by omega), Option.all_some] at beforeNext
    have next : key a ≤ key l[i + 1] := by simpa using beforeNext
    exact le_trans next (sorted.getElem_le (by omega) kIn (by omega))
  · -- The overwritten position comes second: its previous neighbour is at least the earlier key.
    subst atK
    have previous := afterPrevious.resolve_left (by omega)
    rw [List.getElem?_eq_getElem (show i - 1 < l.length by omega), Option.all_some] at previous
    have previous : key l[i - 1] ≤ key a := by simpa using previous
    exact le_trans (sorted.getElem_le jIn (by omega) (by omega)) previous
  · exact List.pairwise_iff_getElem.mp sorted j k jIn kIn before

/-- A replacement keeps the index ordered, in place or linked in anew. -/
theorem sorted_replaceAt {l : List α} (sorted : Sorted key l) (i : Nat) (a : α) :
    Sorted key (replaceAt key l i a) := by
  unfold replaceAt
  split
  · rename_i fits
    exact sorted_set sorted fits
  · exact sorted_insertUpper (sorted.sublist (List.eraseIdx_sublist l i)) a

end OrderedIndex
