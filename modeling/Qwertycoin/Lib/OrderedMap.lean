import Mathlib

/-!
A `std::map` as the list of its entries in key order. `insert` is `map[key] = value`: the entry
with the key gets the new value, or a new entry is linked in where its key belongs. The keys stay
strictly increasing (`sorted_insert`), every entry after an insertion is the new one or an old one
(`mem_insert`), and a key above every key already there goes at the end (`insert_of_lt`), so that a
map filled in increasing key order holds its entries in the order they came.
-/

namespace OrderedMap

variable {κ β : Type} [LinearOrder κ]

/-- `map[key] = value` on a `std::map` with the entries `m`, in key order. -/
def insert (key : κ) (value : β) : List (κ × β) → List (κ × β)
  | [] => [(key, value)]
  | (other, previous) :: rest =>
    if key < other then (key, value) :: (other, previous) :: rest
    else if key = other then (key, value) :: rest
    else (other, previous) :: insert key value rest

/-- The entries of a `std::map`: keys strictly increasing, so no key twice. -/
def Sorted (m : List (κ × β)) : Prop := m.Pairwise fun a b => a.1 < b.1

instance decidableSorted (m : List (κ × β)) : Decidable (Sorted m) :=
  inferInstanceAs (Decidable (m.Pairwise fun a b => a.1 < b.1))

/-- After an insertion every entry is the new one or was there before. -/
theorem mem_insert {key : κ} {value : β} {entry : κ × β} :
    ∀ {m : List (κ × β)}, entry ∈ insert key value m → entry = (key, value) ∨ entry ∈ m
  | [], member => Or.inl (List.mem_singleton.mp member)
  | (other, previous) :: rest, member => by
    unfold insert at member
    split_ifs at member with below same
    · exact List.mem_cons.mp member
    · rcases List.mem_cons.mp member with new | old
      · exact Or.inl new
      · exact Or.inr (List.mem_cons_of_mem _ old)
    · -- The key goes further on: the head stays, and the rest is an insertion.
      rcases List.mem_cons.mp member with head | later
      · exact Or.inr (head ▸ List.mem_cons_self)
      · exact (mem_insert later).imp_right (List.mem_cons_of_mem _)

/-- An insertion keeps the keys strictly increasing. -/
theorem sorted_insert (key : κ) (value : β) :
    ∀ {m : List (κ × β)}, Sorted m → Sorted (insert key value m)
  | [], _ => List.pairwise_singleton _ _
  | (other, previous) :: rest, sorted => by
    obtain ⟨headLess, tailSorted⟩ := List.pairwise_cons.mp sorted
    unfold insert
    split_ifs with below same
    · -- In front: the new key is below the head's, and so below every later key.
      refine List.pairwise_cons.mpr ⟨fun entry member => ?_, sorted⟩
      rcases List.mem_cons.mp member with head | later
      · rw [head]
        exact below
      · exact lt_trans below (headLess entry later)
    · -- In place of the head: the same key, the same order.
      subst same
      exact List.pairwise_cons.mpr ⟨headLess, tailSorted⟩
    · -- Further on: the head's key is below the new one and below every old one.
      have above : other < key := lt_of_le_of_ne (not_lt.mp below) (Ne.symm same)
      refine List.pairwise_cons.mpr ⟨fun entry member => ?_, sorted_insert key value tailSorted⟩
      rcases mem_insert member with new | old
      · rw [new]
        exact above
      · exact headLess entry old

/-- A key above every key of the map goes at the end. -/
theorem insert_of_lt {key : κ} (value : β) :
    ∀ {m : List (κ × β)}, (∀ entry ∈ m, entry.1 < key) → insert key value m = m ++ [(key, value)]
  | [], _ => rfl
  | (other, previous) :: rest, above => by
    have headBelow : other < key := above _ List.mem_cons_self
    rw [insert, if_neg (not_lt.mpr (le_of_lt headBelow)), if_neg (ne_of_gt headBelow),
      insert_of_lt value fun entry member => above entry (List.mem_cons_of_mem _ member)]
    rfl

end OrderedMap
