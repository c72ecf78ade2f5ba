import Mathlib

/-!
Lists as the model of indexed containers: a lookup by an index is a filter, an index that admits
one element per key inserts only what is new (`insertUnique`), and `std::min_element` is the first
element no other is less than (`minElement`). The lemmas say how a filter sees the edits a container
makes: an edit of elements the filter does not select leaves it as it was.
-/

namespace List

variable {α β : Type*}

/-- `std::min_element` under `less`: the first element that no later one is less than. -/
def minElement (less : α → α → Bool) : List α → Option α
  | [] => none
  | first :: rest => some (rest.foldl (fun smallest t => if less t smallest then t else smallest) first)

/-- Insertion into an index unique by `key`: nothing happens when the key is already there. -/
def insertUnique [BEq β] (key : α → β) (l : List α) (a : α) : List α :=
  if l.any (fun t => key t == key a) then l else l ++ [a]

section MinElement

variable {less : α → α → Bool}

private theorem foldl_smallest_mem (rest : List α) (first : α) :
    rest.foldl (fun smallest t => if less t smallest then t else smallest) first ∈ first :: rest := by
  induction rest generalizing first with
  | nil => exact mem_cons_self
  | cons t rest ih =>
    rw [foldl_cons]
    split
    · exact mem_cons_of_mem _ (ih t)
    · rcases mem_cons.mp (ih first) with same | later
      · rw [same]; exact mem_cons_self
      · exact mem_cons_of_mem _ (mem_cons_of_mem _ later)

theorem minElement_mem {l : List α} {m : α} (found : minElement less l = some m) : m ∈ l := by
  cases l with
  | nil => cases found
  | cons first rest =>
    rw [minElement, Option.some.injEq] at found
    rw [← found]
    exact foldl_smallest_mem rest first

theorem minElement_isSome {l : List α} (nonempty : l ≠ []) : (minElement less l).isSome := by
  cases l with
  | nil => exact absurd rfl nonempty
  | cons first rest => rfl

/-- The fold keeps an element that nothing seen so far is less than, for an irreflexive and
transitive `less`. -/
private theorem foldl_smallest_minimal (irrefl : ∀ a, less a a = false)
    (trans : ∀ a b c, less a b → less b c → less a c) :
    ∀ (rest seen : List α) (smallest : α), (∀ t ∈ seen, less t smallest = false) →
      ∀ t ∈ seen ++ rest,
        less t (rest.foldl (fun smallest t => if less t smallest then t else smallest) smallest) =
          false
  | [], seen, smallest, minimal => by simpa using minimal
  | u :: rest, seen, smallest, minimal => by
    rw [foldl_cons]
    -- One step: `u` replaces the smallest only when it is less, and then by transitivity nothing
    -- seen is less than `u`.
    have extended : ∀ t ∈ seen ++ [u],
        less t (if less u smallest then u else smallest) = false := by
      intro t member
      rcases mem_append.mp member with old | new
      · split
        · rename_i below
          cases lessU : less t u
          · rfl
          · have notBelow := minimal t old
            rw [trans t u smallest lessU below] at notBelow
            cases notBelow
        · exact minimal t old
      · rw [mem_singleton.mp new]
        split
        · exact irrefl u
        · simpa using ‹¬less u smallest = true›
    have := foldl_smallest_minimal irrefl trans rest (seen ++ [u]) _ extended
    simpa [append_assoc] using this

/-- No element is less than the one `minElement` picks. -/
theorem minElement_minimal (irrefl : ∀ a, less a a = false)
    (trans : ∀ a b c, less a b → less b c → less a c) {l : List α} {m : α}
    (found : minElement less l = some m) : ∀ t ∈ l, less t m = false := by
  cases l with
  | nil => cases found
  | cons first rest =>
    rw [minElement, Option.some.injEq] at found
    rw [← found]
    exact foldl_smallest_minimal irrefl trans rest [first] first (by simpa using irrefl first)

end MinElement

section Filters

variable {p q : α → Bool}

/-- A map that keeps whether the filter selects each element commutes with the filter. -/
theorem filter_map_of_keeps {f : α → α} (keeps : ∀ t, p (f t) = p t) (l : List α) :
    (l.map f).filter p = (l.filter p).map f := by
  rw [filter_map]
  congr 1
  exact filter_congr fun t _ => keeps t

/-- A map that changes only elements the filter skips, and keeps whether it selects each one,
leaves the filter as it was. -/
theorem filter_map_of_fixes {f : α → α} (keeps : ∀ t, p (f t) = p t)
    (fixes : ∀ t, p t → f t = t) (l : List α) : (l.map f).filter p = l.filter p := by
  rw [filter_map_of_keeps keeps, map_congr_left (fun t member => fixes t (of_mem_filter member)),
    map_id']

/-- Erasing the first element `p` selects, when `q` skips it, leaves `q`'s filter as it was. -/
theorem filter_eraseP_of_find? {l : List α} {x : α} (found : l.find? p = some x)
    (skipped : q x = false) : (l.eraseP p).filter q = l.filter q := by
  induction l with
  | nil => cases found
  | cons y l ih =>
    by_cases first : p y
    · rw [find?_cons_of_pos first, Option.some.injEq] at found
      rw [eraseP_cons_of_pos first, filter_cons_of_neg (by rw [found, skipped]; decide)]
    · rw [find?_cons_of_neg first] at found
      rw [eraseP_cons_of_neg first, filter_cons, filter_cons, ih found]

/-- Erasing the first element `p` selects takes the first one off `p`'s filter. -/
theorem filter_eraseP_self (l : List α) : (l.eraseP p).filter p = (l.filter p).tail := by
  induction l with
  | nil => rfl
  | cons y l ih =>
    by_cases first : p y
    · rw [eraseP_cons_of_pos first, filter_cons_of_pos first, tail_cons]
    · rw [eraseP_cons_of_neg first, filter_cons_of_neg first, filter_cons_of_neg first, ih]

/-- Erasing the first element `p` selects, once for each element it selects, filters them out. -/
theorem iterate_eraseP (l : List α) :
    (fun l => l.eraseP p)^[(l.filter p).length] l = l.filter fun a => !p a := by
  -- Induction on the number of rounds: each takes one selected element off, and no other.
  suffices rounds : ∀ n (l : List α), (l.filter p).length = n →
      (fun l => l.eraseP p)^[n] l = l.filter fun a => !p a from rounds _ l rfl
  intro n
  induction n with
  | zero =>
    intro l none
    have skipped : ∀ a ∈ l, p a = false := fun a member => by
      simpa using filter_eq_nil_iff.mp (length_eq_zero_iff.mp none) a member
    rw [Function.iterate_zero_apply, eq_comm, filter_eq_self]
    intro a member
    rw [skipped a member]
    rfl
  | succ n ih =>
    intro l count
    cases found : l.find? p with
    | none =>
      rw [filter_eq_nil_iff.mpr fun a member => by simpa using find?_eq_none.mp found a member]
        at count
      cases count
    | some x =>
      have left : ((l.eraseP p).filter p).length = n := by
        rw [filter_eraseP_self, length_tail, count, Nat.add_sub_cancel]
      rw [Function.iterate_succ_apply, ih _ left]
      exact filter_eraseP_of_find? found (by rw [find?_some found]; rfl)

/-- Where `p` selects at most one element, erasing the first it selects filters it out. -/
theorem eraseP_eq_filter {l : List α} (atMostOne : (l.filter p).length ≤ 1) :
    l.eraseP p = l.filter fun a => !p a := by
  rw [← iterate_eraseP]
  rcases Nat.le_one_iff_eq_zero_or_eq_one.mp atMostOne with none | one
  · rw [none, Function.iterate_zero_apply]
    exact eraseP_of_forall_not fun a member => by
      simpa using filter_eq_nil_iff.mp (length_eq_zero_iff.mp none) a member
  · rw [one]
    rfl

/-- Erasing an element `q` skips leaves `q`'s filter as it was. -/
theorem filter_erase_of_neg [BEq α] [LawfulBEq α] {a : α} (skipped : q a = false) (l : List α) :
    (l.erase a).filter q = l.filter q := by
  rw [← erase_filter, erase_of_not_mem]
  intro member
  rw [of_mem_filter member] at skipped
  cases skipped

variable [BEq α] {a b : α}

theorem mem_of_mem_replace {l : List α} {t : α} (member : t ∈ l.replace a b) : t ∈ l ∨ t = b := by
  induction l with
  | nil => exact absurd member (not_mem_nil)
  | cons y l ih =>
    rw [replace_cons] at member
    split at member
    · rcases mem_cons.mp member with same | rest
      · exact .inr same
      · exact .inl (mem_cons_of_mem _ rest)
    · rcases mem_cons.mp member with same | rest
      · exact .inl (same ▸ mem_cons_self)
      · exact (ih rest).imp (mem_cons_of_mem _) id

variable [LawfulBEq α]

/-- Replacing an element the filter selects by another it selects replaces it in the filter. -/
theorem filter_replace_of_pos (selectedA : p a) (selectedB : p b) (l : List α) :
    (l.replace a b).filter p = (l.filter p).replace a b := by
  induction l with
  | nil => rfl
  | cons y l ih =>
    by_cases same : a = y
    · subst same
      simp only [replace_cons, beq_self_eq_true, filter_cons_of_pos selectedB,
        filter_cons_of_pos selectedA]
    · have differ : (a == y) = false := beq_eq_false_iff_ne.mpr same
      rw [replace_cons, differ]
      by_cases kept : p y
      · rw [filter_cons_of_pos kept, filter_cons_of_pos kept, ih, replace_cons, differ]
      · rw [filter_cons_of_neg kept, filter_cons_of_neg kept, ih]

/-- Replacing an element the filter skips by another it skips leaves the filter as it was. -/
theorem filter_replace_of_neg (skippedA : p a = false) (skippedB : p b = false) (l : List α) :
    (l.replace a b).filter p = l.filter p := by
  induction l with
  | nil => rfl
  | cons y l ih =>
    by_cases same : a = y
    · subst same
      rw [replace_cons, beq_self_eq_true, filter_cons_of_neg (by rw [skippedB]; decide),
        filter_cons_of_neg (by rw [skippedA]; decide)]
    · rw [replace_cons, beq_eq_false_iff_ne.mpr same]
      simp only [filter_cons, ih]

/-- Replacing a member of a list the filter skips throughout by an element it selects leaves that
element alone in the filter. -/
theorem filter_replace_eq_singleton {l : List α} (skippedAll : ∀ t ∈ l, q t = false)
    (member : a ∈ l) (selectedB : q b) : (l.replace a b).filter q = [b] := by
  induction l with
  | nil => exact absurd member not_mem_nil
  | cons y l ih =>
    by_cases same : a = y
    · subst same
      simp only [replace_cons, beq_self_eq_true, filter_cons_of_pos selectedB]
      rw [filter_eq_nil_iff.mpr fun t rest => by
        rw [skippedAll t (mem_cons_of_mem _ rest)]; decide]
    · rw [replace_cons, beq_eq_false_iff_ne.mpr same]
      have later : a ∈ l := by
        rcases mem_cons.mp member with first | rest
        · exact absurd first same
        · exact rest
      rw [filter_cons_of_neg (by rw [skippedAll y mem_cons_self]; decide),
        ih (fun t rest => skippedAll t (mem_cons_of_mem _ rest)) later]

end Filters

section InsertUnique

variable [BEq β] {key : α → β}

theorem insertUnique_eq_or (l : List α) (a : α) :
    l.insertUnique key a = l ∨ l.insertUnique key a = l ++ [a] := by
  unfold insertUnique
  split
  · exact .inl rfl
  · exact .inr rfl

variable [LawfulBEq β]

/-- An index unique by `key` stays so. -/
theorem nodup_map_insertUnique {l : List α} (unique : (l.map key).Nodup) (a : α) :
    ((l.insertUnique key a).map key).Nodup := by
  unfold insertUnique
  split
  · exact unique
  · rename_i absent
    rw [map_append, map_singleton, nodup_append]
    refine ⟨unique, nodup_cons.mpr ⟨not_mem_nil, nodup_nil⟩, ?_⟩
    intro x old y new same
    rw [mem_singleton.mp new] at same
    obtain ⟨t, member, rfl⟩ := mem_map.mp old
    exact absent (any_eq_true.mpr ⟨t, member, beq_iff_eq.mpr same⟩)

/-- Inserting one element after another keeps an index unique by `key`. -/
theorem nodup_map_foldl_insertUnique :
    ∀ (l : List α) {acc : List α}, (acc.map key).Nodup →
      ((l.foldl (insertUnique key) acc).map key).Nodup
  | [], _, unique => unique
  | a :: l, _, unique => nodup_map_foldl_insertUnique l (nodup_map_insertUnique unique a)

/-- In a list unique by `key`, at most one element has a given key. -/
theorem length_filter_key_le_one {l : List α} (unique : (l.map key).Nodup) (k : β) :
    (l.filter fun a => key a == k).length ≤ 1 := by
  -- The keys of the filtered elements are all `k`, and they are pairwise distinct.
  have keys : (l.filter fun a => key a == k).map key =
      replicate (l.filter fun a => key a == k).length k := by
    rw [eq_replicate_iff, length_map]
    refine ⟨rfl, fun b member => ?_⟩
    obtain ⟨a, kept, rfl⟩ := mem_map.mp member
    have same := of_mem_filter kept
    exact beq_iff_eq.mp same
  have distinct : ((l.filter fun a => key a == k).map key).Nodup :=
    unique.sublist (filter_sublist.map key)
  rw [keys, nodup_replicate] at distinct
  exact distinct

/-- Inserting, one after another, elements with pairwise distinct keys, none of them already there,
inserts them all. -/
theorem foldl_insertUnique_of_nodup :
    ∀ (l acc : List α), ((acc ++ l).map key).Nodup → l.foldl (insertUnique key) acc = acc ++ l
  | [], acc, _ => by rw [foldl_nil, append_nil]
  | a :: l, acc, unique => by
    rw [foldl_cons]
    have absent : ¬ acc.any (fun t => key t == key a) := by
      intro present
      obtain ⟨t, member, same⟩ := any_eq_true.mp present
      rw [map_append, map_cons, nodup_append] at unique
      exact unique.2.2 (key t) (mem_map_of_mem member) (key a) mem_cons_self (beq_iff_eq.mp same)
    rw [insertUnique, if_neg absent, foldl_insertUnique_of_nodup l (acc ++ [a])
      (by rwa [append_assoc, singleton_append]), append_assoc, singleton_append]

end InsertUnique

/-- In a list without repeats, an entry's first index is its index. -/
theorem idxOf?_getElem_of_nodup {α : Type} [BEq α] [LawfulBEq α] {l : List α}
    (nodup : l.Nodup) {i : Nat} (inRange : i < l.length) : l.idxOf? l[i] = some i := by
  rw [List.idxOf?_eq_some_iff]
  refine ⟨inRange, rfl, fun j before same => ?_⟩
  have := (nodup.getElem_inj_iff).mp same
  omega

/-- `find_first_of` on a text split at the first occurrence finds the split. -/
theorem idxOf?_append_cons {α : Type} [BEq α] [LawfulBEq α] {a : α} (post : List α) :
    ∀ {pre : List α}, a ∉ pre → (pre ++ a :: post).idxOf? a = some pre.length
  | [], _ => by simp [idxOf?_cons]
  | b :: pre, absent => by
    rw [mem_cons, not_or] at absent
    rw [cons_append, idxOf?_cons, if_neg (by simpa using Ne.symm absent.1),
      idxOf?_append_cons post absent.2]
    rfl

/-- Where `find_first_of` finds `a`, the list splits there, with no `a` in front. -/
theorem eq_append_cons_of_idxOf? {α : Type} [BEq α] [LawfulBEq α] {a : α} {l : List α} {i : Nat}
    (found : l.idxOf? a = some i) : l = l.take i ++ a :: l.drop (i + 1) ∧ a ∉ l.take i := by
  obtain ⟨inRange, atIndex, before⟩ := idxOf?_eq_some_iff.mp found
  refine ⟨?_, fun member => ?_⟩
  · conv => lhs; rw [← take_append_drop i l]
    rw [drop_eq_getElem_cons inRange, atIndex]
  · obtain ⟨j, inTake, same⟩ := mem_iff_getElem.mp member
    rw [length_take] at inTake
    rw [getElem_take] at same
    exact before j (by omega) same

section InsertBefore

/-! ### Inserting before the first element that is not smaller

`v.insert(std::find_if(v.begin(), v.end(), p), a)` puts `a` in front of the first element that
satisfies `p`, or at the end. With `p` the test "not smaller than `a`" on a strictly increasing
list, the list stays strictly increasing. -/

variable {p : α → Bool} {a : α} {l : List α}

theorem getElem_insert_findIdx :
    (l.take (l.findIdx p) ++ a :: l.drop (l.findIdx p))[l.findIdx p]? = some a := by
  rw [getElem?_append_right (by rw [length_take]; exact Nat.min_le_left _ _), length_take,
    Nat.min_eq_left findIdx_le_length, Nat.sub_self, getElem?_cons_zero]

theorem eraseIdx_insert_findIdx :
    (l.take (l.findIdx p) ++ a :: l.drop (l.findIdx p)).eraseIdx (l.findIdx p) = l := by
  rw [eraseIdx_append_of_length_le (by rw [length_take]; exact Nat.min_le_left _ _), length_take,
    Nat.min_eq_left findIdx_le_length, Nat.sub_self, eraseIdx_cons_zero, take_append_drop]

/-- Inserting before the first element whose key is at least `a`'s, into a list of strictly
increasing keys none of which is `a`'s, keeps the keys strictly increasing. -/
theorem pairwise_insert_findIdx (key : α → Nat) (test : ∀ x, p x = decide (key a ≤ key x))
    (increasing : (l.map key).Pairwise (· < ·)) (fresh : ∀ x ∈ l, key x ≠ key a) :
    ((l.take (l.findIdx p) ++ a :: l.drop (l.findIdx p)).map key).Pairwise (· < ·) := by
  have whole := increasing
  rw [← take_append_drop (l.findIdx p) l, map_append, pairwise_append] at whole
  obtain ⟨front, back, across⟩ := whole
  -- Everything in front of the insertion point is below `a`, everything from it on above.
  have below : ∀ x ∈ l.take (l.findIdx p), key x < key a := by
    intro x member
    obtain ⟨j, inRange, rfl⟩ := mem_iff_getElem.mp member
    rw [length_take] at inRange
    have failed := not_of_lt_findIdx (Nat.lt_of_lt_of_le inRange (Nat.min_le_left _ _))
    rw [test] at failed
    rw [getElem_take]
    exact Nat.lt_of_not_le (of_decide_eq_false failed)
  have above : ∀ x ∈ l.drop (l.findIdx p), key a < key x := by
    intro x member
    obtain ⟨j, inRange, rfl⟩ := mem_iff_getElem.mp member
    rw [length_drop] at inRange
    have point : l.findIdx p < l.length := by omega
    have found : p l[l.findIdx p] = true := @findIdx_getElem _ p l point
    rw [test] at found
    have atPoint := of_decide_eq_true found
    -- The first element from the point on is at least `a`, and not equal to it; later ones exceed it.
    rw [getElem_drop]
    rcases Nat.eq_zero_or_pos j with zero | later
    · subst zero
      have := fresh _ (getElem_mem point)
      simp only [Nat.add_zero]
      omega
    · have step := pairwise_iff_getElem.mp increasing (l.findIdx p) (l.findIdx p + j)
        (by rw [length_map]; omega) (by rw [length_map]; omega) (by omega)
      rw [getElem_map, getElem_map] at step
      omega
  rw [map_append, map_cons, pairwise_append, pairwise_cons]
  refine ⟨front, ⟨fun y member => ?_, back⟩, fun x xIn y yIn => ?_⟩
  · obtain ⟨z, zIn, rfl⟩ := mem_map.mp member
    exact above z zIn
  · obtain ⟨z, zIn, rfl⟩ := mem_map.mp xIn
    rcases mem_cons.mp yIn with same | later
    · rw [same]
      exact below z zIn
    · exact across _ (mem_map_of_mem zIn) _ later

/-- The first `n` elements of a list of strictly increasing keys are below every element left
out. -/
theorem key_lt_of_mem_take (key : α → Nat) (increasing : (l.map key).Pairwise (· < ·)) (n : Nat)
    {c : α} (member : c ∈ l) (left : c ∉ l.take n) {x : α} (taken : x ∈ l.take n) :
    key x < key c := by
  have dropped : c ∈ l.drop n := by
    rw [← take_append_drop n l, mem_append] at member
    exact member.resolve_left left
  rw [← take_append_drop n l, map_append, pairwise_append] at increasing
  exact increasing.2.2 _ (mem_map_of_mem taken) _ (mem_map_of_mem dropped)

end InsertBefore

/-! ### Lookups along a list

`mapM` in `Option` succeeds with the values of its lookups when each succeeds, and fails when one
does; and a list cut into pieces of one width, or made of pieces of one width, is read back piece
by piece.
-/

section Lookups

theorem mapM_option_eq_some {f : α → Option β} {g : α → β} :
    ∀ {l : List α}, (∀ a ∈ l, f a = some (g a)) → l.mapM f = some (l.map g)
  | [], _ => rfl
  | a :: l, found => by
    rw [mapM_cons, found a mem_cons_self, mapM_option_eq_some fun b member => found b
      (mem_cons_of_mem a member)]
    rfl

theorem mapM_option_eq_none {f : α → Option β} :
    ∀ {l : List α} {a : α}, a ∈ l → f a = none → l.mapM f = none
  | b :: l, a, member, missing => by
    rw [mapM_cons]
    rcases mem_cons.mp member with same | later
    · rw [← same, missing]
      rfl
    · cases f b with
      | none => rfl
      | some _ =>
        show (l.mapM f >>= _) = none
        rw [mapM_option_eq_none later missing]
        rfl

/-- The first `k` pieces of width `w` of a list make up its first `k * w` elements. -/
theorem flatMap_range_take_drop (l : List α) (w : Nat) :
    ∀ k : Nat, (range k).flatMap (fun i => (l.drop (i * w)).take w) = l.take (k * w)
  | 0 => by simp
  | k + 1 => by
    rw [range_succ, flatMap_append, flatMap_range_take_drop l w k, flatMap_singleton,
      Nat.succ_mul, take_add]

/-- Reading position `i * w + r` of pieces of width `w` reads position `r` of piece `i`. -/
theorem getD_flatMap_range {f : Nat → List α} {w : Nat} (uniform : ∀ i, (f i).length = w)
    (d : α) : ∀ {k i r : Nat}, i < k → r < w →
      ((range k).flatMap f).getD (i * w + r) d = (f i).getD r d
  | 0, _, _, inRange, _ => absurd inRange (Nat.not_lt_zero _)
  | k + 1, i, r, inRange, within => by
    have front : ((range k).flatMap f).length = k * w := by
      rw [length_flatMap, map_congr_left fun j _ => uniform j]
      simp
    rw [range_succ, flatMap_append, flatMap_singleton]
    rcases Nat.lt_or_ge i k with earlier | last
    · -- An earlier piece lies in the front part.
      have inFront : i * w + r < k * w := by
        calc i * w + r < i * w + w := by omega
          _ = (i + 1) * w := (Nat.succ_mul i w).symm
          _ ≤ k * w := Nat.mul_le_mul_right w earlier
      rw [getD_eq_getElem?_getD, getElem?_append_left (by rw [front]; exact inFront),
        ← getD_eq_getElem?_getD, getD_flatMap_range uniform d earlier within]
    · -- The last piece starts where the front part ends.
      have same : i = k := by omega
      subst same
      rw [getD_eq_getElem?_getD, getElem?_append_right (by rw [front]; omega), front,
        Nat.add_sub_cancel_left, ← getD_eq_getElem?_getD]

end Lookups

end List
