import Mathlib

/-!
Greedy matching of a list of items against a list of keys: walk the keys once, and match the next
item to each key that fits it. The walk succeeds exactly when the items fit, in order, a sublist of
the keys (`greedyMatch_iff`): taking the first key that fits is never worse than taking a later
one, since whatever the later one leaves, the first leaves too (`SublistForall₂.of_cons_cons`). In
indices, the items fit keys at strictly increasing positions (`sublistForall₂_iff_exists_strictMono`).
-/

namespace List

variable {α β : Type*}

/-- Walk `keys` once, matching the next of `items` to each key that `fits` it. -/
def greedyMatch (fits : α → β → Bool) : List α → List β → Bool
  | [], _ => true
  | _ :: _, [] => false
  | a :: items, b :: keys =>
    if fits a b then greedyMatch fits items keys else greedyMatch fits (a :: items) keys

section Sublist

variable {R : α → β → Prop}

/-- Dropping the first item keeps a match. -/
theorem SublistForall₂.of_cons {a : α} {items : List α} {keys : List β}
    (matched : SublistForall₂ R (a :: items) keys) : SublistForall₂ R items keys := by
  induction keys with
  | nil => cases matched
  | cons b keys ih =>
    cases matched with
    | cons _ rest => exact .cons_right rest
    | cons_right rest => exact .cons_right (ih rest)

/-- The exchange step: a match of `a :: items` in `b :: keys` leaves a match of `items` in `keys`,
whichever key `a` took. -/
theorem SublistForall₂.of_cons_cons {a : α} {b : β} {items : List α} {keys : List β}
    (matched : SublistForall₂ R (a :: items) (b :: keys)) : SublistForall₂ R items keys := by
  cases matched with
  | cons _ rest => exact rest
  | cons_right rest => exact rest.of_cons

/-- A position past the head of a list is a position of its tail. -/
theorem getElem_cons_of_ne_zero {b : β} {keys : List β} (j : Fin (keys.length + 1)) (later : j ≠ 0) :
    (b :: keys)[j] = keys[j.pred later] := by
  obtain ⟨k, rfl⟩ := Fin.exists_succ_eq.mpr later
  simp

/-- A match in indices: the items fit keys at strictly increasing positions. -/
theorem sublistForall₂_iff_exists_strictMono {items : List α} {keys : List β} :
    SublistForall₂ R items keys ↔
      ∃ f : Fin items.length → Fin keys.length, StrictMono f ∧ ∀ i, R items[i] keys[f i] := by
  constructor
  · intro matched
    induction matched with
    | nil => exact ⟨Fin.elim0, fun i => i.elim0, fun i => i.elim0⟩
    | @cons a b items keys fit _ ih =>
      -- The first item takes the first key, the others the positions after it.
      obtain ⟨f, increasing, fits⟩ := ih
      refine ⟨Fin.cons 0 fun i => (f i).succ, ?_, ?_⟩
      · exact Fin.strictMono_cons.mpr ⟨fun i => Fin.succ_pos _,
          fun i j below => Fin.succ_lt_succ_iff.mpr (increasing below)⟩
      · intro i
        cases i using Fin.cases with
        | zero => exact fit
        | succ i => simpa using fits i
    | @cons_right b items keys _ ih =>
      -- Every item moves one key further.
      obtain ⟨f, increasing, fits⟩ := ih
      exact ⟨fun i => (f i).succ, fun i j below => Fin.succ_lt_succ_iff.mpr (increasing below),
        fun i => by simpa using fits i⟩
  · rintro ⟨f, increasing, fits⟩
    induction keys generalizing items with
    | nil =>
      cases items with
      | nil => exact .nil
      | cons a items => exact (f ⟨0, by simp⟩).elim0
    | cons b keys ih =>
      cases items with
      | nil => exact .nil
      | cons a items =>
        -- Every later item sits after the first one's key, so after position zero.
        have later : ∀ i : Fin items.length, f i.succ ≠ 0 := fun i =>
          Fin.pos_iff_ne_zero.mp (lt_of_le_of_lt (Fin.zero_le _) (increasing (Fin.succ_pos i)))
        by_cases first : f 0 = 0
        · -- The first item took the first key.
          have fit : R a b := by simpa [first] using fits 0
          refine .cons fit (ih (fun i => (f i.succ).pred (later i)) ?_ ?_)
          · intro i j below
            exact Fin.pred_lt_pred_iff.mpr (increasing (Fin.succ_lt_succ_iff.mpr below))
          · intro i
            have fitsLater := fits i.succ
            rw [getElem_cons_of_ne_zero _ (later i)] at fitsLater
            simpa using fitsLater
        · -- The first key is skipped: every item's key is further on.
          have skipped : ∀ i, f i ≠ 0 := by
            intro i
            cases i using Fin.cases with
            | zero => exact first
            | succ i => exact later i
          refine .cons_right (ih (fun i => (f i).pred (skipped i)) ?_ ?_)
          · intro i j below
            exact Fin.pred_lt_pred_iff.mpr (increasing below)
          · intro i
            have fitsMoved := fits i
            rw [getElem_cons_of_ne_zero _ (skipped i)] at fitsMoved
            exact fitsMoved

end Sublist

/-- The greedy walk succeeds exactly when the items fit a sublist of the keys, in order. -/
theorem greedyMatch_iff (fits : α → β → Bool) :
    ∀ (items : List α) (keys : List β),
      greedyMatch fits items keys = true ↔ SublistForall₂ (fun a b => fits a b = true) items keys
  | [], keys => by simp [greedyMatch, SublistForall₂.nil]
  | a :: items, [] => by
    simp only [greedyMatch, Bool.false_eq_true, false_iff]
    intro matched
    cases matched
  | a :: items, b :: keys => by
    by_cases fit : fits a b = true
    · -- The key fits: take it; the rest of any match still fits the rest of the keys.
      simp only [greedyMatch, fit, if_true, greedyMatch_iff fits items keys]
      exact ⟨fun rest => .cons fit rest, SublistForall₂.of_cons_cons⟩
    · -- It does not: any match of `a` skips this key.
      simp only [greedyMatch, fit, Bool.false_eq_true, if_false, greedyMatch_iff fits (a :: items) keys]
      constructor
      · exact SublistForall₂.cons_right
      · intro matched
        cases matched with
        | cons taken _ => exact absurd taken fit
        | cons_right rest => exact rest

end List
