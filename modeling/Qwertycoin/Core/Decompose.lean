import Mathlib

/-!
`decompose_amount_into_digits` cuts an amount into its nonzero decimal digits, each at its place
value, the lowest of them gathered into one dust amount while that stays within the dust threshold.
The loop's variables are `uint64`s: below, each round is shown to compute its digit, its place
value and the dust it adds without wrapping (`DigitsLoop.Invariant.step`), so that the handlers get
parts that add up to the amount, in increasing order, with at most one dust part.
-/

namespace CryptoNote

/-- A call `decompose_amount_into_digits` makes: of its chunk handler, or of its dust handler. -/
inductive DecomposedPart where
  | chunk (amount : UInt64)
  | dust (amount : UInt64)
deriving DecidableEq, Repr

/-- The value a handler is called with. -/
def DecomposedPart.amount : DecomposedPart → UInt64
  | .chunk amount => amount
  | .dust amount => amount

/-- Whether the call is of the dust handler. -/
def DecomposedPart.isDust : DecomposedPart → Bool
  | .chunk _ => false
  | .dust _ => true

/-- The variables of `decompose_amount_into_digits`' loop, with the handler calls made so far. -/
structure DigitsLoop where
  amount : UInt64
  order : UInt64
  dust : UInt64
  isDustHandled : Bool
  parts : List DecomposedPart
deriving DecidableEq, Repr

namespace DigitsLoop

/-- One round of the loop: the lowest digit at its place value joins the dust while the dust stays
within the threshold; otherwise the dust, if there is some not yet handed over, goes to the dust
handler and the digit, if nonzero, to the chunk handler. -/
def step (dustThreshold : UInt64) (s : DigitsLoop) : DigitsLoop :=
  let chunk := (s.amount % 10) * s.order
  let next := { s with amount := s.amount / 10, order := s.order * 10 }
  if s.dust + chunk ≤ dustThreshold then { next with dust := s.dust + chunk }
  else
    let flush := !s.isDustHandled && s.dust != 0
    { next with
      isDustHandled := s.isDustHandled || flush
      parts := s.parts ++ (if flush then [.dust s.dust] else []) ++
        (if chunk != 0 then [.chunk chunk] else []) }

/-- `while (0 != amount)`, for at most `rounds` rounds. -/
def run (dustThreshold : UInt64) : Nat → DigitsLoop → DigitsLoop
  | 0, s => s
  | rounds + 1, s => if s.amount = 0 then s else run dustThreshold rounds (s.step dustThreshold)

/-- The loop's start: the whole amount left, place value one, no dust. -/
def start (amount : UInt64) : DigitsLoop := ⟨amount, 1, 0, false, []⟩

/-- What is left to hand over after the loop: the dust, unless it was handed over or is zero. -/
def leftover (s : DigitsLoop) : List DecomposedPart :=
  if !s.isDustHandled && s.dust != 0 then [.dust s.dust] else []

end DigitsLoop

/-- `decompose_amount_into_digits(amount, dust_threshold, chunk_handler, dust_handler)`: the calls
it makes of its two handlers, in order. A 64-bit amount has at most twenty decimal digits, so twenty
rounds run the loop to its end. -/
def decomposeAmountIntoDigits (amount dustThreshold : UInt64) : List DecomposedPart :=
  if amount = 0 then []
  else
    let s := DigitsLoop.run dustThreshold 20 (DigitsLoop.start amount)
    s.parts ++ s.leftover

/-- `decomposeAmount(amount, dustThreshold, decomposedAmounts)`: both handlers push their value. -/
def decomposeAmount (amount dustThreshold : UInt64) : List UInt64 :=
  (decomposeAmountIntoDigits amount dustThreshold).map DecomposedPart.amount

/-! ### The loop's invariant -/

/-- A part the loop may hand over: a chunk is a nonzero digit at a place value, the dust is
nonzero and within the threshold. -/
def DecomposedPart.Shaped (dustThreshold : Nat) : DecomposedPart → Prop
  | .chunk amount => ∃ digit place, 1 ≤ digit ∧ digit ≤ 9 ∧ amount.toNat = digit * 10 ^ place
  | .dust amount => 0 < amount.toNat ∧ amount.toNat ≤ dustThreshold

/-- The values handed over, added up. -/
def handedSum (parts : List DecomposedPart) : Nat :=
  (parts.map (·.amount.toNat)).sum

@[simp] theorem handedSum_nil : handedSum [] = 0 := rfl

@[simp] theorem handedSum_append (parts more : List DecomposedPart) :
    handedSum (parts ++ more) = handedSum parts + handedSum more := by
  simp [handedSum]

namespace DigitsLoop

/-- What holds after `round` rounds from `amount`: the digits left and their place value; the
digits below it handed over or in the dust not yet handed over; the dust within the threshold, and
beyond it by more than the place value once something was handed over; the parts handed over so
far in increasing order, below the place value, each of its shape, with one dust part once the dust
was handed over. -/
structure Invariant (amount dustThreshold : UInt64) (round : Nat) (s : DigitsLoop) : Prop where
  amount_eq : s.amount.toNat = amount.toNat / 10 ^ round
  order_eq : s.amount ≠ 0 → s.order.toNat = 10 ^ round
  handed : (if s.isDustHandled then 0 else s.dust.toNat) + handedSum s.parts =
    amount.toNat % 10 ^ round
  dust_le : s.dust.toNat ≤ amount.toNat % 10 ^ round
  dust_le_threshold : s.dust.toNat ≤ dustThreshold.toNat
  above : s.parts ≠ [] → dustThreshold.toNat < s.dust.toNat + 10 ^ round
  flushed : s.parts ≠ [] → s.isDustHandled ∨ s.dust = 0
  dusts : (s.parts.filter (·.isDust)).length = if s.isDustHandled then 1 else 0
  increasing : (s.parts.map (·.amount.toNat)).Pairwise (· < ·)
  below : ∀ part ∈ s.parts, part.amount.toNat < 10 ^ round
  shaped : ∀ part ∈ s.parts, part.Shaped dustThreshold.toNat

variable {amount dustThreshold : UInt64}

theorem invariant_start : Invariant amount dustThreshold 0 (start amount) where
  amount_eq := by simp [start]
  order_eq _ := rfl
  handed := by simp [start, Nat.mod_one]
  dust_le := by simp [start]
  dust_le_threshold := by simp [start]
  above nonempty := absurd rfl nonempty
  flushed nonempty := absurd rfl nonempty
  dusts := rfl
  increasing := List.Pairwise.nil
  below _ member := absurd member List.not_mem_nil
  shaped _ member := absurd member List.not_mem_nil

/-- The values a round computes, when the invariant holds and digits are left: the chunk is the
digit at its place value, the dust with it is their sum, and the digits left drop one. None of
these `uint64` operations wraps, for each stays within the amount. -/
theorem Invariant.step_values {round : Nat} {s : DigitsLoop}
    (inv : Invariant amount dustThreshold round s) (running : s.amount ≠ 0) :
    ((s.amount % 10) * s.order).toNat = s.amount.toNat % 10 * 10 ^ round ∧
      (s.dust + (s.amount % 10) * s.order).toNat =
        s.dust.toNat + s.amount.toNat % 10 * 10 ^ round ∧
      (s.amount / 10).toNat = amount.toNat / 10 ^ (round + 1) := by
  have bound := amount.toNat_lt
  have left : 0 < s.amount.toNat := by
    rcases Nat.eq_zero_or_pos s.amount.toNat with zero | positive
    · exact absurd (UInt64.toNat_inj.mp (zero.trans UInt64.toNat_zero.symm)) running
    · exact positive
  -- The digit at its place value is at most the amount, and the dust with it is the amount's
  -- digits up to that place.
  have digitBound : s.amount.toNat % 10 * 10 ^ round ≤ amount.toNat := by
    calc s.amount.toNat % 10 * 10 ^ round
        ≤ s.amount.toNat * 10 ^ round := Nat.mul_le_mul_right _ (Nat.mod_le _ _)
      _ = amount.toNat / 10 ^ round * 10 ^ round := by rw [inv.amount_eq]
      _ ≤ amount.toNat := Nat.div_mul_le_self _ _
  have upTo : amount.toNat % 10 ^ (round + 1) =
      amount.toNat % 10 ^ round + 10 ^ round * (amount.toNat / 10 ^ round % 10) :=
    Nat.mod_pow_succ
  have dustBound : s.dust.toNat + s.amount.toNat % 10 * 10 ^ round ≤ amount.toNat := by
    have := inv.dust_le
    have := Nat.mod_le amount.toNat (10 ^ (round + 1))
    rw [inv.amount_eq]
    rw [Nat.mul_comm] at upTo
    omega
  have chunk : ((s.amount % 10) * s.order).toNat = s.amount.toNat % 10 * 10 ^ round := by
    rw [UInt64.toNat_mul, UInt64.toNat_mod, inv.order_eq running]
    exact Nat.mod_eq_of_lt (by simp only [UInt64.reduceToNat]; omega)
  refine ⟨chunk, ?_, ?_⟩
  · rw [UInt64.toNat_add, chunk]
    exact Nat.mod_eq_of_lt (by omega)
  · rw [UInt64.toNat_div, inv.amount_eq, Nat.div_div_eq_div_mul, Nat.pow_succ]
    rfl

/-- Once the dust was handed over, something was. -/
theorem Invariant.parts_ne_nil {round : Nat} {s : DigitsLoop}
    (inv : Invariant amount dustThreshold round s) (handled : s.isDustHandled = true) :
    s.parts ≠ [] := by
  intro none
  have count := inv.dusts
  rw [none, handled] at count
  cases count

/-- While digits are left, the next place value is ten times this one, exactly. -/
theorem Invariant.order_next {round : Nat} {s : DigitsLoop}
    (inv : Invariant amount dustThreshold round s) (running : s.amount ≠ 0) :
    s.amount / 10 ≠ 0 → (s.order * 10).toNat = 10 ^ (round + 1) := by
  intro more
  have left : 0 < amount.toNat / 10 ^ (round + 1) := by
    rw [← (inv.step_values running).2.2]
    rcases Nat.eq_zero_or_pos (s.amount / 10).toNat with zero | positive
    · exact absurd (UInt64.toNat_inj.mp (zero.trans UInt64.toNat_zero.symm)) more
    · exact positive
  have fits : 10 ^ (round + 1) ≤ amount.toNat := (Nat.div_pos_iff.mp left).2
  have bound := amount.toNat_lt
  rw [UInt64.toNat_mul, inv.order_eq running]
  simp only [UInt64.reduceToNat]
  rw [← Nat.pow_succ]
  exact Nat.mod_eq_of_lt (by omega)

/-- One round keeps the invariant. -/
theorem Invariant.step {round : Nat} {s : DigitsLoop}
    (inv : Invariant amount dustThreshold round s) (running : s.amount ≠ 0) :
    Invariant amount dustThreshold (round + 1) (s.step dustThreshold) := by
  obtain ⟨chunk, sum, rest⟩ := inv.step_values running
  have digitOf : s.amount.toNat % 10 = amount.toNat / 10 ^ round % 10 := by rw [inv.amount_eq]
  -- The amount's digits up to the new place: those below, and this round's digit.
  have upTo : amount.toNat % 10 ^ (round + 1) =
      amount.toNat % 10 ^ round + s.amount.toNat % 10 * 10 ^ round := by
    rw [Nat.mod_pow_succ, digitOf, Nat.mul_comm]
  have digitLe : s.amount.toNat % 10 ≤ 9 := by omega
  have placeGrows : 10 ^ round ≤ 10 ^ (round + 1) := Nat.pow_le_pow_right (by decide) (by omega)
  have tenfold : 10 ^ (round + 1) = 10 ^ round * 10 := pow_succ 10 round
  unfold DigitsLoop.step
  dsimp only
  split
  · -- The digit joins the dust.
    rename_i fits
    rw [UInt64.le_iff_toNat_le, sum] at fits
    -- Once something was handed over, only a zero digit fits beside the dust.
    have zeroDigit : s.parts ≠ [] → s.amount.toNat % 10 = 0 := fun nonempty => by
      have beyond := inv.above nonempty
      by_contra nonzero
      have : 10 ^ round ≤ s.amount.toNat % 10 * 10 ^ round :=
        Nat.le_mul_of_pos_left _ (Nat.pos_of_ne_zero nonzero)
      omega
    exact {
      amount_eq := rest
      order_eq := inv.order_next running
      handed := by
        dsimp only
        rw [sum, upTo]
        have handed := inv.handed
        cases handled : s.isDustHandled
        · rw [handled] at handed
          simp only [Bool.false_eq_true, if_false] at handed ⊢
          omega
        · rw [handled] at handed
          have := zeroDigit (inv.parts_ne_nil handled)
          simp only [if_true] at handed ⊢
          rw [this]
          omega
      dust_le := by
        dsimp only
        rw [sum, upTo]
        have := inv.dust_le
        omega
      dust_le_threshold := by
        dsimp only
        rw [sum]
        exact fits
      above := fun nonempty => by
        dsimp only at nonempty ⊢
        rw [sum, zeroDigit nonempty]
        have := inv.above nonempty
        omega
      flushed := fun nonempty => by
        dsimp only at nonempty ⊢
        rcases inv.flushed nonempty with handled | noDust
        · exact .inl handled
        · refine .inr (UInt64.toNat_inj.mp ?_)
          rw [sum, zeroDigit nonempty, noDust]
          simp
      dusts := inv.dusts
      increasing := inv.increasing
      below := fun part member => Nat.lt_of_lt_of_le (inv.below part member) placeGrows
      shaped := inv.shaped }
  · -- The digit is handed over, after the dust if it was not yet.
    rename_i beyond
    rw [UInt64.le_iff_toNat_le, sum] at beyond
    have nonzero : 0 < s.amount.toNat % 10 := by
      have := inv.dust_le_threshold
      by_contra zero
      rw [Nat.eq_zero_of_not_pos zero] at beyond
      omega
    have chunkNe : ((s.amount % 10) * s.order != 0) = true := by
      rw [bne_iff_ne, ne_eq, ← UInt64.toNat_inj, chunk]
      simp only [UInt64.toNat_zero]
      exact Nat.pos_iff_ne_zero.mp (Nat.mul_pos nonzero (Nat.pow_pos (by decide)))
    -- The chunk is above everything handed over so far and below the next place value.
    have chunkLower : 10 ^ round ≤ s.amount.toNat % 10 * 10 ^ round :=
      Nat.le_mul_of_pos_left _ nonzero
    have positive : 0 < 10 ^ round := Nat.pow_pos (by decide)
    have chunkUpper : s.amount.toNat % 10 * 10 ^ round < 10 ^ (round + 1) := by
      rw [tenfold, Nat.mul_comm (10 ^ round)]
      exact Nat.mul_lt_mul_of_pos_right (Nat.mod_lt _ (by decide)) positive
    have dustSmall : s.dust.toNat < 10 ^ round :=
      Nat.lt_of_le_of_lt inv.dust_le (Nat.mod_lt _ positive)
    have chunkShaped : (DecomposedPart.chunk ((s.amount % 10) * s.order)).Shaped
        dustThreshold.toNat :=
      ⟨s.amount.toNat % 10, round, nonzero, digitLe, chunk⟩
    have handedChunk : handedSum [.chunk ((s.amount % 10) * s.order)] =
        s.amount.toNat % 10 * 10 ^ round := by
      simp [handedSum, DecomposedPart.amount, chunk]
    rw [if_pos chunkNe]
    by_cases flush : (!s.isDustHandled && s.dust != 0) = true
    · -- The dust goes first; nothing was handed over before it.
      rw [if_pos flush]
      have handledNow : (s.isDustHandled || (!s.isDustHandled && s.dust != 0)) = true := by
        rw [flush, Bool.or_true]
      simp only [Bool.and_eq_true, Bool.not_eq_true', bne_iff_ne] at flush
      obtain ⟨notHandled, someDust⟩ := flush
      have noParts : s.parts = [] := by
        by_contra nonempty
        rcases inv.flushed nonempty with handled | noDust
        · rw [notHandled] at handled
          cases handled
        · exact someDust noDust
      have handed := inv.handed
      rw [notHandled, noParts] at handed
      simp only [Bool.false_eq_true, if_false, handedSum_nil] at handed
      have dustShaped : (DecomposedPart.dust s.dust).Shaped dustThreshold.toNat :=
        ⟨Nat.pos_of_ne_zero fun zero => someDust (UInt64.toNat_inj.mp
          (zero.trans UInt64.toNat_zero.symm)), inv.dust_le_threshold⟩
      exact {
        amount_eq := rest
        order_eq := inv.order_next running
        handed := by
          dsimp only
          rw [handledNow, if_pos rfl, noParts, List.nil_append, handedSum_append, handedChunk]
          simp only [handedSum, DecomposedPart.amount, List.map_cons, List.map_nil,
            List.sum_cons, List.sum_nil]
          omega
        dust_le := by
          dsimp only
          have := inv.dust_le
          omega
        dust_le_threshold := inv.dust_le_threshold
        above := fun _ => by
          dsimp only
          omega
        flushed := fun _ => .inl handledNow
        dusts := by
          dsimp only
          rw [handledNow, noParts]
          simp [DecomposedPart.isDust]
        increasing := by
          dsimp only
          simp only [noParts, List.nil_append, List.cons_append, List.map_cons, List.map_nil,
            List.pairwise_pair]
          show s.dust.toNat < ((s.amount % 10) * s.order).toNat
          omega
        below := by
          dsimp only
          simp only [noParts, List.nil_append, List.cons_append, List.mem_cons, List.not_mem_nil]
          rintro part (same | same | none)
          · rw [same]
            show s.dust.toNat < _
            omega
          · rw [same]
            show ((s.amount % 10) * s.order).toNat < _
            omega
          · exact none.elim
        shaped := by
          dsimp only
          simp only [noParts, List.nil_append, List.cons_append, List.mem_cons, List.not_mem_nil]
          rintro part (same | same | none)
          · rw [same]
            exact dustShaped
          · rw [same]
            exact chunkShaped
          · exact none.elim }
    · -- Only the chunk goes: the dust was handed over, or there is none.
      rw [if_neg flush]
      have kept : (s.isDustHandled || (!s.isDustHandled && s.dust != 0)) = s.isDustHandled := by
        cases handled : s.isDustHandled
        · simp only [handled] at flush ⊢
          simpa using flush
        · rfl
      have handedOrNone : s.isDustHandled = true ∨ s.dust = 0 := by
        cases handled : s.isDustHandled
        · rw [handled] at flush
          simp only [Bool.not_false, Bool.true_and, bne_iff_ne, ne_eq, not_not] at flush
          exact .inr flush
        · exact .inl rfl
      exact {
        amount_eq := rest
        order_eq := inv.order_next running
        handed := by
          dsimp only
          rw [kept, List.append_nil, handedSum_append, handedChunk, upTo, ← inv.handed]
          rcases handedOrNone with handled | noDust
          · simp only [handled, if_true]
            omega
          · have zero : s.dust.toNat = 0 := by rw [noDust]; rfl
            simp only [zero, ite_self]
            omega
        dust_le := by
          dsimp only
          have := inv.dust_le
          omega
        dust_le_threshold := inv.dust_le_threshold
        above := fun _ => by
          dsimp only
          omega
        flushed := fun _ => by
          dsimp only
          rw [kept]
          exact handedOrNone
        dusts := by
          dsimp only
          rw [kept, List.append_nil, List.filter_append, List.length_append, inv.dusts]
          simp [DecomposedPart.isDust]
        increasing := by
          dsimp only
          rw [List.append_nil, List.map_append, List.pairwise_append]
          refine ⟨inv.increasing, List.pairwise_singleton _ _, ?_⟩
          intro value old chunkValue new
          obtain ⟨part, member, rfl⟩ := List.mem_map.mp old
          rw [List.map_singleton, List.mem_singleton] at new
          rw [new]
          show part.amount.toNat < ((s.amount % 10) * s.order).toNat
          have := inv.below part member
          omega
        below := by
          dsimp only
          rw [List.append_nil]
          intro part member
          rcases List.mem_append.mp member with old | new
          · exact Nat.lt_of_lt_of_le (inv.below part old) placeGrows
          · rw [List.mem_singleton.mp new]
            show ((s.amount % 10) * s.order).toNat < _
            omega
        shaped := by
          dsimp only
          rw [List.append_nil]
          intro part member
          rcases List.mem_append.mp member with old | new
          · exact inv.shaped part old
          · rw [List.mem_singleton.mp new]
            exact chunkShaped }

/-- The invariant holds after any number of rounds. -/
theorem Invariant.run_reaches {round : Nat} {s : DigitsLoop}
    (inv : Invariant amount dustThreshold round s) (rounds : Nat) :
    ∃ last, Invariant amount dustThreshold last (s.run dustThreshold rounds) := by
  induction rounds generalizing round s with
  | zero => exact ⟨round, inv⟩
  | succ rounds ih =>
    rw [DigitsLoop.run]
    by_cases stopped : s.amount = 0
    · rw [if_pos stopped]
      exact ⟨round, inv⟩
    · rw [if_neg stopped]
      exact ih (inv.step stopped)

/-- Once the place value passes the amount, the loop has stopped: no digits are left. -/
theorem Invariant.run_stops {round : Nat} {s : DigitsLoop}
    (inv : Invariant amount dustThreshold round s) (rounds : Nat)
    (fits : amount.toNat < 10 ^ (round + rounds)) :
    ∃ last, Invariant amount dustThreshold last (s.run dustThreshold rounds) ∧
      (s.run dustThreshold rounds).amount = 0 := by
  induction rounds generalizing round s with
  | zero =>
    refine ⟨round, inv, UInt64.toNat_inj.mp ?_⟩
    rw [Nat.add_zero] at fits
    rw [DigitsLoop.run, inv.amount_eq, Nat.div_eq_of_lt fits]
    rfl
  | succ rounds ih =>
    rw [DigitsLoop.run]
    by_cases stopped : s.amount = 0
    · rw [if_pos stopped]
      exact ⟨round, inv, stopped⟩
    · rw [if_neg stopped]
      have later : round + 1 + rounds = round + (rounds + 1) := by omega
      exact ih (inv.step stopped) (by rwa [later])

end DigitsLoop

/-- What `decompose_amount_into_digits` promises of the calls it makes of its handlers: their
values add up to the amount, the dust handler is called at most once, every value has the shape of
a chunk or of dust, and each value is larger than all those before it. -/
structure Splits (amount dustThreshold : UInt64) (parts : List DecomposedPart) : Prop where
  sum_eq : handedSum parts = amount.toNat
  dust_once : (parts.filter (·.isDust)).length ≤ 1
  shaped : ∀ part ∈ parts, part.Shaped dustThreshold.toNat
  increasing : (parts.map (·.amount.toNat)).Pairwise (· < ·)

namespace DigitsLoop

variable {amount dustThreshold : UInt64}

/-- When the loop has stopped, the parts handed over with the dust left over split the amount. -/
theorem Invariant.splits {round : Nat} {s : DigitsLoop}
    (inv : Invariant amount dustThreshold round s) (stopped : s.amount = 0) :
    Splits amount dustThreshold (s.parts ++ s.leftover) := by
  -- No digits are left, so the place value passed the amount.
  have whole : amount.toNat % 10 ^ round = amount.toNat := by
    have none : amount.toNat / 10 ^ round = 0 := by
      rw [← inv.amount_eq, stopped]
      rfl
    exact Nat.mod_eq_of_lt ((Nat.div_eq_zero_iff_lt (Nat.pow_pos (by decide))).mp none)
  have handed := inv.handed
  rw [whole] at handed
  unfold leftover
  by_cases flush : (!s.isDustHandled && s.dust != 0) = true
  · -- The dust was not handed over in the loop, so it is the only part.
    rw [if_pos flush]
    simp only [Bool.and_eq_true, Bool.not_eq_true', bne_iff_ne] at flush
    obtain ⟨notHandled, someDust⟩ := flush
    have noParts : s.parts = [] := by
      by_contra nonempty
      rcases inv.flushed nonempty with handled | noDust
      · rw [notHandled] at handled
        cases handled
      · exact someDust noDust
    rw [notHandled, noParts] at handed
    simp only [Bool.false_eq_true, if_false, handedSum_nil] at handed
    rw [noParts, List.nil_append]
    refine ⟨?_, by simp [DecomposedPart.isDust], ?_, List.pairwise_singleton _ _⟩
    · simp only [handedSum, List.map_cons, List.map_nil, List.sum_cons, List.sum_nil]
      exact (Nat.add_zero _).trans handed
    · intro part member
      rw [List.mem_singleton.mp member]
      exact ⟨Nat.pos_of_ne_zero fun zero => someDust (UInt64.toNat_inj.mp
        (zero.trans UInt64.toNat_zero.symm)), inv.dust_le_threshold⟩
  · -- The dust was handed over in the loop, or there is none: the parts are all there is.
    rw [if_neg flush, List.append_nil]
    have handedOrNone : s.isDustHandled = true ∨ s.dust = 0 := by
      cases handled : s.isDustHandled
      · rw [handled] at flush
        simp only [Bool.not_false, Bool.true_and, bne_iff_ne, ne_eq, not_not] at flush
        exact .inr flush
      · exact .inl rfl
    refine ⟨?_, ?_, inv.shaped, inv.increasing⟩
    · rcases handedOrNone with handledNow | noDust
      · rw [handledNow, if_pos rfl] at handed
        omega
      · have zero : s.dust.toNat = 0 := by rw [noDust]; rfl
        rw [zero, ite_self] at handed
        omega
    · rw [inv.dusts]
      split <;> decide

end DigitsLoop

/-- The parts `decompose_amount_into_digits` hands over split the amount, whatever the amount and
the dust threshold. -/
theorem decomposeAmountIntoDigits_splits (amount dustThreshold : UInt64) :
    Splits amount dustThreshold (decomposeAmountIntoDigits amount dustThreshold) := by
  unfold decomposeAmountIntoDigits
  split
  · -- No call at all for a zero amount.
    rename_i zero
    rw [zero]
    exact ⟨rfl, by decide, fun _ member => absurd member List.not_mem_nil, List.Pairwise.nil⟩
  · -- Twenty rounds pass every 64-bit amount.
    have fits : amount.toNat < 10 ^ (0 + 20) :=
      Nat.lt_of_lt_of_le amount.toNat_lt (by decide)
    obtain ⟨last, inv, stopped⟩ := DigitsLoop.invariant_start.run_stops 20 fits
    exact inv.splits stopped

example : decomposeAmount 62387455827 500000 =
    [455827, 7000000, 80000000, 300000000, 2000000000, 60000000000] := by decide

/-- `decompose_amount_into_digits` splits every amount exactly, and no round wraps in what it hands
over: in every round that runs, the place value is a power of ten, and the chunk and the dust with
it are their exact values. -/
theorem decompose_amount_into_digits_exact (amount dustThreshold : UInt64) :
    Splits amount dustThreshold (decomposeAmountIntoDigits amount dustThreshold) ∧
      ∀ rounds, let s := DigitsLoop.run dustThreshold rounds (DigitsLoop.start amount)
        s.amount ≠ 0 → ∃ place, s.order.toNat = 10 ^ place ∧
          ((s.amount % 10) * s.order).toNat = s.amount.toNat % 10 * 10 ^ place ∧
          (s.dust + (s.amount % 10) * s.order).toNat =
            s.dust.toNat + s.amount.toNat % 10 * 10 ^ place := by
  refine ⟨decomposeAmountIntoDigits_splits amount dustThreshold, fun rounds running => ?_⟩
  obtain ⟨place, inv⟩ := DigitsLoop.invariant_start.run_reaches rounds
  obtain ⟨chunk, sum, _⟩ := inv.step_values running
  exact ⟨place, inv.order_eq running, chunk, sum⟩

/-- The place value is multiplied by ten once more after the last digit of a twenty-digit amount
is taken, and that product wraps; the loop ends without using it. -/
theorem decompose_last_order_wraps :
    let s := DigitsLoop.run 0 19 (DigitsLoop.start 10000000000000000000)
    s.amount ≠ 0 ∧ s.order.toNat = 10 ^ 19 ∧ (s.step 0).order.toNat ≠ 10 ^ 20 := by
  decide

end CryptoNote
