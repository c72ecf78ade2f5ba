import Qwertycoin.Core.Blockchain.Alternative
import Qwertycoin.Core.Blockchain.Run

/-!
Whether an alternative block is judged as the main chain would judge it.

For a block whose parent is a main-chain block and whose branch is empty, `handle_alternative_block`
tops the empty vector up with `complete_timestamps_vector`, whose `do ... while` stops before the
genesis block. With the parent at height `window - 1` it collects `window - 1` timestamps, too few
for the median test, so every timestamp passes; on the chain cut after the parent,
`check_block_timestamp_main` takes all `window` timestamps and refuses a block older than their
median.
-/

namespace CryptoNote

namespace Blockchain

variable (currency : Currency) (s : Blockchain)

/-- A stored height has a timestamp. -/
theorem getBlockTimestamp_of_lt {height : Nat} (stored : height < s.blocks.length) :
    ∃ timestamp, s.getBlockTimestamp height = .ok timestamp := by
  unfold getBlockTimestamp
  rw [List.getElem?_eq_getElem stored]
  exact ⟨_, rfl⟩

/-- From a stored height above `stopOffset`, the loop collects one timestamp per height down to
`stopOffset + 1`. -/
theorem timestampsDownFrom_length (stopOffset : Nat) :
    ∀ height, stopOffset < height → height < s.blocks.length →
      ∃ timestamps, s.timestampsDownFrom stopOffset height = .ok timestamps ∧
        timestamps.length = height - stopOffset
  | 0, above, _ => absurd above (Nat.not_lt_zero _)
  | height + 1, above, stored => by
    obtain ⟨timestamp, read⟩ := s.getBlockTimestamp_of_lt stored
    by_cases last : height = stopOffset
    · -- The loop stops after this height.
      subst last
      refine ⟨[timestamp], ?_, by simp⟩
      simp [timestampsDownFrom, read]
    · -- The loop goes on below.
      obtain ⟨rest, collected, counted⟩ :=
        timestampsDownFrom_length stopOffset height (by omega) (by omega)
      refine ⟨timestamp :: rest, ?_, by simp [counted]; omega⟩
      simp [timestampsDownFrom, read, last, collected]
      rfl

/-- With no branch and the parent at a height below the window, the alternative path collects one
timestamp fewer than the parent's height plus one: the genesis block is left out. -/
theorem alternativeTimestamps_without_branch (blockMajorVersion : UInt8) (mainPrevHeight : Nat)
    (window : currency.timestampCheckWindow blockMajorVersion = mainPrevHeight + 1)
    (positive : 0 < mainPrevHeight) (stored : mainPrevHeight < s.blocks.length) :
    ∃ timestamps, s.alternativeTimestamps currency blockMajorVersion [] mainPrevHeight =
      .ok timestamps ∧ timestamps.length = mainPrevHeight := by
  -- The empty vector lacks the whole window, so the loop runs down to height one.
  obtain ⟨collected, run, counted⟩ :=
    s.timestampsDownFrom_length 0 mainPrevHeight positive stored
  refine ⟨collected, ?_, by simp [counted]⟩
  simp [alternativeTimestamps, completeTimestampsVector, window, Nat.not_le.mpr stored, run]

/-- A chain of exactly `window` blocks makes `check_block_timestamp_main` compare with the median of
all their timestamps. -/
theorem checkBlockTimestampMain_of_full_window (now : UInt64) (b : Block)
    (full : s.blocks.length = currency.timestampCheckWindow b.majorVersion)
    (early : b.timestamp < UInt64.ofNat (Common.medianValue (s.blocks.map fun entry =>
      entry.bl.timestamp))) :
    s.checkBlockTimestampMain currency now b = false := by
  unfold checkBlockTimestampMain checkBlockTimestamp lastTimestamps
  split
  · rfl
  · simp [full, early]

/-- The timestamp test of `handle_alternative_block` and that of the main chain disagree: for a
block with no branch whose parent is the main-chain block at height `window - 1`, the alternative
test accepts it whatever its timestamp, while `check_block_timestamp_main` on the main chain cut
after the parent refuses it, at every clock reading, when it is older than the median of the
window. -/
theorem alternative_timestamp_check_accepts_block_main_refuses (b : Block) (mainPrevHeight : Nat)
    (window : currency.timestampCheckWindow b.majorVersion = mainPrevHeight + 1)
    (positive : 0 < mainPrevHeight) (stored : mainPrevHeight < s.blocks.length)
    (early : b.timestamp < UInt64.ofNat (Common.medianValue
      ((s.blocks.take (mainPrevHeight + 1)).map fun entry => entry.bl.timestamp))) :
    (∃ timestamps, s.alternativeTimestamps currency b.majorVersion [] mainPrevHeight =
        .ok timestamps ∧ checkBlockTimestamp currency timestamps b = true) ∧
    ∀ now, { s with blocks := s.blocks.take (mainPrevHeight + 1) }.checkBlockTimestampMain
      currency now b = false := by
  constructor
  · -- Fewer timestamps than the window pass without a median.
    obtain ⟨timestamps, run, counted⟩ :=
      s.alternativeTimestamps_without_branch currency b.majorVersion mainPrevHeight window positive
        stored
    refine ⟨timestamps, run, ?_⟩
    simp [checkBlockTimestamp, counted, window]
  · intro now
    have full : (s.blocks.take (mainPrevHeight + 1)).length =
        currency.timestampCheckWindow b.majorVersion := by
      simp [window]
      omega
    exact checkBlockTimestampMain_of_full_window currency
      { s with blocks := s.blocks.take (mainPrevHeight + 1) } now b full early

/-- A stored block dated `timestamp`, of version one. -/
def entryAt (timestamp : UInt64) : BlockEntry :=
  ⟨{ majorVersion := 1, minorVersion := 0, nonce := 0, timestamp := timestamp,
      previousBlockHash := NULL_HASH, parentBlock := ⟨1, 0, NULL_HASH, 0, [], emptyTransaction, []⟩,
      baseTransaction := emptyTransaction, transactionHashes := [] }, 0, 0, 0, 0, []⟩

/-- Sixty-one stored blocks dated one thousand. -/
def thousandSecondChain : Blockchain :=
  { initial noCheckpoints with blocks := List.replicate 61 (entryAt 1000) }

/-- A version-one block dated zero whose parent is the block at height fifty-nine of
`thousandSecondChain`: the alternative test accepts it, and the main test on the first sixty blocks
refuses it. -/
theorem alternative_timestamp_check_accepts_block_main_refuses_at_sixty :
    (∃ timestamps, thousandSecondChain.alternativeTimestamps defaultCurrency 1 [] 59 =
        .ok timestamps ∧ checkBlockTimestamp defaultCurrency timestamps (entryAt 0).bl = true) ∧
    ∀ now, checkBlockTimestampMain defaultCurrency
      { thousandSecondChain with blocks := thousandSecondChain.blocks.take 60 } now
      (entryAt 0).bl = false :=
  alternative_timestamp_check_accepts_block_main_refuses defaultCurrency thousandSecondChain
    (entryAt 0).bl 59 rfl (by decide) (by decide) (by decide)

end Blockchain

end CryptoNote
