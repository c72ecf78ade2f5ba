import Qwertycoin.Core.Blockchain.Run

/-!
The windows `getDifficultyForNextBlock` passes to `Currency::nextDifficulty`: the last blocks of the
chain, as many as the next version's rule reads, the genesis block always left out
(`difficultyWindow_eq`). On a chain of the genesis block alone the window is empty; on a chain of
two blocks it holds one. `nextDifficulty` reads the last timestamp of every window and, past the
clif threshold, the last two cumulative difficulties, so both chains lead it to read outside the
vectors (`getDifficultyForNextBlock_reads_outside_window`).
-/

namespace CryptoNote

namespace Blockchain

variable (currency : Currency) (p : Primitives)

/-- The blocks `getDifficultyForNextBlock` reads for a rule over `count` blocks. -/
def difficultyWindow (s : Blockchain) (count : Nat) : List BlockEntry :=
  let offset := s.blocks.length - min s.blocks.length count
  s.blocks.drop (if offset = 0 then 1 else offset)

/-- `getDifficultyForNextBlock` passes the window's timestamps and cumulative difficulties. -/
theorem getDifficultyForNextBlock_eq (s : Blockchain) (now nextBlockTime : UInt64) :
    s.getDifficultyForNextBlock currency p now nextBlockTime =
      let height := UInt32.ofNat s.blocks.length
      let blockMajorVersion := s.getBlockMajorVersionForHeight currency height
      let window := s.difficultyWindow (currency.difficultyBlocksCountByBlockVersion blockMajorVersion)
      currency.nextDifficulty p height blockMajorVersion (window.map fun entry => entry.bl.timestamp)
        (window.map fun entry => entry.cumulativeDifficulty) nextBlockTime (s.mainChainStat now) :=
  rfl

/-- The window is the last `count` blocks, the genesis block never among them. -/
theorem difficultyWindow_eq (s : Blockchain) (count : Nat) :
    s.difficultyWindow count = s.blocks.drop (max 1 (s.blocks.length - count)) := by
  simp only [difficultyWindow]
  congr 1
  split <;> omega

theorem length_difficultyWindow (s : Blockchain) (count : Nat) :
    (s.difficultyWindow count).length = min (s.blocks.length - 1) count := by
  rw [difficultyWindow_eq, List.length_drop]
  omega

/-- On a chain of one block, the window is empty. -/
theorem difficultyWindow_of_single (s : Blockchain) (single : s.blocks.length = 1) (count : Nat) :
    s.difficultyWindow count = [] := by
  rw [← List.length_eq_zero_iff, length_difficultyWindow, single]
  rfl

/-- On a chain of two blocks, the window is the top block, for any rule that reads a block. -/
theorem difficultyWindow_of_pair (s : Blockchain) {genesis top : BlockEntry}
    (pair : s.blocks = [genesis, top]) {count : Nat} (reads : 0 < count) :
    s.difficultyWindow count = [top] := by
  rw [difficultyWindow_eq, pair, List.length_cons, List.length_singleton,
    show max 1 (1 + 1 - count) = 1 by omega]
  rfl

/-- With no fixed difficulty, `getDifficultyForNextBlock` makes `nextDifficulty` read outside its
vectors on a chain of the genesis block alone, where the window is empty and its last timestamp is
read; and on a chain of two blocks when the next block comes more than
`CRYPTONOTE_CLIF_THRESHOLD` after the top one, where the clif branch reads the last two cumulative
difficulties of a window of one. -/
theorem getDifficultyForNextBlock_reads_outside_window (unfixed : currency.fixedDifficulty = 0)
    (s : Blockchain) (now nextBlockTime : UInt64) :
    (s.blocks.length = 1 →
      s.getDifficultyForNextBlock currency p now nextBlockTime = .error .undefinedBehaviour) ∧
    (∀ genesis top, s.blocks = [genesis, top] → top.bl.timestamp ≤ nextBlockTime →
      parameters.CRYPTONOTE_CLIF_THRESHOLD < nextBlockTime - top.bl.timestamp →
      s.getDifficultyForNextBlock currency p now nextBlockTime = .error .undefinedBehaviour) := by
  refine ⟨fun single => ?_, fun genesis top pair later gap => ?_⟩
  · rw [getDifficultyForNextBlock_eq]
    dsimp only
    rw [difficultyWindow_of_single s single]
    exact currency.nextDifficulty_of_empty p unfixed _ _ _ _ _
  · rw [getDifficultyForNextBlock_eq]
    dsimp only
    -- The window is the top block, or nothing for a rule over no block.
    generalize currency.difficultyBlocksCountByBlockVersion _ = count
    by_cases reads : 0 < count
    · rw [difficultyWindow_of_pair s pair reads]
      exact currency.nextDifficulty_clif_of_single p unfixed _ _ _ _ _ later gap _
    · rw [difficultyWindow_eq, show max 1 (s.blocks.length - count) = s.blocks.length by
        rw [pair]; simp only [List.length_cons]; omega, List.drop_length]
      exact currency.nextDifficulty_of_empty p unfixed _ _ _ _ _

/-- A block dated `timestamp`, as a chain holds it. -/
def datedEntry (timestamp : UInt64) : BlockEntry :=
  ⟨{ majorVersion := 1, minorVersion := 0, nonce := 0, timestamp := timestamp,
     previousBlockHash := NULL_HASH, parentBlock := ⟨1, 0, NULL_HASH, 0, [], emptyTransaction, []⟩,
     baseTransaction := emptyTransaction, transactionHashes := [] }, 0, 0, 1, 0, []⟩

theorem getDifficultyForNextBlock_reads_outside_window_on_default_currency :
    getDifficultyForNextBlock defaultCurrency acceptingPrimitives
        { initial noCheckpoints with blocks := [datedEntry 0] } 0 0 = .error .undefinedBehaviour ∧
      getDifficultyForNextBlock defaultCurrency acceptingPrimitives
        { initial noCheckpoints with blocks := [datedEntry 0, datedEntry 0] } 0 7200 =
        .error .undefinedBehaviour :=
  ⟨(getDifficultyForNextBlock_reads_outside_window defaultCurrency acceptingPrimitives rfl
      { initial noCheckpoints with blocks := [datedEntry 0] } 0 0).1 rfl,
    (getDifficultyForNextBlock_reads_outside_window defaultCurrency acceptingPrimitives rfl
      { initial noCheckpoints with blocks := [datedEntry 0, datedEntry 0] } 0 7200).2
      (datedEntry 0) (datedEntry 0) rfl (by decide) (by decide)⟩

end Blockchain

end CryptoNote
