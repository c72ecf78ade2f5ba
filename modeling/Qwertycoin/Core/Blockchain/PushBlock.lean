import Qwertycoin.Core.FormatUtils
import Qwertycoin.Core.Difficulty
import Qwertycoin.Core.Blockchain.Upgrade
import Qwertycoin.Core.Blockchain.Transactions
import Qwertycoin.Core.Blockchain.Inputs

/-!
`Blockchain::pushBlock(blockData, transactions, bvc)` with the checks it makes before and after
indexing the block's transactions, and the calls that take blocks off the main chain:
`removeLastBlock`, `popBlock` and `rollbackBlockchainTo`.

`now` stands for `time(nullptr)`, which both the timestamp check and the difficulty statistics read.
-/

namespace CryptoNote

/-- The length of each statistics period, in seconds. -/
def StatPeriod.timeWindow : StatPeriod → UInt64
  | .hour => 3600
  | .day => 3600 * 24
  | .week => 3600 * 24 * 7
  | .month => 3600 * 24 * 30
  | .halfyear => 3600 * 24 * 365
  | .year => 3600 * 24 * 365

namespace Blockchain

variable (currency : Currency) (p : Primitives)

section Checks

variable (s : Blockchain)

/-- `checkBlockVersion`: the block has the version its coinbase height calls for, and a version-two
block's parent block has version one. -/
def checkBlockVersion (b : Block) : Bool :=
  let expectedBlockVersion := s.getBlockMajorVersionForHeight currency (CryptoNote.getBlockHeight b)
  b.majorVersion = expectedBlockVersion ∧ ¬ (b.majorVersion = 2 ∧ b.parentBlock.majorVersion > 1)

/-- `checkParentBlockSize`: a merge-mined block of version two or three has a parent block that
serializes to at most two kilobytes. -/
def checkParentBlockSize (b : Block) : Bool :=
  if b.majorVersion = 2 ∨ b.majorVersion = 3 then
    match p.parentBlockSize b with
    | none => false
    | some parentBlockSize => parentBlockSize ≤ 2 * 1024
  else true

/-- `check_block_timestamp(timestamps, b)`: with a full window, the block is not older than the
median of the window. -/
def checkBlockTimestamp (timestamps : List UInt64) (b : Block) : Bool :=
  if timestamps.length < currency.timestampCheckWindow b.majorVersion then true
  else
    let medianTs := UInt64.ofNat (Common.medianValue timestamps)
    ¬ b.timestamp < medianTs

/-- The timestamps `check_block_timestamp_main` collects: those of the last `window` blocks. -/
def lastTimestamps (window : Nat) : List UInt64 :=
  let offset := if s.blocks.length ≤ window then 0 else s.blocks.length - window
  (s.blocks.drop offset).map fun entry => entry.bl.timestamp

/-- `check_block_timestamp_main`: not beyond the future time limit, and not older than the median of
the last blocks. -/
def checkBlockTimestampMain (now : UInt64) (b : Block) : Bool :=
  if b.timestamp > now + currency.blockFutureTimeLimit b.majorVersion then false
  else checkBlockTimestamp currency (s.lastTimestamps (currency.timestampCheckWindow b.majorVersion)) b

/-- The loop of the statistics callback: the solve times of the blocks from `height` down, while the
block below is not older than `stopTime` and the height is above `minHeight`. -/
def statSolveTimes (minHeight : Nat) (stopTime : UInt64) : (height : Nat) → Except Fault (List UInt64)
  | 0 => pure []
  | height + 1 => do
    if height + 1 ≤ minHeight then return []
    let below ← s.getBlockTimestamp height
    if below < stopTime then return []
    let top ← s.getBlockTimestamp (height + 1)
    let rest ← statSolveTimes minHeight stopTime height
    return (top - below) :: rest

/-- The `lazy_stat_cb` of `getDifficultyForNextBlock`: the mean solve time over the period, zero
when the block at `min_height` already lies inside it. Block `min_height` is read unconditionally. -/
def mainChainStat (now : UInt64) (period : StatPeriod) : Except Fault UInt64 := do
  let minHeight := parameters.UPGRADE_HEIGHT_V6 + parameters.EXPECTED_NUMBER_OF_BLOCKS_PER_DAY / 24
  let stopTime := now - period.timeWindow
  if (← s.getBlockTimestamp minHeight) ≥ stopTime then return 0
  let some top := s.blocks.getLast? | throw .undefinedBehaviour
  let solveTimes ← s.statSolveTimes minHeight stopTime top.height.toNat
  return UInt64.ofNat (Common.meanValue solveTimes)

/-- `getDifficultyForNextBlock(nextBlockTime)`: the rule of the next height's version over the last
`difficultyBlocksCountByBlockVersion` blocks, the genesis block always left out. -/
def getDifficultyForNextBlock (now nextBlockTime : UInt64) : Except Fault UInt64 :=
  let height := UInt32.ofNat s.blocks.length
  let blockMajorVersion := s.getBlockMajorVersionForHeight currency height
  let count := currency.difficultyBlocksCountByBlockVersion blockMajorVersion
  let offset := s.blocks.length - min s.blocks.length count
  let window := s.blocks.drop (if offset = 0 then 1 else offset)
  currency.nextDifficulty p height blockMajorVersion (window.map fun entry => entry.bl.timestamp)
    (window.map fun entry => entry.cumulativeDifficulty) nextBlockTime (s.mainChainStat now)

/-- `prevalidate_miner_transaction`: a coinbase with one coinbase input for this height, no
signatures, unlocked after `minedMoneyUnlockWindow` blocks, and outputs that sum without wrapping. -/
def prevalidateMinerTransaction (b : Block) (height : UInt32) : Bool :=
  match b.baseTransaction.inputs with
  | [.base input] =>
    b.baseTransaction.signatures.isEmpty ∧ input.blockIndex = height
      ∧ b.baseTransaction.unlockTime = UInt64.ofNat (height.toNat + currency.minedMoneyUnlockWindow)
      ∧ checkOutsOverflow b.baseTransaction
  | _ => false

/-- `get_last_n_blocks_sizes(sz, count)`: the cumulative sizes of the last `count` blocks. -/
def getLastNBlocksSizes (count : Nat) : List UInt64 :=
  (s.blocks.drop (s.blocks.length - count)).map fun entry => entry.blockCumulativeSize

/-- The sum of the coinbase outputs, in `uint64_t`. -/
def minerReward (b : Block) : UInt64 :=
  b.baseTransaction.outputs.foldl (fun sum output => sum + output.amount) 0

/--
`validate_miner_transaction`: the coinbase pays exactly the block reward plus the fees, for the
median size of the last `rewardBlocksWindow` blocks. From `UPGRADE_HEIGHT_REWARD_SCHEME` the reward
reads the time since the previous block, a `uint64_t` difference. On success, the reward and the
emission change.
-/
def validateMinerTransaction (b : Block) (height : UInt32) (cumulativeBlockSize : Nat)
    (alreadyGeneratedCoins fee : UInt64) : Except Fault (Option (UInt64 × UInt64)) := do
  let blocksSizeMedian := Common.medianValue (s.getLastNBlocksSizes currency.rewardBlocksWindow)
  let blockTarget ←
    if height.toNat ≥ parameters.UPGRADE_HEIGHT_REWARD_SCHEME then do
      -- An unknown previous id leaves the height at zero.
      let previousBlockHeight := (s.getBlockHeight p b.previousBlockHash).getD 0
      pure (b.timestamp - (← s.getBlockTimestamp previousBlockHeight))
    else pure parameters.DIFFICULTY_TARGET
  let some (reward, emissionChange) :=
      currency.getBlockReward (s.getBlockMajorVersionForHeight currency height) blocksSizeMedian
        cumulativeBlockSize alreadyGeneratedCoins fee height.toNat blockTarget
    | return none
  if minerReward b ≠ reward then return none
  return some (reward, emissionChange)

/-- `checkCumulativeBlockSize`: the block is within the size limit of its height. -/
def checkCumulativeBlockSize (cumulativeBlockSize height : Nat) : Bool :=
  cumulativeBlockSize ≤ currency.maxBlockCumulativeSize height

end Checks

/-- `update_next_cumulative_size_limit`: twice the median size of the last `rewardBlocksWindow`
blocks, at least twice the next version's full reward zone, a `uint64_t` product. -/
def updateNextCumulativeSizeLimit : BlockchainM Unit :=
  modify fun s =>
    let nextBlockMajorVersion :=
      s.getBlockMajorVersionForHeight currency (UInt32.ofNat s.blocks.length)
    let nextBlockGrantedFullRewardZone :=
      currency.blockGrantedFullRewardZoneByBlockVersion nextBlockMajorVersion
    let median := Common.medianValue (s.getLastNBlocksSizes currency.rewardBlocksWindow)
    { s with
      currentBlockCumulSzLimit := UInt64.ofNat (max median nextBlockGrantedFullRewardZone) * 2 }

/-- `pushBlock(BlockEntry&)`: append the entry; its id joins the block index with it. -/
def pushBlockEntry (block : BlockEntry) : BlockchainM Unit :=
  modify fun s => { s with blocks := s.blocks ++ [block] }

/--
The transaction loop of `pushBlock`. `block` holds the entries indexed so far, the last one at
`transactionIndex`; the result is the entry with the cumulative size and the fee sum, or `none` once
a transaction's inputs are refused, after the block's earlier transactions are popped again.
The result of `pushTransaction` is not looked at.
-/
def pushBlockTransactions (blockData : Block) (minerTransactionHash : Hash) :
    (i : Nat) → (block : BlockEntry) → (transactionIndex : TransactionIndex) →
      (cumulativeBlockSize : Nat) → (feeSummary : UInt64) → List Transaction →
      BlockchainM (Option (BlockEntry × Nat × UInt64))
  | _, block, _, cumulativeBlockSize, feeSummary, [] =>
    pure (some (block, cumulativeBlockSize, feeSummary))
  | i, block, transactionIndex, cumulativeBlockSize, feeSummary, tx :: rest => do
    let some txId := blockData.transactionHashes[i]? | throw .undefinedBehaviour
    let blobSize := p.binarySize tx
    let fee := getInputAmount tx - getOutputAmount tx
    let s ← get
    if !(← BlockchainM.ofExcept (s.checkTransactionInputs currency p tx)).1 then
      -- The refused transaction was never indexed: pop the others, coinbase last.
      popTransactions block minerTransactionHash
      return none
    let transactionIndex := { transactionIndex with transaction := transactionIndex.transaction + 1 }
    let grown := { block with transactions := block.transactions ++ [⟨tx, []⟩] }
    let (_, block) ← pushTransaction grown txId transactionIndex
    pushBlockTransactions blockData minerTransactionHash (i + 1) block transactionIndex
      (cumulativeBlockSize + blobSize) (feeSummary + fee) rest

/--
`pushBlock(blockData, transactions, bvc)`: add a block on top of the main chain.

The header is checked first (unknown id, version, parent size, no merge-mining tag from version six,
previous id, timestamp, non-zero difficulty, then the checkpoint inside the checkpoint zone and the
proof of work outside it) and the coinbase prevalidated. The coinbase and the transactions are then
indexed one by one, each after its inputs are checked. A refused input and a wrong coinbase amount
pop the indexed transactions again; a block over the size limit returns with them still indexed.
-/
def pushBlock (now : UInt64) (blockData : Block) (transactions : List Transaction) :
    BlockchainM Bool := do
  let s ← get
  let blockHash := p.getBlockHash blockData
  if s.hasBlock p blockHash then return false
  if !s.checkBlockVersion currency blockData then return false
  if !checkParentBlockSize p blockData then return false
  if p.hasMergeMiningTag blockData.baseTransaction.extra ∧ blockData.majorVersion ≥ 6 then
    return false
  if blockData.previousBlockHash ≠ s.getTailId p then return false
  if !s.checkBlockTimestampMain currency now blockData then return false
  let currentDifficulty ←
    BlockchainM.ofExcept (s.getDifficultyForNextBlock currency p now blockData.timestamp)
  if currentDifficulty = 0 then return false
  let height := UInt32.ofNat s.blocks.length
  if s.isInCheckpointZone s.getCurrentBlockchainHeight then
    if !s.checkpoints.checkBlock height blockHash then return false
  else if !p.checkProofOfWork blockData currentDifficulty then return false
  if !prevalidateMinerTransaction currency blockData height then return false
  let minerTransactionHash := p.getObjectHash blockData.baseTransaction
  let block : BlockEntry := ⟨blockData, 0, 0, 0, 0, [⟨blockData.baseTransaction, []⟩]⟩
  let (_, block) ← pushTransaction block minerTransactionHash ⟨height, 0⟩
  let some (block, cumulativeBlockSize, feeSummary) ←
      pushBlockTransactions currency p blockData minerTransactionHash 0 block ⟨height, 0⟩
        (p.binarySize blockData.baseTransaction) 0 transactions
    | return false
  if !checkCumulativeBlockSize currency cumulativeBlockSize s.blocks.length then return false
  let alreadyGeneratedCoins := (s.blocks.getLast?.map BlockEntry.alreadyGeneratedCoins).getD 0
  let some (_, emissionChange) ← BlockchainM.ofExcept
      (s.validateMinerTransaction currency p blockData height cumulativeBlockSize
        alreadyGeneratedCoins feeSummary)
    | do popTransactions block minerTransactionHash; return false
  let cumulativeDifficulty :=
    currentDifficulty + (s.blocks.getLast?.map BlockEntry.cumulativeDifficulty).getD 0
  pushBlockEntry { block with
    height := height, blockCumulativeSize := UInt64.ofNat cumulativeBlockSize,
    cumulativeDifficulty := cumulativeDifficulty,
    alreadyGeneratedCoins := alreadyGeneratedCoins + emissionChange }
  detectorsBlockPushed currency
  updateNextCumulativeSizeLimit currency
  return true

/-- `removeLastBlock`: pop the top block's transactions, then the block. An empty chain is left
alone. -/
def removeLastBlock : BlockchainM Unit := do
  let some top := (← get).blocks.getLast? | return ()
  popTransactions top (p.getObjectHash top.bl.baseTransaction)
  modify fun s => { s with blocks := s.blocks.dropLast }

/-- `popBlock`: remove the top block and tell the detectors. The transactions it returns, all but
the coinbase, are those the source saves to the memory pool before the removal. -/
def popBlock : BlockchainM (List Transaction) := do
  let some top := (← get).blocks.getLast? | return []
  removeLastBlock p
  modify detectorsBlockPopped
  return top.transactions.tail.map TransactionEntry.tx

/-- The loop of `rollbackBlockchainTo`, with one round of fuel per block it may remove. -/
def rollbackLoop (height : UInt32) : (fuel : Nat) → BlockchainM Unit
  | 0 => pure ()
  | fuel + 1 => do
    -- `height + 1` is a `uint32_t` sum.
    if (height + 1).toNat < (← get).blocks.length then
      removeLastBlock p
      rollbackLoop height fuel

/-- `rollbackBlockchainTo(height)`: remove blocks until the top is at `height`. The detectors are
not told. -/
def rollbackBlockchainTo (height : UInt32) : BlockchainM Unit := do
  rollbackLoop p height (← get).blocks.length

end Blockchain

end CryptoNote
