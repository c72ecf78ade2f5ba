import Qwertycoin.Lib.StateRun
import Qwertycoin.Core.Blockchain.PushBlock

/-!
Runs of the main chain on its own: the calls a node makes on its `Blockchain` while its memory pool
holds nothing, the state a fresh one starts from, and the states reachable from it by calls that
return. The chain together with a pool that transactions pass through is `Node`.
-/

namespace CryptoNote

namespace Blockchain

variable (currency : Currency) (p : Primitives)

/-- A call on the main chain: `pushBlock(blockData, bvc)`, which takes the block's transactions
from the memory pool, `popBlock` and `rollbackBlockchainTo`. -/
inductive Call where
  | pushBlock (now : UInt64) (blockData : Block)
  | popBlock
  | rollbackBlockchainTo (height : UInt32)

/-- A call, its result dropped. With the pool empty, `loadTransactions` finds a block's
transactions only when it lists none: any other block is refused before it is checked, and the
chain is left as it was. The blocks pushed so hold their coinbase alone, so what `popBlock` gives
back to the pool is empty and the pool stays so. -/
def Call.run : Call → BlockchainM Unit
  | .pushBlock now blockData =>
    if blockData.transactionHashes.isEmpty then
      discard (Blockchain.pushBlock currency p now blockData [])
    else pure ()
  | .popBlock => discard (Blockchain.popBlock p)
  | .rollbackBlockchainTo height => Blockchain.rollbackBlockchainTo p height

/-- A detector for `targetVersion` that has seen no vote. -/
def freshDetector (targetVersion : UInt8) : UpgradeDetector := ⟨targetVersion, UNDEF_HEIGHT⟩

/-- A `Blockchain` before its genesis block: every index empty, as its constructor leaves it. -/
def initial (checkpoints : Checkpoints) : Blockchain where
  blocks := []
  transactionMap := fun _ => none
  spentKeys := fun _ => false
  outputs := fun _ => []
  multisignatureOutputs := fun _ => []
  alternativeChains := []
  checkpoints := checkpoints
  upgradeDetectorV2 := freshDetector 2
  upgradeDetectorV3 := freshDetector 3
  upgradeDetectorV4 := freshDetector 4
  upgradeDetectorV5 := freshDetector 5
  upgradeDetectorV6 := freshDetector 6
  currentBlockCumulSzLimit := 0

/-- One call that returns. -/
def Step (s s' : Blockchain) : Prop := EStateM.Returns (Call.run currency p) s s'

/-- The states a fresh chain reaches by calls that return; the first block pushed is the genesis
block. -/
def Reachable (checkpoints : Checkpoints) (s : Blockchain) : Prop :=
  Relation.ReflTransGen (Step currency p) (initial checkpoints) s

/-- Make the calls in order, each chosen from the state it is made in (as a miner builds on the tip
it sees); `none` when one throws. -/
def runCalls (calls : List (Blockchain → Call)) (s : Blockchain) : Option Blockchain :=
  EStateM.runCalls (Call.run currency p) calls s

/-- A run from a fresh chain that returns in a state where `holds` is true exhibits a reachable
state where it is. -/
theorem exists_reachable_of_runCalls (checkpoints : Checkpoints) (calls : List (Blockchain → Call))
    (holds : Blockchain → Bool)
    (run : (runCalls currency p calls (initial checkpoints)).map holds = some true) :
    ∃ s, Reachable currency p checkpoints s ∧ holds s = true :=
  EStateM.exists_reflTransGen_of_runCalls (Call.run currency p) (initial checkpoints) calls holds run

section FixedDifficultyNode

/-! ### A fixed-difficulty node

The concrete runs of this development are made on a node started with `--fixed-difficulty 1`,
whose blocks need no difficulty window, with primitives that accept every signature and proof of
work (at difficulty one every hash passes) and whose ids tell the blocks and transactions of the
runs apart. A miner builds each block on the tip it sees, its coinbase paying exactly the reward
and the fees.
-/

variable (s : Blockchain)

/-- The default currency with `fix_difficulty(1)`, as `--fixed-difficulty 1` configures it. -/
def fixedDifficultyCurrency : Currency := { defaultCurrency with fixedDifficulty := 1 }

/-- An id made of one repeated byte. -/
def hashOf (n : Nat) : Hash := ⟨Vector.replicate 32 (UInt8.ofNat n)⟩

/-- Primitives whose checks accept and whose ids come from a block's nonce and a transaction's
unlock time and input count. -/
def acceptingPrimitives : Primitives where
  getObjectHash tx := hashOf (4 * tx.unlockTime.toNat + tx.inputs.length)
  getPrefixHash tx := hashOf (4 * tx.unlockTime.toNat + tx.inputs.length)
  getBlockHash b := hashOf (b.nonce.toNat + 1)
  checkRingSignature _ _ _ _ := true
  checkSignature _ _ _ := true
  keyImageInDomain _ := true
  checkProofOfWork _ _ := true
  binarySize _ := 100
  parentBlockSize _ := some 100
  hasMergeMiningTag _ := false
  transactionTtl _ := 0
  isFusionTransaction _ _ _ := false
  poissonCheckFails _ _ := false
  nextDifficultyV3 _ _ := .ok 1
  nextDifficultyV5 _ _ _ := .ok 1
  nextDifficultyV6 _ _ _ _ := .ok 1
  getClifDifficulty _ _ _ _ _ := .ok 1

/-- No checkpoints: no height is in the checkpoint zone. -/
def noCheckpoints : Checkpoints := ⟨[], List.nodup_nil⟩

/-- The miner's key. -/
def minerKey : PublicKey := ⟨Vector.replicate 32 9⟩

/-- A coinbase for `height` paying `amount` to the miner. -/
def coinbaseFor (height : Nat) (amount : UInt64) : Transaction where
  version := 1
  unlockTime := UInt64.ofNat (height + fixedDifficultyCurrency.minedMoneyUnlockWindow)
  inputs := [.base ⟨UInt32.ofNat height⟩]
  outputs := [⟨amount, .key ⟨minerKey⟩⟩]
  extra := []
  signatures := []

/-- The transaction with no inputs and no outputs. -/
def emptyTransaction : Transaction := ⟨⟨1, 0, [], [], []⟩, []⟩

/-- The reward `s` pays the next block with `transactions` (each of
`acceptingPrimitives.binarySize` bytes) for a given block target. -/
def rewardFor (transactions : List Transaction) (blockTarget : UInt64) : UInt64 :=
  let height := s.blocks.length
  let majorVersion := s.getBlockMajorVersionForHeight fixedDifficultyCurrency (UInt32.ofNat height)
  let fee := transactions.foldl (fun sum tx => sum + (getInputAmount tx - getOutputAmount tx)) 0
  let size := acceptingPrimitives.binarySize emptyTransaction * (transactions.length + 1)
  let alreadyGeneratedCoins := (s.blocks.getLast?.map BlockEntry.alreadyGeneratedCoins).getD 0
  let median := Common.medianValue (s.getLastNBlocksSizes fixedDifficultyCurrency.rewardBlocksWindow)
  ((fixedDifficultyCurrency.getBlockReward majorVersion median size alreadyGeneratedCoins fee
    height blockTarget).map Prod.fst).getD 0

/-- The block target `validate_miner_transaction` reads for the next block dated `timestamp`: the
`uint64_t` difference to the top block's timestamp from `UPGRADE_HEIGHT_REWARD_SCHEME`. -/
def nextBlockTarget (timestamp : UInt64) : UInt64 :=
  if s.blocks.length ≥ parameters.UPGRADE_HEIGHT_REWARD_SCHEME then
    timestamp - (s.blocks.getLast?.map fun entry => entry.bl.timestamp).getD 0
  else parameters.DIFFICULTY_TARGET

/-- The block a miner builds on `s`, dated `timestamp`, with `transactions`: the version the chain
expects, its coinbase paying the reward the chain asks for. -/
def minedBlock (timestamp : UInt64) (transactions : List Transaction) : Block :=
  let height := s.blocks.length
  { majorVersion := s.getBlockMajorVersionForHeight fixedDifficultyCurrency (UInt32.ofNat height),
    minorVersion := 0, nonce := UInt32.ofNat height, timestamp := timestamp,
    previousBlockHash := s.getTailId acceptingPrimitives,
    parentBlock := ⟨1, 0, NULL_HASH, 0, [], emptyTransaction, []⟩,
    baseTransaction := coinbaseFor height (s.rewardFor transactions (s.nextBlockTarget timestamp)),
    transactionHashes := transactions.map acceptingPrimitives.getObjectHash }

/-- Mine one block on the current tip, at `now`, with no transactions but its coinbase. -/
def mine (now : UInt64) (s : Blockchain) : Call :=
  .pushBlock now (minedBlock s now [])

end FixedDifficultyNode

end Blockchain

end CryptoNote
