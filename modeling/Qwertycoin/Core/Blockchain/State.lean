import Mathlib
import Qwertycoin.Core.Reward

/-!
The main-chain store of `Blockchain.cpp` and the transaction bookkeeping that keeps its indexes.

A call that throws or reads outside a vector ends in `EStateM.Result.error`, carrying the state the
object is left in at that point, as a C++ exception leaves it.
-/

namespace CryptoNote

/-- Why a call stopped before returning. -/
inductive Fault where
  /-- `std::out_of_range`, thrown by `unordered_map::at`. -/
  | outOfRange
  /-- `boost::bad_get`, thrown by `boost::get` on the wrong alternative. -/
  | badGet
  /-- A read outside a vector: undefined behaviour, from which nothing is promised. -/
  | undefinedBehaviour
  /-- `std::runtime_error`, thrown where the code gives up on a state it cannot restore. -/
  | runtimeError
  /-- A loop whose condition stays true: the call never returns. -/
  | nonTermination
  /-- The bound the model puts on nested chain switches was reached; not a behaviour of the code. -/
  | outOfFuel
deriving DecidableEq, Repr

/-- The periods the clock-driven difficulty statistics are asked for. -/
inductive StatPeriod where
  | hour | day | week | month | halfyear | year
deriving DecidableEq, Repr

/--
What the blockchain calls but does not compute itself: the hashes, the signature and curve checks,
the slow proof-of-work hash, serialized sizes, the extra-field parser and the difficulty rules of
`Currency` that compute in floating point. They are parameters of every operation.
-/
structure Primitives where
  /-- `getObjectHash(Transaction)`, the transaction id. -/
  getObjectHash : Transaction → Hash
  /-- `getObjectHash(TransactionPrefix)`, the hash signatures sign. -/
  getPrefixHash : Transaction → Hash
  /-- `get_block_hash`, the block id. -/
  getBlockHash : Block → Hash
  /-- `Crypto::check_ring_signature`. -/
  checkRingSignature : Hash → KeyImage → List PublicKey → List Signature → Bool
  /-- `Crypto::check_signature`. -/
  checkSignature : Hash → PublicKey → Signature → Bool
  /-- `scalarmultKey(keyImage, L) == I`, the key image lies in the prime-order subgroup. -/
  keyImageInDomain : KeyImage → Bool
  /-- `Currency::checkProofOfWork` at a difficulty. -/
  checkProofOfWork : Block → UInt64 → Bool
  /-- `getObjectBinarySize`, the serialized size of a transaction. -/
  binarySize : Transaction → Nat
  /-- The serialized size of a block's parent block, `none` when it does not serialize. -/
  parentBlockSize : Block → Option Nat
  /-- `getMergeMiningTagFromExtra` finds a merge-mining tag. -/
  hasMergeMiningTag : List UInt8 → Bool
  /-- The time to live `parseTransactionExtra` finds in an extra, zero when it has none. -/
  transactionTtl : List UInt8 → UInt64
  /-- `Currency::isFusionTransaction(transaction, size, height)`, which decomposes amounts. -/
  isFusionTransaction : Transaction → UInt64 → UInt32 → Bool
  /-- `calc_poisson_ln(lam, k) < POISSON_LOG_P_REJECT`, in floating point, for `lam` the given
  seconds over `DIFFICULTY_TARGET`: one depth of a chain switch's Poisson check fails. -/
  poissonCheckFails : UInt64 → UInt64 → Bool
  /-- `Currency::nextDifficultyV3`, the LWMA rule, computed in floating point. -/
  nextDifficultyV3 : List UInt64 → List UInt64 → Except Fault UInt64
  /-- `Currency::nextDifficultyV5(version, timestamps, cumulativeDifficulties)`, in floating
  point. -/
  nextDifficultyV5 : UInt8 → List UInt64 → List UInt64 → Except Fault UInt64
  /-- `Currency::nextDifficultyV6(version, timestamps, cumulativeDifficulties, height)`, in
  floating point. -/
  nextDifficultyV6 : UInt8 → List UInt64 → List UInt64 → UInt32 → Except Fault UInt64
  /-- `Currency::getClifDifficulty(height, version, lastDifficulty, solveTime, lazy_stat_cb)`,
  the fallback after a long gap, which may ask the clock-driven statistics. -/
  getClifDifficulty : UInt32 → UInt8 → UInt64 → UInt64 → (StatPeriod → Except Fault UInt64) →
    Except Fault UInt64

/-- The checkpoint table, a `std::map` from height to block id: no height twice. -/
structure Checkpoints where
  points : List (UInt32 × Hash)
  distinct : (points.map Prod.fst).Nodup

namespace Checkpoints

/-- `is_in_checkpoint_zone`: the height is at or below the last checkpoint. -/
def isInCheckpointZone (checkpoints : Checkpoints) (height : UInt32) : Bool :=
  checkpoints.points.any fun point => height ≤ point.1

/-- `check_block`: a height with a checkpoint must carry the checkpoint's id. -/
def checkBlock (checkpoints : Checkpoints) (height : UInt32) (h : Hash) : Bool :=
  match checkpoints.points.lookup height with
  | some expected => expected == h
  | none => true

/-- Whether `check_block` found a checkpoint at the height (its `is_a_checkpoint`). -/
def isCheckpoint (checkpoints : Checkpoints) (height : UInt32) : Bool :=
  (checkpoints.points.lookup height).isSome

end Checkpoints

/-- One `BasicUpgradeDetector`: its target version and the height at which voting completed. -/
structure UpgradeDetector where
  targetVersion : UInt8
  votingCompleteHeight : UInt32
deriving DecidableEq, Repr

/-- `UpgradeDetectorBase::UNDEF_HEIGHT`. -/
def UNDEF_HEIGHT : UInt32 := 0xFFFFFFFF

/--
The state of a `Blockchain` the consensus code reads and writes.

The maps are total functions: an absent key reads as `none`, `false` or the empty list, which the
code never tells apart from an entry erased when it became empty. The alternative blocks, which the
code walks entry by entry, are an association list from id to entry. The block index of the source
is not stored: it is always the list of the stored blocks' ids (`blockIds`).
-/
structure Blockchain where
  blocks : List BlockEntry
  transactionMap : Hash → Option TransactionIndex
  spentKeys : KeyImage → Bool
  outputs : UInt64 → List (TransactionIndex × UInt16)
  multisignatureOutputs : UInt64 → List MultisignatureOutputUsage
  alternativeChains : List (Hash × BlockEntry)
  checkpoints : Checkpoints
  upgradeDetectorV2 : UpgradeDetector
  upgradeDetectorV3 : UpgradeDetector
  upgradeDetectorV4 : UpgradeDetector
  upgradeDetectorV5 : UpgradeDetector
  upgradeDetectorV6 : UpgradeDetector
  currentBlockCumulSzLimit : UInt64

/-- A computation on the blockchain that may throw. -/
abbrev BlockchainM := EStateM Fault Blockchain

/-- Run a read-only computation inside a blockchain operation. -/
def BlockchainM.ofExcept {α : Type} : Except Fault α → BlockchainM α
  | .ok a => pure a
  | .error e => throw e

namespace Blockchain

variable (p : Primitives)

/-- `getCurrentBlockchainHeight`: the number of stored blocks. -/
def getCurrentBlockchainHeight (s : Blockchain) : Nat := s.blocks.length

/-- The ids of the stored blocks, in order: `m_blockIndex`. -/
def blockIds (s : Blockchain) : List Hash := s.blocks.map fun entry => p.getBlockHash entry.bl

/-- `m_blockIndex.hasBlock`. -/
def hasBlock (s : Blockchain) (h : Hash) : Bool := (blockIds p s).contains h

/-- `getTailId`: the last block's id, `NULL_HASH` on an empty chain. -/
def getTailId (s : Blockchain) : Hash := ((blockIds p s).getLast?).getD NULL_HASH

/-- `m_blockIndex.getBlockHeight`: the height of a stored block. -/
def getBlockHeight (s : Blockchain) (h : Hash) : Option Nat := (blockIds p s).idxOf? h

/-- `isInCheckpointZone`. -/
def isInCheckpointZone (s : Blockchain) (height : Nat) : Bool :=
  s.checkpoints.isInCheckpointZone (UInt32.ofNat height)

/-- The key images of every transaction stored in the chain, block by block. -/
def chainKeyImages (s : Blockchain) : List KeyImage :=
  s.blocks.flatMap fun entry => entry.transactions.flatMap fun te => te.tx.keyImages

end Blockchain

end CryptoNote
