import Qwertycoin.Core.Blockchain.PushBlock

/-!
What `handle_alternative_block` computes from the chain before it stores a block that does not
extend the tip: the checkpoint screen `is_alternative_block_allowed`, the branch it walks through
`m_alternative_chains`, the timestamps `complete_timestamps_vector` tops up from the main chain, and
`get_next_difficulty_for_alternative_chain`. They read the chain and never change it.
-/

namespace CryptoNote

namespace Checkpoints

/-- The greatest checkpoint height at or below `height`: `--m_points.upper_bound(height)`. -/
def lastAtOrBelow (checkpoints : Checkpoints) (height : UInt32) : Option UInt32 :=
  (checkpoints.points.map Prod.fst).filter (· ≤ height) |>.max?

/--
`is_alternative_block_allowed(blockchain_height, block_height)`: a block of height zero is refused,
and so is a block more than `CRYPTONOTE_MINED_MONEY_UNLOCK_WINDOW` below the chain height outside the
checkpoint zone; the difference is `uint32_t` and wraps below sixty. The block must then lie above the
last checkpoint at or below the chain height.
-/
def isAlternativeBlockAllowed (checkpoints : Checkpoints) (blockchainHeight blockHeight : UInt32) :
    Bool :=
  if blockHeight = 0 then false
  else if blockHeight < blockchainHeight - UInt32.ofNat parameters.CRYPTONOTE_MINED_MONEY_UNLOCK_WINDOW
      ∧ !checkpoints.isInCheckpointZone blockHeight then false
  else match checkpoints.lastAtOrBelow blockchainHeight with
    | none => true
    | some checkpointHeight => checkpointHeight < blockHeight

end Checkpoints

namespace Blockchain

variable (currency : Currency) (p : Primitives) (s : Blockchain)

/-- The alternative block stored under an id. -/
def findAlternative (h : Hash) : Option BlockEntry := s.alternativeChains.lookup h

/-- `haveBlock`: the id is in the main chain or among the alternative blocks. -/
def haveBlock (id : Hash) : Bool := s.hasBlock p id || (s.findAlternative id).isSome

/-- `m_alternative_chains.insert`: `none` when the id is already stored. -/
def insertAlternative (id : Hash) (entry : BlockEntry) : Option Blockchain :=
  if (s.findAlternative id).isSome then none
  else some { s with alternativeChains := s.alternativeChains ++ [(id, entry)] }

/-- `m_alternative_chains.erase`. -/
def eraseAlternative (id : Hash) : Blockchain :=
  { s with alternativeChains := s.alternativeChains.filter fun entry => entry.1 != id }

/--
The loop of `handle_alternative_block` that builds the branch behind a block: from the parent's id,
each stored entry is put in front and the walk moves to its previous id, until an id is not stored.
`fuel` bounds the walk by the number of stored entries: a longer walk revisits an entry, and as each
step depends on the entry alone it then cycles and never ends.
-/
def altChainFrom : (fuel : Nat) → Hash → List (Hash × BlockEntry) →
    Except Fault (List (Hash × BlockEntry))
  | fuel, h, branch =>
    match s.findAlternative h with
    | none => .ok branch
    | some entry =>
      match fuel with
      | 0 => .error .nonTermination
      | fuel + 1 => altChainFrom fuel entry.bl.previousBlockHash ((h, entry) :: branch)

/-- The branch `handle_alternative_block` builds behind a block with this parent: the entries
oldest first, the one nearest the main chain at the front. -/
def altChain (previousBlockHash : Hash) : Except Fault (List (Hash × BlockEntry)) :=
  s.altChainFrom s.alternativeChains.length previousBlockHash []

/-- The `do ... while` of `complete_timestamps_vector`: the timestamps from `height` down, ending
after height zero or before `stopOffset`. -/
def timestampsDownFrom (stopOffset : Nat) : Nat → Except Fault (List UInt64)
  | 0 => do return [← s.getBlockTimestamp 0]
  | height + 1 => do
    let timestamp ← s.getBlockTimestamp (height + 1)
    if height = stopOffset then return [timestamp]
    return timestamp :: (← timestampsDownFrom stopOffset height)

/--
`complete_timestamps_vector(blockMajorVersion, start_top_height, timestamps)`: a vector shorter than
the timestamp window is topped up with main-chain timestamps from `start_top_height` down, for as
many as it lacks but never with the genesis block unless it starts there. A start above the top
leaves the vector as it is and reports `false`.
-/
def completeTimestampsVector (blockMajorVersion : UInt8) (startTopHeight : Nat)
    (timestamps : List UInt64) : Except Fault (Bool × List UInt64) := do
  let window := currency.timestampCheckWindow blockMajorVersion
  if timestamps.length ≥ window then return (true, timestamps)
  let needElements := window - timestamps.length
  if startTopHeight ≥ s.blocks.length then return (false, timestamps)
  let stopOffset := if startTopHeight > needElements then startTopHeight - needElements else 0
  return (true, timestamps ++ (← s.timestampsDownFrom stopOffset startTopHeight))

/--
The timestamps `handle_alternative_block` hands to `check_block_timestamp` for a block whose branch
is `branch` (oldest first) and whose parent, when the branch is empty, is the main-chain block at
`mainPrevHeight`: the branch's timestamps newest first, topped up from the main chain below the
branch. The result of `complete_timestamps_vector` is not looked at.
-/
def alternativeTimestamps (blockMajorVersion : UInt8) (branch : List BlockEntry)
    (mainPrevHeight : Nat) : Except Fault (List UInt64) := do
  let timestamps := branch.reverse.map fun entry => entry.bl.timestamp
  -- `alt_chain.front()->second.height - 1` is a `uint32_t` difference.
  let startTopHeight := match branch.head? with
    | some front => (front.height - 1).toNat
    | none => mainPrevHeight
  let (_, timestamps) ← s.completeTimestampsVector currency blockMajorVersion startTopHeight timestamps
  return timestamps

/--
`get_next_difficulty_for_alternative_chain(alt_chain, bei, nextBlockTime)`. The version and the
height the rule is asked for are those of the main chain's next block. A branch shorter than the
window is preceded by the main-chain blocks below it, the genesis block left out; a longer one gives
its last blocks alone. The statistics callback answers zero, and too many collected blocks give
zero.
-/
def getNextDifficultyForAlternativeChain (branch : List BlockEntry) (bei : BlockEntry)
    (nextBlockTime : UInt64) : Except Fault UInt64 := do
  let blockMajorVersion := s.getBlockMajorVersionForHeight currency (UInt32.ofNat s.blocks.length)
  let count := currency.difficultyBlocksCountByBlockVersion blockMajorVersion
  let (timestamps, cumulativeDifficulties) ←
    if branch.length < count then do
      let mainChainStopOffset := match branch.head? with
        | some front => front.height.toNat
        | none => bei.height.toNat
      let mainChainCount := min (count - min count branch.length) mainChainStopOffset
      let startOffset := mainChainStopOffset - mainChainCount
      -- The genesis block is skipped.
      let startOffset := if startOffset = 0 then 1 else startOffset
      let mainBlocks ← (List.range' startOffset (mainChainStopOffset - startOffset)).mapM fun h =>
        match s.blocks[h]? with
        | some entry => .ok entry
        | none => .error .undefinedBehaviour
      if branch.length + mainBlocks.length > count then return 0
      let blocks := mainBlocks ++ branch
      pure (blocks.map fun entry => entry.bl.timestamp, blocks.map BlockEntry.cumulativeDifficulty)
    else do
      -- With an empty window the last entry would be written below the vector.
      if count = 0 ∧ branch ≠ [] then throw .undefinedBehaviour
      let recent := branch.drop (branch.length - count)
      pure (recent.map fun entry => entry.bl.timestamp, recent.map BlockEntry.cumulativeDifficulty)
  currency.nextDifficulty p (UInt32.ofNat s.blocks.length) blockMajorVersion timestamps
    cumulativeDifficulties nextBlockTime fun _ => .ok 0

end Blockchain

end CryptoNote
