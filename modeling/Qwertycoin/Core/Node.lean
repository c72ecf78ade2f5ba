import Qwertycoin.Lib.StateRun
import Qwertycoin.Core.TransactionPool
import Qwertycoin.Core.Blockchain.Alternative
import Qwertycoin.Core.Blockchain.Run

/-!
The main chain together with the memory pool it moves transactions through: `Blockchain`'s
operations that reach `m_tx_pool`. A block arrives by `addNewBlock`; extending the tip, it is pushed
with transactions taken from the pool, and otherwise handled as an alternative block, which may
switch the main chain to its branch. Popped blocks give their transactions back to the pool.

A chain switch that keeps the old chain hands its blocks to `handle_alternative_block` again, which
may switch once more; `fuel` bounds that nesting.

Runs of a node are not modelled here: a transaction reaches the pool through
`core::handleIncomingTransaction`, whose fee, mixin and output checks this development does not
model, so the pools such runs reach could not be told apart from pools the node never holds.
-/

namespace CryptoNote

/-- A blockchain with the memory pool it holds a reference to. -/
structure Node where
  blockchain : Blockchain
  pool : TxMemoryPool

/-- A computation on a node that may throw. -/
abbrev NodeM := EStateM Fault Node

namespace Node

/-- Run a read-only computation inside a node operation. -/
def ofExcept {α : Type} : Except Fault α → NodeM α
  | .ok a => pure a
  | .error e => throw e

/-- Run a chain operation on the node's chain. -/
def liftChain {α : Type} (x : BlockchainM α) : NodeM α := fun node =>
  match x.run node.blockchain with
  | .ok a s => .ok a { node with blockchain := s }
  | .error e s => .error e { node with blockchain := s }

/-- Run a pool operation on the node's pool; it reads the node's chain. -/
def liftPool {α : Type} (x : Blockchain → PoolM α) : NodeM α := fun node =>
  match (x node.blockchain).run node.pool with
  | .ok a pool => .ok a { node with pool := pool }
  | .error e pool => .error e { node with pool := pool }

variable (currency : Currency) (p : Primitives)

/-- `add_tx(tx, tvc, true)` on the node's pool. The callers share one context across their calls,
but nothing reads it back, so each call is given a fresh one. -/
def addKeptTransaction (now : UInt64) (tx : Transaction) : NodeM Bool := do
  let (added, _) ← liftPool fun chain =>
    TxMemoryPool.addTxOf currency p chain now tx TxVerificationContext.initial true
  return added

/-- `saveTransactions`: give transactions back to the pool as kept by a block, the last first. A
refusal is only logged. -/
def saveTransactions (now : UInt64) : List Transaction → NodeM Unit
  | [] => pure ()
  | tx :: rest => do
    saveTransactions now rest
    discard (addKeptTransaction currency p now tx)

/-- The undo of `loadTransactions`: give back the transactions taken so far, in the order given; a
refusal throws. -/
def restoreTaken (now : UInt64) : List Transaction → NodeM Unit
  | [] => pure ()
  | tx :: rest => do
    if !(← addKeptTransaction currency p now tx) then throw .runtimeError
    restoreTaken now rest

/-- The loop of `loadTransactions`: take each listed transaction from the pool; at the first one
missing, give back those taken, the last first, and fail. -/
def loadTransactionsFrom (now : UInt64) (taken : List Transaction) :
    List Hash → NodeM (Option (List Transaction))
  | [] => pure (some taken)
  | h :: rest => do
    match ← liftPool fun _ => TxMemoryPool.takeTx h with
    | some (tx, _, _) => loadTransactionsFrom now (taken ++ [tx]) rest
    | none => do
      restoreTaken currency p now taken.reverse
      return none

/-- `loadTransactions(block, transactions)`: the block's transactions, taken from the pool. -/
def loadTransactions (now : UInt64) (block : Block) : NodeM (Option (List Transaction)) :=
  loadTransactionsFrom currency p now [] block.transactionHashes

/-- `pushBlock(blockData, bvc)`: push a block with its transactions taken from the pool, and give
them back when the block is refused. -/
def pushBlock (now : UInt64) (blockData : Block) : NodeM Bool := do
  let some transactions ← loadTransactions currency p now blockData | return false
  if !(← liftChain (Blockchain.pushBlock currency p now blockData transactions)) then
    saveTransactions currency p now transactions
    return false
  return true

/-- `popBlock`: give the top block's transactions but the coinbase back to the pool, then remove the
block and tell the detectors. An empty chain is left alone. -/
def popBlock (now : UInt64) : NodeM Unit := do
  let some top := (← get).blockchain.blocks.getLast? | return ()
  saveTransactions currency p now (top.transactions.tail.map TransactionEntry.tx)
  discard (liftChain (Blockchain.popBlock p))

/-- `popBlock` so many times. -/
def popBlocks (now : UInt64) : Nat → NodeM Unit
  | 0 => pure ()
  | n + 1 => do
    popBlock currency p now
    popBlocks now n

/-- Push blocks again in order; the first refused stops it with `false`. -/
def pushAgain (now : UInt64) : List Block → NodeM Bool
  | [] => pure true
  | bl :: rest => do
    if !(← pushBlock currency p now bl) then return false
    pushAgain now rest

/-- `rollback_blockchain_switching(original_chain, rollback_height)`: pop down to `rollback_height`,
then push the original blocks again. The `size_t` loop `i >= rollback_height` never ends for a
height of zero; otherwise it pops the blocks above the height, and an empty chain stays empty. -/
def rollbackBlockchainSwitching (now : UInt64) (originalChain : List Block)
    (rollbackHeight : Nat) : NodeM Bool := do
  if rollbackHeight = 0 then throw .nonTermination
  popBlocks currency p now ((← get).blockchain.blocks.length - rollbackHeight)
  pushAgain currency p now originalChain

/-- `getBlockByHash`: a main-chain block, or else an alternative one. -/
def getBlockByHash (s : Blockchain) (h : Hash) : Option Block :=
  match s.getBlockHeight p h with
  | some height => (s.blocks[height]?).map BlockEntry.bl
  | none => (s.findAlternative h).map BlockEntry.bl

/-- The depths of the Poisson check, from `depth` on with `remaining` left, walking the main chain
down from `lowBlock`: the failed checks and the checks made. The walk stops below the genesis
block; a block it cannot find is read uninitialised. -/
def poissonDepths (s : Blockchain) (highTimestamp : UInt64) (altChainSize : Nat) :
    (depth remaining : Nat) → Hash → Except Fault (Nat × Nat)
  | _, 0, _ => pure (0, 0)
  | depth, remaining + 1, lowBlock => do
    if lowBlock = NULL_HASH then return (0, 0)
    let some blk := getBlockByHash p s lowBlock | throw .undefinedBehaviour
    let (failedChecks, checks) ←
      poissonDepths s highTimestamp altChainSize (depth + 1) remaining blk.previousBlockHash
    -- A main-chain timestamp at or above the branch's counts as failed without the test.
    let failed := decide (blk.timestamp ≥ highTimestamp) ||
      p.poissonCheckFails (highTimestamp - blk.timestamp) (UInt64.ofNat (altChainSize + depth))
    return (failedChecks + (if failed then 1 else 0), checks + 1)

/-- The Poisson check of `switch_to_alternative_blockchain` on a branch of at least
`POISSON_CHECK_TRIGGER` blocks: the newest branch timestamp within
`CRYPTONOTE_BLOCK_FUTURE_TIME_LIMIT_V1` of the clock, and at most half of up to
`POISSON_CHECK_DEPTH` depths below the branch failing. -/
def poissonCheck (s : Blockchain) (now : UInt64) (branch : List BlockEntry) : Except Fault Bool := do
  let some front := branch.head? | return true
  let some back := branch.getLast? | return true
  let highTimestamp := branch.foldl (fun high entry => max high entry.bl.timestamp) back.bl.timestamp
  if highTimestamp > now + 6 * parameters.DIFFICULTY_TARGET then return false
  let (failedChecks, checks) ←
    poissonDepths p s highTimestamp branch.length 1 60 front.bl.previousBlockHash
  return !(failedChecks > checks / 2)

/-- `m_alternative_chains.erase` for each entry of a branch. -/
def eraseBranch (branch : List (Hash × BlockEntry)) (node : Node) : Node :=
  { node with blockchain := branch.foldl (fun s entry => s.eraseAlternative entry.1) node.blockchain }

/-- The connecting loop of `switch_to_alternative_blockchain`: push the branch's blocks in order. At
the first refused one the switch is rolled back, that block and those after it leave the
alternative blocks, and the loop fails. -/
def connectBranch (now : UInt64) (splitHeight : Nat) (disconnectedChain : List Block) :
    List (Hash × BlockEntry) → NodeM Bool
  | [] => pure true
  | (id, entry) :: rest => do
    if !(← pushBlock currency p now entry.bl) then
      discard (rollbackBlockchainSwitching currency p now disconnectedChain splitHeight)
      modify (eraseBranch ((id, entry) :: rest))
      return false
    connectBranch now splitHeight disconnectedChain rest

/-- The loop that hands the old chain's blocks to `handle_alternative_block`, stopping at the first
it refuses. -/
def readdDisconnected (handle : Block → Hash → NodeM Bool) : List Block → NodeM Unit
  | [] => pure ()
  | bl :: rest => do
    if !(← handle bl (p.getBlockHash bl)) then return ()
    readdDisconnected handle rest

/--
`switch_to_alternative_blockchain(alt_chain, discard_disconnected_chain)`, with `handle` standing
for `handle_alternative_block`. The branch must start below the top, pass the Poisson check when it
is long, and hold every transaction the main chain holds above the split. The main chain is then
popped down to the split and the branch pushed; the old blocks are handed back as alternative
blocks unless they are discarded, and the branch leaves the alternative blocks.
-/
def switchToAlternativeBlockchain (handle : Block → Hash → NodeM Bool) (now : UInt64)
    (altChain : List (Hash × BlockEntry)) (discardDisconnectedChain : Bool) : NodeM Bool := do
  let some (_, front) := altChain.head? | return false
  let splitHeight := front.height.toNat
  let s := (← get).blockchain
  if s.blocks.length ≤ splitHeight then return false
  -- The `size_t` loops `i >= split_height` below never stop at a split height of zero.
  if splitHeight = 0 then throw .undefinedBehaviour
  if altChain.length ≥ 10 then
    if !(← ofExcept (poissonCheck p s now (altChain.map Prod.snd))) then return false
  let mainChainTxHashes := (s.blocks.drop splitHeight).flatMap fun entry =>
    entry.bl.transactionHashes
  let altChainTxHashes := altChain.flatMap fun entry => entry.2.bl.transactionHashes
  if mainChainTxHashes.any fun h => !altChainTxHashes.contains h then return false
  let disconnectedChain := (s.blocks.drop splitHeight).map BlockEntry.bl
  popBlocks currency p now (s.blocks.length - splitHeight)
  if !(← connectBranch currency p now splitHeight disconnectedChain altChain) then return false
  if !discardDisconnectedChain then readdDisconnected p handle disconnectedChain
  modify (eraseBranch altChain)
  return true

/-- `getBlockCumulativeSize`: the coinbase's size with those of the block's transactions found in
the chain or else in the pool; the missing ones are left out. -/
def getBlockCumulativeSize (node : Node) (b : Block) : Except Fault Nat := do
  let s := node.blockchain
  let sizes ← b.transactionHashes.mapM fun h =>
    match s.transactionMap h with
    | some index => do return some (p.binarySize (← s.transactionByIndex index))
    | none => return (node.pool.transactions.find? fun txd => txd.id == h).map fun txd =>
        p.binarySize txd.tx
  return p.binarySize b.baseTransaction + (sizes.filterMap id).sum

/--
`handle_alternative_block(b, id, bvc, ...)`. The block is screened (coinbase height, checkpoints,
version, parent block size, cumulative size), its branch built, its timestamp checked against the
branch topped up from the main chain, and its height, checkpoint, merge-mining tag, difficulty,
proof of work and coinbase checked. It is then stored with its cumulative difficulty, and switches
the main chain to its branch when it is a checkpoint or when its cumulative difficulty exceeds the
top's. A block whose parent is unknown is an orphan and is not stored.
-/
def handleAlternativeBlock : (fuel : Nat) → (now : UInt64) → Block → Hash → NodeM Bool
  | 0, _, _, _ => throw .outOfFuel
  | fuel + 1, now, b, id => do
    let blockHeight := CryptoNote.getBlockHeight b
    if blockHeight = 0 then return false
    let node ← get
    let s := node.blockchain
    -- `load_checkpoints_from_dns` adds no checkpoint: the set is fixed.
    if !s.checkpoints.isAlternativeBlockAllowed (UInt32.ofNat s.getCurrentBlockchainHeight)
        blockHeight then return false
    if !s.checkBlockVersion currency b then return false
    if !Blockchain.checkParentBlockSize p b then return false
    let cumulativeSize ← ofExcept (getBlockCumulativeSize p node b)
    if !Blockchain.checkCumulativeBlockSize currency cumulativeSize blockHeight.toNat then
      return false
    let mainPrevHeight? := s.getBlockHeight p b.previousBlockHash
    let prev? := s.findAlternative b.previousBlockHash
    if prev?.isNone ∧ mainPrevHeight?.isNone then return true
    let altChain ← ofExcept (s.altChain b.previousBlockHash)
    let branch := altChain.map Prod.snd
    let mainPrevHeight := mainPrevHeight?.getD 0
    if let some front := branch.head? then
      if s.blocks.length ≤ front.height.toNat then return false
      -- The branch must hang off the main-chain block below its first block.
      let some below := s.blocks[(front.height - 1).toNat]? | throw .undefinedBehaviour
      if p.getBlockHash below.bl != front.bl.previousBlockHash then return false
    let timestamps ← ofExcept (s.alternativeTimestamps currency b.majorVersion branch mainPrevHeight)
    if !Blockchain.checkBlockTimestamp currency timestamps b then return false
    let height : UInt32 := match prev? with
      | some prevEntry => prevEntry.height + 1
      | none => UInt32.ofNat mainPrevHeight + 1
    let isACheckpoint := s.checkpoints.isCheckpoint height
    if !s.checkpoints.checkBlock height id then return false
    if p.hasMergeMiningTag b.baseTransaction.extra ∧ b.majorVersion ≥ 6 then return false
    let bei : BlockEntry := ⟨b, height, 0, 0, 0, []⟩
    let currentDiff ← ofExcept
      (s.getNextDifficultyForAlternativeChain currency p branch bei b.timestamp)
    if currentDiff = 0 then return false
    if !p.checkProofOfWork b currentDiff then return false
    if !Blockchain.prevalidateMinerTransaction currency b height then return false
    let previousCumulativeDifficulty ← match prev? with
      | some prevEntry => pure prevEntry.cumulativeDifficulty
      | none => match s.blocks[mainPrevHeight]? with
        | some entry => pure entry.cumulativeDifficulty
        | none => throw .undefinedBehaviour
    let bei := { bei with cumulativeDifficulty := previousCumulativeDifficulty + currentDiff }
    let some stored := s.insertAlternative id bei | return false
    set { node with blockchain := stored }
    let altChain := altChain ++ [(id, bei)]
    let switch := switchToAlternativeBlockchain currency p (handleAlternativeBlock fuel now) now
    if isACheckpoint then return ← switch altChain true
    let some top := s.blocks.getLast? | throw .undefinedBehaviour
    if top.cumulativeDifficulty < bei.cumulativeDifficulty then return ← switch altChain false
    return true

/-- `addNewBlock(bl, bvc)`: a known block is refused; a block on the tip is pushed, any other is
handled as an alternative block. The log line before that reads the coinbase's first input as a
coinbase input. -/
def addNewBlock (fuel : Nat) (now : UInt64) (bl : Block) : NodeM Bool := do
  let id := p.getBlockHash bl
  let s := (← get).blockchain
  if s.haveBlock p id then return false
  if bl.previousBlockHash ≠ s.getTailId p then
    match bl.baseTransaction.inputs.head? with
    | some (.base _) => handleAlternativeBlock currency p fuel now bl id
    | some _ => throw .badGet
    | none => throw .undefinedBehaviour
  else pushBlock currency p now bl

end Node

end CryptoNote
