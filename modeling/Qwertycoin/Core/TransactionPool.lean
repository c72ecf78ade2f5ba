import Mathlib
import Qwertycoin.Core.FormatUtils
import Qwertycoin.Core.Blockchain.Inputs

/-!
The memory pool of `TransactionPool.cpp`: the transactions waiting for a block, the key images and
multisignature outputs they spend, and the operations on them: `add_tx`, `take_tx`,
`removeExpiredTransactions`, `get_difference` and `fill_block_template`.

The pool reads the main chain through its validator, so every operation takes the `Blockchain` it
asks. `now` stands for `time(nullptr)` and for the time provider's clock alike.
-/

namespace CryptoNote

/-- `tx_verification_context`, as far as `add_tx` writes it. -/
structure TxVerificationContext where
  shouldBeRelayed : Bool
  verificationFailed : Bool
  verifivationImpossible : Bool
  addedToPool : Bool
deriving DecidableEq, Repr

/-- A value-initialized `tx_verification_context`. -/
def TxVerificationContext.initial : TxVerificationContext := ⟨false, false, false, false⟩

/-- `TransactionCheckInfo`: where the pool's last input check of a transaction stands. -/
structure TransactionCheckInfo where
  maxUsedBlock : BlockInfo
  lastFailedBlock : BlockInfo
deriving DecidableEq, Repr

/-- `TransactionDetails`: a pooled transaction with its id, size, fee and arrival. -/
structure TransactionDetails extends TransactionCheckInfo where
  id : Hash
  tx : Transaction
  blobSize : UInt64
  fee : UInt64
  keptByBlock : Bool
  receiveTime : UInt64
deriving DecidableEq, Repr

/--
`TransactionPriorityComparator`: `lhs` goes before `rhs` when it pays more per byte, the fees
cross-multiplied by the sizes in 128 bits; then when it is smaller; then when it arrived earlier.
-/
def TransactionPriorityComparator (lhs rhs : TransactionDetails) : Bool :=
  let (lhsLo, lhsHi) := mul128 lhs.fee rhs.blobSize
  let (rhsLo, rhsHi) := mul128 rhs.fee lhs.blobSize
  lhsHi > rhsHi ∨ (lhsHi = rhsHi ∧ lhsLo > rhsLo)
    ∨ (lhsHi = rhsHi ∧ lhsLo = rhsLo ∧ lhs.blobSize < rhs.blobSize)
    ∨ (lhsHi = rhsHi ∧ lhsLo = rhsLo ∧ lhs.blobSize = rhs.blobSize
      ∧ lhs.receiveTime < rhs.receiveTime)

/--
The state of a `tx_memory_pool`. `transactions` is the container in insertion order, unique by id;
the key-image map sends an image to the set of ids spending it, an absent image to the empty set.
`validatedTransactions` is the file-level `m_validated_transactions` cache, one per process as there
is one pool per process.
-/
structure TxMemoryPool where
  transactions : List TransactionDetails
  spentKeyImages : KeyImage → List Hash
  spentOutputs : UInt64 × UInt64 → Bool
  recentlyDeletedTransactions : Hash → Option UInt64
  ttlIndex : Hash → Option UInt64
  validatedTransactions : Hash → Bool

/-- A computation on the pool that may throw. -/
abbrev PoolM := EStateM Fault TxMemoryPool

/-- Run a read-only computation inside a pool operation. -/
def PoolM.ofExcept {α : Type} : Except Fault α → PoolM α
  | .ok a => pure a
  | .error e => throw e

namespace TxMemoryPool

/-- The pool `init` leaves when there is no saved pool: every container empty. -/
def empty : TxMemoryPool where
  transactions := []
  spentKeyImages := fun _ => []
  spentOutputs := fun _ => false
  recentlyDeletedTransactions := fun _ => none
  ttlIndex := fun _ => none
  validatedTransactions := fun _ => false

variable (currency : Currency) (p : Primitives) (chain : Blockchain)

/-- The fee index: the transactions ordered by `TransactionPriorityComparator`, those it does not
order kept in insertion order, as an `ordered_non_unique` index keeps them. -/
def feeIndex (pool : TxMemoryPool) : List TransactionDetails :=
  pool.transactions.insertionSort fun a b => !TransactionPriorityComparator b a

/-- `haveSpentInputs`: an input's key image or multisignature output is already spent by the pool.
An image present in the map always has a non-empty set, so `count` is the set being non-empty. -/
def haveSpentInputs (pool : TxMemoryPool) (tx : Transaction) : Bool :=
  tx.inputs.any fun
    | .key input => !(pool.spentKeyImages input.keyImage).isEmpty
    | .multisignature input => pool.spentOutputs (input.amount, input.outputIndex.toUInt64)
    | .base _ => false

/-- Add `id` to the set of a key image. -/
def insertSpender (image : KeyImage) (id : Hash) (pool : TxMemoryPool) : TxMemoryPool :=
  { pool with
    spentKeyImages := Function.update pool.spentKeyImages image (id :: pool.spentKeyImages image) }

/-- Set whether a multisignature output is spent. -/
def markOutput (output : UInt64 × UInt64) (spent : Bool) (pool : TxMemoryPool) : TxMemoryPool :=
  { pool with spentOutputs := Function.update pool.spentOutputs output spent }

/-- `addTransactionInputs`: record the inputs' key images under `id`, and the multisignature outputs
of a transaction not kept by a block. An image another transaction spends stops it unless the
transaction is kept by a block, and so does an image already recorded under `id`; the inputs before
stay recorded. -/
def addTransactionInputs (id : Hash) (keptByBlock : Bool) : List TransactionInput → PoolM Bool
  | [] => pure true
  | .key input :: rest => do
    let keyImageSet := (← get).spentKeyImages input.keyImage
    if !(keptByBlock || keyImageSet.isEmpty) then return false
    if keyImageSet.contains id then return false
    modify (insertSpender input.keyImage id)
    addTransactionInputs id keptByBlock rest
  | .multisignature input :: rest => do
    if !keptByBlock then modify (markOutput (input.amount, input.outputIndex.toUInt64) true)
    addTransactionInputs id keptByBlock rest
  | .base _ :: rest => addTransactionInputs id keptByBlock rest

/-- `removeTransactionInputs`: take `id` out of its key images' sets, and free the multisignature
outputs of a transaction not kept by a block. An image whose set does not hold `id` stops it, the
inputs after it left as they are. -/
def removeTransactionInputs (id : Hash) (keptByBlock : Bool) : List TransactionInput → PoolM Bool
  | [] => pure true
  | .key input :: rest => do
    let keyImageSet := (← get).spentKeyImages input.keyImage
    -- An absent image and an empty set both stop the loop.
    if keyImageSet.isEmpty || !keyImageSet.contains id then return false
    modify fun pool => { pool with
      spentKeyImages := Function.update pool.spentKeyImages input.keyImage (keyImageSet.erase id) }
    removeTransactionInputs id keptByBlock rest
  | .multisignature input :: rest => do
    if !keptByBlock then modify (markOutput (input.amount, input.outputIndex.toUInt64) false)
    removeTransactionInputs id keptByBlock rest
  | .base _ :: rest => removeTransactionInputs id keptByBlock rest

/-- `removeTransaction`: release the inputs, whatever that reports, then drop the transaction, its
time to live and its cache entry. -/
def removeTransaction (txd : TransactionDetails) : PoolM Unit := do
  discard (removeTransactionInputs txd.id txd.keptByBlock txd.tx.inputs)
  modify fun pool => { pool with
    transactions := pool.transactions.filter fun other => other.id != txd.id
    ttlIndex := Function.update pool.ttlIndex txd.id none
    validatedTransactions := Function.update pool.validatedTransactions txd.id false }

/-- Insert a transaction, with its time to live when it has one; `emplace` keeps an entry already
there. -/
def insertTransaction (txd : TransactionDetails) (ttl : UInt64) (pool : TxMemoryPool) :
    TxMemoryPool :=
  { pool with
    transactions := pool.transactions ++ [txd]
    ttlIndex := if ttl ≠ 0 ∧ (pool.ttlIndex txd.id).isNone
      then Function.update pool.ttlIndex txd.id (some ttl) else pool.ttlIndex }

/-- The end of `add_tx`: insert the transaction, then record its inputs. When recording fails the
transaction stays, and `false` is returned with `tvc` still marking a failed verification. -/
def insertWithInputs (txd : TransactionDetails) (ttl : UInt64) (tvc : TxVerificationContext) :
    PoolM (Bool × TxVerificationContext) := do
  modify (insertTransaction txd ttl)
  if !(← addTransactionInputs txd.id txd.keptByBlock txd.tx.inputs) then return (false, tvc)
  return (true, { tvc with verificationFailed := false })

/--
`add_tx(tx, id, blobSize, tvc, keptByBlock)`. The checks come first: supported inputs, outputs
covered by inputs, for a transaction not kept by a block a time to live in range with no fee and
inputs the pool does not spend, inputs the chain accepts (a transaction kept by a block is taken
anyway) and a size within the limit. A recently deleted transaction is then ignored, and a known id
refused. The transaction is inserted before its inputs are recorded, and stays when that fails.
-/
def addTx (now : UInt64) (tx : Transaction) (id : Hash) (blobSize : UInt64)
    (tvc : TxVerificationContext) (keptByBlock : Bool) : PoolM (Bool × TxVerificationContext) := do
  let failed := { tvc with verificationFailed := true }
  if !checkInputsTypesSupported tx then return (false, failed)
  let inputsAmount := getInputAmount tx
  let outputsAmount := getOutputAmount tx
  if outputsAmount > inputsAmount then return (false, failed)
  let ttl := p.transactionTtl tx.extra
  let fee := inputsAmount - outputsAmount
  let isFusionTransaction :=
    fee == 0 && p.isFusionTransaction tx blobSize (UInt32.ofNat chain.getCurrentBlockchainHeight)
  if ttl ≠ 0 ∧ !keptByBlock then
    if ttl ≤ now then return (false, failed)
    if ttl - now > currency.mempoolTxLiveTime + currency.blockFutureTimeLimitV0 then
      return (false, failed)
    if fee ≠ 0 then return (false, failed)
  if !keptByBlock ∧ (← get).haveSpentInputs tx then return (false, failed)
  let (inputsValid, checkedBlock) ←
    PoolM.ofExcept (chain.checkTransactionInputsAndBlock currency p tx BlockInfo.cleared)
  if !inputsValid ∧ !keptByBlock then return (false, failed)
  let maxUsedBlock := if inputsValid then checkedBlock else BlockInfo.cleared
  let tvc := if inputsValid then tvc else { tvc with verifivationImpossible := true }
  if !keptByBlock ∧ !chain.checkTransactionSize currency blobSize then
    return (false, { tvc with verificationFailed := true })
  if !keptByBlock ∧ ((← get).recentlyDeletedTransactions id).isSome then
    let ignored := { tvc with
      verificationFailed := false
      shouldBeRelayed := false
      addedToPool := false }
    return (true, ignored)
  if (← get).transactions.any fun txd => txd.id == id then return (false, tvc)
  let txd : TransactionDetails :=
    { maxUsedBlock := maxUsedBlock
      lastFailedBlock := BlockInfo.cleared
      id := id
      tx := tx
      blobSize := blobSize
      fee := fee
      keptByBlock := keptByBlock
      receiveTime := now }
  insertWithInputs txd ttl { tvc with
    addedToPool := true
    shouldBeRelayed := inputsValid && (fee > 0 || isFusionTransaction || ttl != 0)
    verificationFailed := true }

/-- `add_tx(tx, tvc, keptByBlock)`: `add_tx` with the id and size computed from the transaction. -/
def addTxOf (now : UInt64) (tx : Transaction) (tvc : TxVerificationContext) (keptByBlock : Bool) :
    PoolM (Bool × TxVerificationContext) :=
  addTx currency p chain now tx (p.getObjectHash tx) (UInt64.ofNat (p.binarySize tx)) tvc keptByBlock

/-- `take_tx(id)`: remove a pooled transaction, returning it with its size and fee. -/
def takeTx (id : Hash) : PoolM (Option (Transaction × UInt64 × UInt64)) := do
  let some txd := (← get).transactions.find? fun txd => txd.id == id | return none
  removeTransaction txd
  return some (txd.tx, txd.blobSize, txd.fee)

/-- The loop of `removeExpiredTransactions` over the transactions: those older than their live time
or past their time to live are remembered as deleted and removed. -/
def removeExpiredFrom (now : UInt64) : List TransactionDetails → PoolM Unit
  | [] => pure ()
  | txd :: rest => do
    let txAge := now - txd.receiveTime
    let remove := txAge > (if txd.keptByBlock then currency.mempoolTxFromAltBlockLiveTime
      else currency.mempoolTxLiveTime)
    let ttlExpired := match (← get).ttlIndex txd.id with
      | some ttl => decide (ttl ≤ now)
      | none => false
    if remove || ttlExpired then
      modify fun pool => { pool with
        recentlyDeletedTransactions := if (pool.recentlyDeletedTransactions txd.id).isSome
          then pool.recentlyDeletedTransactions
          else Function.update pool.recentlyDeletedTransactions txd.id (some now) }
      removeTransaction txd
    removeExpiredFrom now rest

/-- `removeExpiredTransactions`: forget deletions older than
`numberOfPeriodsToForgetTxDeletedFromPool` live times, then remove the expired transactions. -/
def removeExpiredTransactions (now : UInt64) : PoolM Bool := do
  let dtime := currency.numberOfPeriodsToForgetTxDeletedFromPool * currency.mempoolTxLiveTime
  modify fun pool => { pool with
    recentlyDeletedTransactions := fun id =>
      (pool.recentlyDeletedTransactions id).filter fun deletedAt => !(now - deletedAt > dtime) }
  removeExpiredFrom currency now (← get).transactions
  return true

/-- `is_transaction_ready_to_go`: the chain accepts the inputs, by the cached check, and spends none
of the key images. The check info comes back as the check left it. -/
def isTransactionReadyToGo (tx : Transaction) (txd : TransactionCheckInfo) :
    Except Fault (Bool × TransactionCheckInfo) := do
  let (valid, maxUsedBlock, lastFailedBlock) ←
    chain.checkTransactionInputsCached currency p tx txd.maxUsedBlock txd.lastFailedBlock
  let txd := ⟨maxUsedBlock, lastFailedBlock⟩
  if !valid then return (false, txd)
  if chain.haveTransactionKeyImagesAsSpent tx then return (false, txd)
  return (true, txd)

/-- Whether a pooled transaction is ready: from the cache, or checked and then cached. -/
def readyFromCache (txd : TransactionDetails) : PoolM (Bool × TransactionCheckInfo) := do
  if (← get).validatedTransactions txd.id then return (true, txd.toTransactionCheckInfo)
  let (ready, checkInfo) ←
    PoolM.ofExcept (isTransactionReadyToGo currency p chain txd.tx txd.toTransactionCheckInfo)
  if ready then
    modify fun pool => { pool with
      validatedTransactions := Function.update pool.validatedTransactions txd.id true }
  return (ready, checkInfo)

/-- The loop of `get_difference` over the transactions: the ids of the ready ones. -/
def collectReady : List TransactionDetails → PoolM (List Hash)
  | [] => pure []
  | txd :: rest => do
    let (ready, _) ← readyFromCache currency p chain txd
    let others ← collectReady rest
    return if ready then txd.id :: others else others

/-- `get_difference(known_tx_ids)`: the ready ids the caller does not know, and the known ids that
are not ready. -/
def getDifference (knownTxIds : List Hash) : PoolM (List Hash × List Hash) := do
  let readyTxIds ← collectReady currency p chain (← get).transactions
  let knownSet := knownTxIds.eraseDups
  return (readyTxIds.filter fun id => !knownSet.contains id,
    knownSet.filter fun id => !readyTxIds.contains id)

/-- Empty the validation cache. -/
def clearValidatedTransactions : PoolM Bool := do
  modify fun pool => { pool with validatedTransactions := fun _ => false }
  return true

/-- `on_blockchain_inc(new_block_height, top_block_id)`. -/
def onBlockchainInc (_newBlockHeight : UInt64) (_topBlockId : Hash) : PoolM Bool :=
  clearValidatedTransactions

/-- `on_blockchain_dec(new_block_height, top_block_id)`. -/
def onBlockchainDec (_newBlockHeight : UInt64) (_topBlockId : Hash) : PoolM Bool :=
  clearValidatedTransactions

end TxMemoryPool

/-- `BlockTemplate`: the key images and multisignature outputs of the transactions chosen so far,
and their ids in order. -/
structure BlockTemplate where
  keyImages : List KeyImage
  usedOutputs : List (UInt64 × UInt64)
  txHashes : List Hash
deriving DecidableEq, Repr

namespace BlockTemplate

/-- The template before any transaction is chosen. -/
def empty : BlockTemplate := ⟨[], [], []⟩

/-- `canAdd`: none of the inputs' key images or outputs is already in the template. -/
def canAdd (t : BlockTemplate) (tx : Transaction) : Bool :=
  tx.inputs.all fun
    | .key input => !t.keyImages.contains input.keyImage
    | .multisignature input => !t.usedOutputs.contains (input.amount, input.outputIndex.toUInt64)
    | .base _ => true

/-- `addTransaction`: add a transaction that `canAdd` admits, `none` for one it refuses. -/
def addTransaction (t : BlockTemplate) (txid : Hash) (tx : Transaction) : Option BlockTemplate :=
  if !t.canAdd tx then none
  else some
    { keyImages := t.keyImages ++ tx.keyImages
      usedOutputs := t.usedOutputs ++ tx.multisignatureSpends.map fun (amount, outputIndex) =>
        (amount, outputIndex.toUInt64)
      txHashes := t.txHashes ++ [txid] }

end BlockTemplate

namespace TxMemoryPool

variable (currency : Currency) (p : Primitives) (chain : Blockchain)

/-- The first loop of `fill_block_template`: from the cheapest end of the fee index while the fee is
zero, the transactions without a time to live that fit in `fusionTxMaxSize` and are ready. The check
info it computes is not kept. -/
def fillFusionTransactions (ttlIndex : Hash → Option UInt64) :
    List TransactionDetails → BlockTemplate → UInt64 → Except Fault (BlockTemplate × UInt64)
  | [], t, totalSize => pure (t, totalSize)
  | txd :: rest, t, totalSize =>
    if txd.fee ≠ 0 then pure (t, totalSize)
    else if (ttlIndex txd.id).isSome then fillFusionTransactions ttlIndex rest t totalSize
    else if UInt64.ofNat currency.fusionTxMaxSize < totalSize + txd.blobSize then
      fillFusionTransactions ttlIndex rest t totalSize
    else do
      let (ready, _) ← isTransactionReadyToGo currency p chain txd.tx txd.toTransactionCheckInfo
      let chosen := if ready then t.addTransaction txd.id txd.tx else none
      match chosen with
      | some t => fillFusionTransactions ttlIndex rest t (totalSize + txd.blobSize)
      | none => fillFusionTransactions ttlIndex rest t totalSize

/-- Store the check info of a pooled transaction: `m_fee_index.modify`. -/
def setCheckInfo (id : Hash) (checkInfo : TransactionCheckInfo) (pool : TxMemoryPool) :
    TxMemoryPool :=
  { pool with transactions := pool.transactions.map fun txd =>
    if txd.id == id then { txd with toTransactionCheckInfo := checkInfo } else txd }

/-- The second loop of `fill_block_template`, over the whole fee index: the transactions without a
time to live that fit (in `medianSize` without a fee, in `maxTotalSize` with one) and are ready by
the cache or by a check. Their check info is stored back, and the fees of those chosen summed. -/
def fillTransactions (medianSize maxTotalSize : UInt64) :
    List TransactionDetails → BlockTemplate → UInt64 → UInt64 →
      PoolM (BlockTemplate × UInt64 × UInt64)
  | [], t, totalSize, fee => pure (t, totalSize, fee)
  | txd :: rest, t, totalSize, fee => do
    if ((← get).ttlIndex txd.id).isSome then
      return ← fillTransactions medianSize maxTotalSize rest t totalSize fee
    let blockSizeLimit := if txd.fee = 0 then medianSize else maxTotalSize
    if blockSizeLimit < totalSize + txd.blobSize then
      return ← fillTransactions medianSize maxTotalSize rest t totalSize fee
    let (ready, checkInfo) ← readyFromCache currency p chain txd
    modify (setCheckInfo txd.id checkInfo)
    let chosen := if ready then t.addTransaction txd.id txd.tx else none
    match chosen with
    | some t =>
      fillTransactions medianSize maxTotalSize rest t (totalSize + txd.blobSize) (fee + txd.fee)
    | none => fillTransactions medianSize maxTotalSize rest t totalSize fee

/--
`fill_block_template(bl, median_size, maxCumulativeSize, ...)`: the ids for the template's
`transactionHashes`, their total size and their fee. Zero-fee transactions are taken first from the
cheapest end, then the whole fee index is walked again. The size limit for paying transactions is
`min(125% of the median, maxCumulativeSize)` less the coinbase reserve, in `size_t`.
-/
def fillBlockTemplate (medianSize maxCumulativeSize : UInt64) :
    PoolM (List Hash × UInt64 × UInt64) := do
  let maxTotalSize :=
    min (125 * medianSize / 100) maxCumulativeSize - UInt64.ofNat currency.minerTxBlobReservedSize
  let pool ← get
  let (t, totalSize) ← PoolM.ofExcept
    (fillFusionTransactions currency p chain pool.ttlIndex pool.feeIndex.reverse BlockTemplate.empty 0)
  let (t, totalSize, fee) ←
    fillTransactions currency p chain medianSize maxTotalSize (← get).feeIndex t totalSize 0
  return (t.txHashes, totalSize, fee)

end TxMemoryPool

end CryptoNote
