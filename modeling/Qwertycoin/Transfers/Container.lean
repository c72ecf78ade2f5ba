import Mathlib
import Qwertycoin.Core.Currency
import Qwertycoin.Lib.IndexedList
import Qwertycoin.Lib.StateRun

/-!
The wallet's `TransfersContainer` of `Transfers/TransfersContainer.cpp`: the transactions of one
account, the outputs of them that are the account's (its transfers) sorted into unconfirmed,
available and spent ones, and, among the transfers that share a key image, the one that is shown.

The boost multi-index containers are lists in insertion order. A lookup by an index is a filter of
the list; an index unique by a key inserts with `List.insertUnique`; a loop that erases the range it
walks erases, each round, the first element of the list still in the range. An exception is an
`EStateM` error, which carries the state the container is in when it is thrown.
-/

namespace CryptoNote

namespace TransactionTypes

/-- `TransactionTypes::OutputType`, for the outputs a container holds. -/
inductive OutputType where
  | key
  | multisignature
deriving DecidableEq, Repr

end TransactionTypes

open TransactionTypes

/-- `WALLET_LEGACY_UNCONFIRMED_TRANSACTION_HEIGHT`: the height of a transaction still in the pool. -/
def WALLET_LEGACY_UNCONFIRMED_TRANSACTION_HEIGHT : UInt32 := 0xFFFFFFFF

/-- `UNCONFIRMED_TRANSACTION_GLOBAL_OUTPUT_INDEX`: the global index of an output still in the pool. -/
def UNCONFIRMED_TRANSACTION_GLOBAL_OUTPUT_INDEX : UInt32 := 0xFFFFFFFF

/-- `TransactionBlockInfo`: the block of a transaction and its place in the block. -/
structure TransactionBlockInfo where
  height : UInt32
  timestamp : UInt64
  transactionIndex : UInt32
deriving DecidableEq, Repr

/-- `TransactionInformation`: the record the container keeps of a transaction. -/
structure TransactionInformation where
  transactionHash : Hash
  publicKey : PublicKey
  blockHeight : UInt32
  timestamp : UInt64
  unlockTime : UInt64
  totalAmountIn : UInt64
  totalAmountOut : UInt64
  extra : List UInt8
  paymentId : Hash
deriving DecidableEq, Repr

/-- `TransactionOutputInformationIn`: an output of the account, as the consumer hands it over. The
key image is meaningful for a key output only. -/
structure TransactionOutputInformationIn where
  type : OutputType
  amount : UInt64
  globalOutputIndex : UInt32
  outputInTransaction : UInt32
  keyImage : KeyImage
deriving DecidableEq, Repr

/-- `TransactionOutputInformationEx`: a stored transfer, with its transaction and whether it is
the one of its key image that is shown. -/
structure TransactionOutputInformationEx extends TransactionOutputInformationIn where
  transactionHash : Hash
  unlockTime : UInt64
  blockHeight : UInt32
  transactionIndex : UInt32
  visible : Bool
deriving DecidableEq, Repr

/-- `SpentTransactionOutput`: a spent transfer, with the transaction that spends it. -/
structure SpentTransactionOutput extends TransactionOutputInformationEx where
  spendingBlock : TransactionBlockInfo
  spendingTransactionHash : Hash
  inputInTransaction : UInt32
deriving DecidableEq, Repr

/-- What the container reads of a transaction through `ITransactionReader`; `paymentId` is `none`
where `getPaymentId` fails. -/
structure ITransactionReader where
  transactionHash : Hash
  transactionPublicKey : PublicKey
  unlockTime : UInt64
  inputTotalAmount : UInt64
  outputTotalAmount : UInt64
  extra : List UInt8
  paymentId : Option Hash
  inputs : List TransactionInput
deriving DecidableEq, Repr

/-- `SpentOutputDescriptor`: what two transfers spend alike share, the key image of a key output,
the amount and global index of a multisignature one. -/
inductive SpentOutputDescriptor where
  | key (keyImage : KeyImage)
  | multisignature (amount : UInt64) (globalOutputIndex : UInt32)
deriving DecidableEq, Repr

/-- `SpentOutputDescriptor(transactionInfo)`. -/
def TransactionOutputInformationIn.getSpentOutputDescriptor (info : TransactionOutputInformationIn) :
    SpentOutputDescriptor :=
  match info.type with
  | .key => .key info.keyImage
  | .multisignature => .multisignature info.amount info.globalOutputIndex

/-- The exceptions the container throws, `std::invalid_argument` and `std::runtime_error`, with
their messages. -/
inductive Exception where
  | invalidArgument (message : String)
  | runtimeError (message : String)
deriving DecidableEq, Repr

/-- The state of a `TransfersContainer`: `m_transactions`, unique by hash; the three transfer
containers, the spent one unique by descriptor; `m_safeTxes`; and `m_currentHeight`. -/
structure TransfersContainer where
  transactions : List TransactionInformation
  unconfirmedTransfers : List TransactionOutputInformationEx
  availableTransfers : List TransactionOutputInformationEx
  spentTransfers : List SpentTransactionOutput
  safeTxes : List Hash
  currentHeight : UInt32
deriving DecidableEq, Repr

namespace TransfersContainer

/-- A container operation that may throw. -/
abbrev ContainerM := EStateM Exception TransfersContainer

/-- A new container: nothing stored, `m_currentHeight(0)`. -/
def empty : TransfersContainer := ⟨[], [], [], [], [], 0⟩

/-! ### Visibility -/

/-- Whether a transfer is in the range `SpentOutputDescriptor(&keyImage)` finds: a key output of
that key image. -/
def hasKeyImage (keyImage : KeyImage) (t : TransactionOutputInformationEx) : Bool :=
  t.getSpentOutputDescriptor == .key keyImage

/-- `TransferIteratorList::lessTIterator`: earlier in the chain, by block and then by place in the
block. -/
def lessTIterator (a b : TransactionOutputInformationEx) : Bool :=
  a.blockHeight < b.blockHeight ||
    (a.blockHeight == b.blockHeight && a.transactionIndex < b.transactionIndex)

/-- `updateVisibility(collection, range, visible)`: set the flag of every transfer in the range. -/
def updateVisibility (inRange : TransactionOutputInformationEx → Bool) (visible : Bool)
    (collection : List TransactionOutputInformationEx) : List TransactionOutputInformationEx :=
  collection.map fun t => if inRange t then { t with visible := visible } else t

/-- `updateTransfersVisibility(keyImage)`: of the transfers of a key image, show the spent one if
there is one; else the earliest available one; else the unconfirmed one if it is alone. -/
def updateTransfersVisibility (keyImage : KeyImage) (s : TransfersContainer) : TransfersContainer :=
  let inRange := hasKeyImage keyImage
  let unconfirmedCount := (s.unconfirmedTransfers.filter inRange).length
  let availableCount := (s.availableTransfers.filter inRange).length
  let spentCount := (s.spentTransfers.filter fun t => inRange t.toTransactionOutputInformationEx).length
  if 0 < spentCount then
    { s with
      unconfirmedTransfers := updateVisibility inRange false s.unconfirmedTransfers
      availableTransfers := updateVisibility inRange false s.availableTransfers
      spentTransfers := s.spentTransfers.map fun t =>
        if inRange t.toTransactionOutputInformationEx then { t with visible := true } else t }
  else if 0 < availableCount then
    let hidden := updateVisibility inRange false s.availableTransfers
    { s with
      unconfirmedTransfers := updateVisibility inRange false s.unconfirmedTransfers
      -- The iterator list is built after the range was hidden; its first smallest element is
      -- the first element of the list equal to it.
      availableTransfers :=
        match (hidden.filter inRange).minElement lessTIterator with
        | some earliest => hidden.replace earliest { earliest with visible := true }
        | none => hidden }
  else
    { s with
      unconfirmedTransfers :=
        updateVisibility inRange (unconfirmedCount == 1) s.unconfirmedTransfers }

/-- What the container does after it moves a transfer: `if (type == Key)
updateTransfersVisibility(keyImage)`. -/
def updateVisibilityOf (t : TransactionOutputInformationEx) (s : TransfersContainer) :
    TransfersContainer :=
  match t.type with
  | .key => s.updateTransfersVisibility t.keyImage
  | .multisignature => s

@[simp] theorem transactions_updateTransfersVisibility (keyImage : KeyImage)
    (s : TransfersContainer) : (s.updateTransfersVisibility keyImage).transactions = s.transactions := by
  unfold updateTransfersVisibility
  dsimp only
  split
  · rfl
  split <;> rfl

@[simp] theorem transactions_updateVisibilityOf (t : TransactionOutputInformationEx)
    (s : TransfersContainer) : (updateVisibilityOf t s).transactions = s.transactions := by
  unfold updateVisibilityOf
  split
  · exact transactions_updateTransfersVisibility _ _
  · rfl

/-! ### Moving transfers -/

/-- `copyToSpent(block, tx, inputIndex, output)`: the spent record of `output`, added unless the
unique index already holds its descriptor. -/
def copyToSpent (block : TransactionBlockInfo) (tx : ITransactionReader) (inputIndex : Nat)
    (output : TransactionOutputInformationEx) (spent : List SpentTransactionOutput) :
    List SpentTransactionOutput :=
  spent.insertUnique (fun t => t.getSpentOutputDescriptor)
    { toTransactionOutputInformationEx := output, spendingBlock := block,
      spendingTransactionHash := tx.transactionHash, inputInTransaction := UInt32.ofNat inputIndex }

/-- An input spends `output`: `copyToSpent`, the output erased from the available ones, and its key
image's visibility redone (nothing to redo for a multisignature output). -/
def spendTransfer (block : TransactionBlockInfo) (tx : ITransactionReader) (inputIndex : Nat)
    (output : TransactionOutputInformationEx) (s : TransfersContainer) : TransfersContainer :=
  updateVisibilityOf output
    { s with
      spentTransfers := copyToSpent block tx inputIndex output s.spentTransfers
      availableTransfers := s.availableTransfers.erase output }

/-- One round of `deleteTransactionTransfers`' first loop: the first transfer the transaction
spends goes back to the available ones. -/
def restoreSpentTransfer (transactionHash : Hash) (s : TransfersContainer) : TransfersContainer :=
  match s.spentTransfers.find? (·.spendingTransactionHash == transactionHash) with
  | some t =>
    updateVisibilityOf t.toTransactionOutputInformationEx
      { s with
        availableTransfers := s.availableTransfers ++ [t.toTransactionOutputInformationEx]
        spentTransfers := s.spentTransfers.eraseP (·.spendingTransactionHash == transactionHash) }
  | none => s

/-- One round of `deleteTransactionTransfers`' second loop: erase the first unconfirmed transfer of
the transaction. -/
def eraseUnconfirmedTransfer (transactionHash : Hash) (s : TransfersContainer) :
    TransfersContainer :=
  match s.unconfirmedTransfers.find? (·.transactionHash == transactionHash) with
  | some t =>
    updateVisibilityOf t
      { s with
        unconfirmedTransfers :=
          s.unconfirmedTransfers.eraseP (·.transactionHash == transactionHash) }
  | none => s

/-- One round of `deleteTransactionTransfers`' third loop: erase the first available transfer of
the transaction. -/
def eraseAvailableTransfer (transactionHash : Hash) (s : TransfersContainer) :
    TransfersContainer :=
  match s.availableTransfers.find? (·.transactionHash == transactionHash) with
  | some t =>
    updateVisibilityOf t
      { s with
        availableTransfers := s.availableTransfers.eraseP (·.transactionHash == transactionHash) }
  | none => s

/-- `deleteTransactionTransfers(transactionHash)`: return what the transaction spends to the
available transfers, then erase its unconfirmed and its available transfers; each loop runs once
per element of its range. -/
def deleteTransactionTransfers (transactionHash : Hash) (s : TransfersContainer) :
    TransfersContainer :=
  let s := (restoreSpentTransfer transactionHash)^[(s.spentTransfers.filter
    (·.spendingTransactionHash == transactionHash)).length] s
  let s := (eraseUnconfirmedTransfer transactionHash)^[(s.unconfirmedTransfers.filter
    (·.transactionHash == transactionHash)).length] s
  (eraseAvailableTransfer transactionHash)^[(s.availableTransfers.filter
    (·.transactionHash == transactionHash)).length] s

/-! ### Adding transactions -/

section Add

variable (block : TransactionBlockInfo) (tx : ITransactionReader)

/-- One transfer of `addTransactionOutputs`: checked against the transaction's state and against the
stored transfers, stored, and its key image's visibility redone. -/
def addTransactionOutput (transfer : TransactionOutputInformationIn) : ContainerM Unit := do
  let transactionIsUnconfimed := block.height == WALLET_LEGACY_UNCONFIRMED_TRANSACTION_HEIGHT
  let transferIsUnconfirmed :=
    transfer.globalOutputIndex == UNCONFIRMED_TRANSACTION_GLOBAL_OUTPUT_INDEX
  if transactionIsUnconfimed != transferIsUnconfirmed then
    throw (.invalidArgument "Failed to add transaction output: globalOutputIndex is invalid")
  let info : TransactionOutputInformationEx :=
    { toTransactionOutputInformationIn := transfer, blockHeight := block.height,
      transactionIndex := block.transactionIndex, unlockTime := tx.unlockTime,
      transactionHash := tx.transactionHash, visible := true }
  let s ← get
  if transferIsUnconfirmed then
    set (updateVisibilityOf info
      { s with unconfirmedTransfers := s.unconfirmedTransfers ++ [info] })
  else
    let descriptor := info.getSpentOutputDescriptor
    match info.type with
    | .key =>
      -- The same output of the same transaction, among the transfers of its key image.
      let sameOutput (t : TransactionOutputInformationEx) :=
        t.getSpentOutputDescriptor == descriptor && t.transactionHash == info.transactionHash &&
          t.outputInTransaction == info.outputInTransaction
      if s.availableTransfers.any sameOutput ||
          s.spentTransfers.any (fun t => sameOutput t.toTransactionOutputInformationEx) then
        throw (.runtimeError "Failed to add transaction output: key output already exists")
    | .multisignature =>
      if s.availableTransfers.any (·.getSpentOutputDescriptor == descriptor) ||
          s.spentTransfers.any (·.getSpentOutputDescriptor == descriptor) then
        throw (.runtimeError
          "Failed to add transaction output: multisignature output already exists")
    set (updateVisibilityOf info { s with availableTransfers := s.availableTransfers ++ [info] })

/-- `addTransactionOutputs(block, tx, transfers)`: add each transfer; whether there was one. -/
def addTransactionOutputs : List TransactionOutputInformationIn → ContainerM Bool
  | [] => pure false
  | transfer :: transfers => do
    addTransactionOutput block tx transfer
    let _ ← addTransactionOutputs transfers
    pure true

/-- The input `inputIndex` of `addTransactionInputs`: a key input spends the earliest available
transfer of its key image and amount, a multisignature input the available transfer of its amount
and index; whether it spent one. -/
def addTransactionInput (inputIndex : Nat) : TransactionInput → ContainerM Bool
  | .key input => do
    let s ← get
    let inRange := hasKeyImage input.keyImage
    if 0 < (s.spentTransfers.filter fun t => inRange t.toTransactionOutputInformationEx).length then
      throw (.runtimeError "Failed add key input: key image already spent")
    let availableRange := s.availableTransfers.filter inRange
    if availableRange.length = 0 then
      if 0 < (s.unconfirmedTransfers.filter inRange).length then
        throw (.runtimeError "Failed to add key input: spend output of unconfirmed transaction")
      else
        -- This input doesn't spend any transfer from this container.
        return false
    -- `iteratorList.sort()` by `lessTIterator`, then `findFirstByAmount`.
    let sorted := availableRange.mergeSort fun a b => !lessTIterator b a
    match sorted.find? (·.amount == input.amount) with
    | none => throw (.runtimeError "Failed to add key input: invalid amount")
    | some spendingTransfer =>
      modify (spendTransfer block tx inputIndex spendingTransfer)
      return true
  | .multisignature input => do
    let s ← get
    match s.availableTransfers.find?
        (·.getSpentOutputDescriptor == .multisignature input.amount input.outputIndex) with
    | some availableOutput =>
      modify (spendTransfer block tx inputIndex availableOutput)
      return true
    | none => return false
  | .base _ => return false

/-- `addTransactionInputs(block, tx)`: every input from `inputIndex` on; whether one spent a
transfer. -/
def addTransactionInputs : Nat → List TransactionInput → ContainerM Bool
  | _, [] => pure false
  | inputIndex, input :: inputs => do
    let inputAdded ← addTransactionInput block tx inputIndex input
    let inputsAdded ← addTransactionInputs (inputIndex + 1) inputs
    pure (inputAdded || inputsAdded)

/-- The private `addTransaction(block, tx)`: record the transaction. -/
def addTransactionInformation (s : TransfersContainer) : TransfersContainer :=
  { s with
    transactions := s.transactions.insertUnique (·.transactionHash)
      { transactionHash := tx.transactionHash, publicKey := tx.transactionPublicKey,
        blockHeight := block.height, timestamp := block.timestamp, unlockTime := tx.unlockTime,
        totalAmountIn := tx.inputTotalAmount, totalAmountOut := tx.outputTotalAmount,
        extra := tx.extra, paymentId := tx.paymentId.getD NULL_HASH } }

/-- Whether the container records a transaction of this hash. -/
def hasTransaction (transactionHash : Hash) (s : TransfersContainer) : Bool :=
  s.transactions.any (·.transactionHash == transactionHash)

/-- `addTransaction(block, tx, transfers)`: add the transaction's transfers and what its inputs
spend, and record it if either did. An exception thrown before the transaction is recorded first
deletes its transfers, then goes on. -/
def addTransaction (transfers : List TransactionOutputInformationIn) : ContainerM Bool :=
  tryCatch
    (do
      let s ← get
      if block.height < s.currentHeight then
        throw (.invalidArgument "Failed to add transaction: block index < m_currentHeight")
      if hasTransaction tx.transactionHash s then
        throw (.invalidArgument "Transaction is already added")
      let outputsAdded ← addTransactionOutputs block tx transfers
      let inputsAdded ← addTransactionInputs block tx 0 tx.inputs
      let added := outputsAdded || inputsAdded
      if added then
        modify (addTransactionInformation block tx)
      if block.height != WALLET_LEGACY_UNCONFIRMED_TRANSACTION_HEIGHT then
        modify fun s => { s with currentHeight := block.height }
      pure added)
    fun e => do
      let s ← get
      if !hasTransaction tx.transactionHash s then
        modify (deleteTransactionTransfers tx.transactionHash)
      throw e

end Add

/-! ### Confirming and deleting transactions -/

/-- One round of `markTransactionConfirmed`'s loop over the transaction's unconfirmed transfers:
the first one gets the block and its global index, is checked, and moves to the available ones. -/
def confirmTransfer (block : TransactionBlockInfo) (transactionHash : Hash)
    (globalIndices : List UInt32) : ContainerM Unit := do
  let s ← get
  match s.unconfirmedTransfers.find? (·.transactionHash == transactionHash) with
  | none => pure ()
  | some transfer =>
    if globalIndices.length ≤ transfer.outputInTransaction.toNat then
      throw (.invalidArgument
        "Failed to confirm transaction: not enough elements in globalIndices")
    let transfer :=
      { transfer with
        blockHeight := block.height, transactionIndex := block.transactionIndex,
        globalOutputIndex := globalIndices[transfer.outputInTransaction.toNat]! }
    if transfer.type = .multisignature then
      let descriptor := transfer.getSpentOutputDescriptor
      if s.availableTransfers.any (·.getSpentOutputDescriptor == descriptor) ||
          s.spentTransfers.any (·.getSpentOutputDescriptor == descriptor) then
        throw (.runtimeError
          "Failed to confirm transaction: multisignature output already exists")
    set (updateVisibilityOf transfer
      { s with
        availableTransfers := s.availableTransfers ++ [transfer]
        unconfirmedTransfers :=
          s.unconfirmedTransfers.eraseP (·.transactionHash == transactionHash) })

/-- `markTransactionConfirmed`'s loop, once per transfer of its range. -/
def confirmTransfers (block : TransactionBlockInfo) (transactionHash : Hash)
    (globalIndices : List UInt32) : Nat → ContainerM Unit
  | 0 => pure ()
  | rounds + 1 => do
    confirmTransfer block transactionHash globalIndices
    confirmTransfers block transactionHash globalIndices rounds

/-- The records after `transaction` gets the block's height and time. `m_transactions.modify`
relinks the record in the height index after the records already at its new height, and the record
list keeps that order for `detach`. -/
def confirmedRecords (block : TransactionBlockInfo) (transaction : TransactionInformation)
    (transactions : List TransactionInformation) : List TransactionInformation :=
  transactions.filter (·.transactionHash != transaction.transactionHash) ++
    [{ transaction with blockHeight := block.height, timestamp := block.timestamp }]

/-- `markTransactionConfirmed(block, transactionHash, globalIndices)`: give an unconfirmed
transaction its block, then its transfers, then the spent records of what it spends. -/
def markTransactionConfirmed (block : TransactionBlockInfo) (transactionHash : Hash)
    (globalIndices : List UInt32) : ContainerM Bool := do
  if block.height = WALLET_LEGACY_UNCONFIRMED_TRANSACTION_HEIGHT then
    throw (.invalidArgument "Failed to confirm transaction: block height is unconfirmed")
  let s ← get
  match s.transactions.find? (·.transactionHash == transactionHash) with
  | none => return false
  | some transaction =>
    if transaction.blockHeight != WALLET_LEGACY_UNCONFIRMED_TRANSACTION_HEIGHT then
      return false
    set { s with transactions := confirmedRecords block transaction s.transactions }
    confirmTransfers block transactionHash globalIndices
      (s.unconfirmedTransfers.filter (·.transactionHash == transactionHash)).length
    modify fun s => { s with
      spentTransfers := s.spentTransfers.map fun t =>
        if t.spendingTransactionHash == transactionHash then { t with spendingBlock := block }
        else t }
    return true

/-- Erase the record of a transaction. -/
def eraseTransaction (transactionHash : Hash) (s : TransfersContainer) : TransfersContainer :=
  { s with transactions := s.transactions.eraseP (·.transactionHash == transactionHash) }

/-- `deleteUnconfirmedTransaction(transactionHash)`: forget an unconfirmed transaction and its
transfers. -/
def deleteUnconfirmedTransaction (transactionHash : Hash) : ContainerM Bool := do
  let s ← get
  match s.transactions.find? (·.transactionHash == transactionHash) with
  | none => return false
  | some transaction =>
    if transaction.blockHeight != WALLET_LEGACY_UNCONFIRMED_TRANSACTION_HEIGHT then
      return false
    set (eraseTransaction transactionHash (deleteTransactionTransfers transactionHash s))
    return true

/-- The transactions in the order `detach` walks them: down the height index. Records of one height
stand in the order they took it, added by `addTransaction` or moved last by `confirmedRecords`,
which is the record list's order. -/
def detachOrder (transactions : List TransactionInformation) : List TransactionInformation :=
  (transactions.mergeSort fun a b => a.blockHeight ≤ b.blockHeight).reverse

/-- The loop of `detach(height)` from the transaction `transactions` starts with, with the hashes
deleted so far: an unconfirmed transaction goes when it spends a transfer from `height` on, a
confirmed one when it is from `height` on, and the first earlier confirmed one ends the walk. -/
def detachLoop (height : UInt32) :
    List TransactionInformation → List Hash → TransfersContainer → List Hash × TransfersContainer
  | [], deleted, s => (deleted, s)
  | transaction :: transactions, deleted, s =>
    let doDelete :=
      if transaction.blockHeight = WALLET_LEGACY_UNCONFIRMED_TRANSACTION_HEIGHT then
        some (s.spentTransfers.any fun t =>
          t.spendingTransactionHash == transaction.transactionHash && height ≤ t.blockHeight)
      else if height ≤ transaction.blockHeight then some true
      else none
    match doDelete with
    | none => (deleted, s)
    | some false => detachLoop height transactions deleted s
    | some true =>
      detachLoop height transactions (deleted ++ [transaction.transactionHash])
        (eraseTransaction transaction.transactionHash
          (deleteTransactionTransfers transaction.transactionHash s))

/-- `detach(height)`: delete what the blocks from `height` on brought, and the unconfirmed
transactions that spend it; the hashes deleted. -/
def detach (height : UInt32) : ContainerM (List Hash) := do
  let s ← get
  let (deletedTransactions, s) := detachLoop height (detachOrder s.transactions) [] s
  set { s with currentHeight := if height = 0 then 0 else height - 1 }
  return deletedTransactions

/-- `advanceHeight(height)`: move the current height up, never down. -/
def advanceHeight (height : UInt32) : ContainerM Bool := do
  let s ← get
  if s.currentHeight ≤ height then
    set { s with currentHeight := height }
    return true
  return false

/-- `markTransactionSafe(transactionHash)`: insert into the set `m_safeTxes`. -/
def markTransactionSafe (transactionHash : Hash) : ContainerM Unit :=
  modify fun s => { s with safeTxes := s.safeTxes.insertUnique id transactionHash }

/-! ### Saving and loading -/

/-- `TRANSFERS_CONTAINER_STORAGE_VERSION`. -/
def TRANSFERS_CONTAINER_STORAGE_VERSION : UInt32 := 0

/-- What `save` writes, in order: the version, the height, and the four containers. -/
structure Snapshot where
  version : UInt32
  currentHeight : UInt32
  transactions : List TransactionInformation
  unconfirmedTransfers : List TransactionOutputInformationEx
  availableTransfers : List TransactionOutputInformationEx
  spentTransfers : List SpentTransactionOutput
deriving DecidableEq, Repr

/-- `save(os)`. -/
def save (s : TransfersContainer) : Snapshot :=
  ⟨TRANSFERS_CONTAINER_STORAGE_VERSION, s.currentHeight, s.transactions, s.unconfirmedTransfers,
    s.availableTransfers, s.spentTransfers⟩

/-- One round of `repair`'s first loop: the first transfer spent by a transaction the container
does not record goes back to the available ones. -/
def repairOrphanInput (s : TransfersContainer) : TransfersContainer :=
  let orphan (t : SpentTransactionOutput) := !hasTransaction t.spendingTransactionHash s
  match s.spentTransfers.find? orphan with
  | some t =>
    updateVisibilityOf t.toTransactionOutputInformationEx
      { s with
        availableTransfers := s.availableTransfers ++ [t.toTransactionOutputInformationEx]
        spentTransfers := s.spentTransfers.eraseP orphan }
  | none => s

/-- One round of `repair`'s second loop: erase the first unconfirmed transfer of a transaction the
container does not record. -/
def repairOrphanUnconfirmedOutput (s : TransfersContainer) : TransfersContainer :=
  let orphan (t : TransactionOutputInformationEx) := !hasTransaction t.transactionHash s
  match s.unconfirmedTransfers.find? orphan with
  | some t => updateVisibilityOf t { s with unconfirmedTransfers := s.unconfirmedTransfers.eraseP orphan }
  | none => s

/-- One round of `repair`'s third loop: erase the first available transfer of a transaction the
container does not record. -/
def repairOrphanOutput (s : TransfersContainer) : TransfersContainer :=
  let orphan (t : TransactionOutputInformationEx) := !hasTransaction t.transactionHash s
  match s.availableTransfers.find? orphan with
  | some t => updateVisibilityOf t { s with availableTransfers := s.availableTransfers.eraseP orphan }
  | none => s

/-- `repair()`: drop what belongs to no recorded transaction, each loop once per orphan. -/
def repair (s : TransfersContainer) : TransfersContainer :=
  let s := repairOrphanInput^[(s.spentTransfers.filter
    fun t => !hasTransaction t.spendingTransactionHash s).length] s
  let s := repairOrphanUnconfirmedOutput^[(s.unconfirmedTransfers.filter
    fun t => !hasTransaction t.transactionHash s).length] s
  repairOrphanOutput^[(s.availableTransfers.filter
    fun t => !hasTransaction t.transactionHash s).length] s

/-- `load(in)`: read a snapshot into fresh containers, the unique ones keeping the first of each
key, take them over, and repair; `m_safeTxes` stays. -/
def load (snapshot : Snapshot) : ContainerM Unit := do
  if TRANSFERS_CONTAINER_STORAGE_VERSION < snapshot.version then
    throw (.runtimeError "Failed to load: unsupported version")
  modify fun s => repair
    { s with
      currentHeight := snapshot.currentHeight
      transactions := snapshot.transactions.foldl (List.insertUnique (·.transactionHash)) []
      unconfirmedTransfers := snapshot.unconfirmedTransfers
      availableTransfers := snapshot.availableTransfers
      spentTransfers :=
        snapshot.spentTransfers.foldl (List.insertUnique (·.getSpentOutputDescriptor)) [] }

/-! ### Queries -/

/-- `IncludeStateUnlocked` of `ITransfersContainer::Flags`. -/
def IncludeStateUnlocked : UInt32 := 0x01
/-- `IncludeStateLocked`. -/
def IncludeStateLocked : UInt32 := 0x02
/-- `IncludeStateSoftLocked`. -/
def IncludeStateSoftLocked : UInt32 := 0x04
/-- `IncludeTypeKey`. -/
def IncludeTypeKey : UInt32 := 0x100
/-- `IncludeTypeMultisignature`. -/
def IncludeTypeMultisignature : UInt32 := 0x200

section Queries

variable (currency : Currency) (transactionSpendableAge safeTransactionSpendableAge : Nat)
  (now : UInt64)

/-- `isSpendTimeUnlocked(unlockTime)`: an unlock time below `maxBlockHeight` is a height, any
other a time, `now` standing for `time(nullptr)`. -/
def isSpendTimeUnlocked (s : TransfersContainer) (unlockTime : UInt64) : Bool :=
  if unlockTime < currency.maxBlockHeight then
    unlockTime ≤ s.currentHeight.toUInt64 + currency.lockedTxAllowedDeltaBlocks.toUInt64
  else
    unlockTime ≤ now + currency.lockedTxAllowedDeltaSeconds

/-- The static `isIncluded(type, state, flags)`: the flags name the type and the state. -/
def isIncludedState (type : OutputType) (state flags : UInt32) : Bool :=
  ((flags &&& IncludeTypeKey != 0 && type == .key) ||
    (flags &&& IncludeTypeMultisignature != 0 && type == .multisignature)) &&
  (flags &&& state != 0)

/-- `isIncluded(info, flags)`: the state of a transfer, from its height and unlock time, and whether
the flags include it; a safe transaction found fully unlocked leaves `m_safeTxes`. -/
def isIncluded (s : TransfersContainer) (info : TransactionOutputInformationEx) (flags : UInt32) :
    Bool × List Hash :=
  if info.blockHeight == WALLET_LEGACY_UNCONFIRMED_TRANSACTION_HEIGHT ||
      !isSpendTimeUnlocked currency now s info.unlockTime then
    (isIncludedState info.type IncludeStateLocked flags, s.safeTxes)
  else if s.currentHeight.toUInt64 < info.blockHeight.toUInt64 + transactionSpendableAge.toUInt64
  then
    -- `info.blockHeight - 1` is 32-bit arithmetic before the sum widens.
    let state :=
      if info.transactionHash ∈ s.safeTxes ∧
          (info.blockHeight - 1).toUInt64 + safeTransactionSpendableAge.toUInt64 ≤
            s.currentHeight.toUInt64 then IncludeStateUnlocked
      else IncludeStateSoftLocked
    (isIncludedState info.type state flags, s.safeTxes)
  else
    (isIncludedState info.type IncludeStateUnlocked flags, s.safeTxes.erase info.transactionHash)

/-- One round of the first loop `balance(flags)` and `getOutputs(flags)` share: an available
transfer is taken in by `step` when it is visible and the flags include it; `m_safeTxes` goes on
from one test to the next. -/
def includeAvailable {β : Type} (step : β → TransactionOutputInformationEx → β) (flags : UInt32)
    (s : TransfersContainer) (state : β × List Hash) (t : TransactionOutputInformationEx) :
    β × List Hash :=
  if t.visible then
    let (included, safeTxes) :=
      isIncluded currency transactionSpendableAge safeTransactionSpendableAge now
        { s with safeTxes := state.2 } t flags
    (if included then step state.1 t else state.1, safeTxes)
  else state

/-- One round of the second loop: an unconfirmed transfer is taken in when it is visible and the
flags name its type. -/
def includeUnconfirmed {β : Type} (step : β → TransactionOutputInformationEx → β)
    (flags : UInt32) (acc : β) (t : TransactionOutputInformationEx) : β :=
  if t.visible && isIncludedState t.type IncludeStateLocked flags then step acc t else acc

/-- The loops `balance(flags)` and `getOutputs(flags)` share: the available transfers, then, when
the flags name locked transfers, the unconfirmed ones. -/
def foldIncluded {β : Type} (step : β → TransactionOutputInformationEx → β) (init : β)
    (flags : UInt32) (s : TransfersContainer) : β × List Hash :=
  let (acc, safeTxes) := s.availableTransfers.foldl
    (includeAvailable currency transactionSpendableAge safeTransactionSpendableAge now step flags s)
    (init, s.safeTxes)
  let acc :=
    if flags &&& IncludeStateLocked != 0 then
      s.unconfirmedTransfers.foldl (includeUnconfirmed step flags) acc
    else acc
  (acc, safeTxes)

/-- `balance(flags)`: the sum of the amounts of the transfers the flags include. -/
def balance (flags : UInt32) : ContainerM UInt64 := do
  let s ← get
  let (amount, safeTxes) :=
    foldIncluded currency transactionSpendableAge safeTransactionSpendableAge now
      (fun amount t => amount + t.amount) 0 flags s
  set { s with safeTxes := safeTxes }
  return amount

/-- `getOutputs(transfers, flags)`: the transfers the flags include. -/
def getOutputs (flags : UInt32) : ContainerM (List TransactionOutputInformationEx) := do
  let s ← get
  let (transfers, safeTxes) :=
    foldIncluded currency transactionSpendableAge safeTransactionSpendableAge now
      (fun transfers t => transfers ++ [t]) [] flags s
  set { s with safeTxes := safeTxes }
  return transfers

/-! ### Runs -/

/-- A call on the container's interface that may change it; `now` is the clock of a query. -/
inductive Call where
  | addTransaction (block : TransactionBlockInfo) (tx : ITransactionReader)
      (transfers : List TransactionOutputInformationIn)
  | deleteUnconfirmedTransaction (transactionHash : Hash)
  | markTransactionConfirmed (block : TransactionBlockInfo) (transactionHash : Hash)
      (globalIndices : List UInt32)
  | detach (height : UInt32)
  | advanceHeight (height : UInt32)
  | markTransactionSafe (transactionHash : Hash)
  | balance (now : UInt64) (flags : UInt32)
  | getOutputs (now : UInt64) (flags : UInt32)

/-- Make a call, whatever it returns. -/
def run : Call → ContainerM Unit
  | .addTransaction block tx transfers => discard (addTransaction block tx transfers)
  | .deleteUnconfirmedTransaction transactionHash =>
    discard (deleteUnconfirmedTransaction transactionHash)
  | .markTransactionConfirmed block transactionHash globalIndices =>
    discard (markTransactionConfirmed block transactionHash globalIndices)
  | .detach height => discard (detach height)
  | .advanceHeight height => discard (advanceHeight height)
  | .markTransactionSafe transactionHash => markTransactionSafe transactionHash
  | .balance now flags =>
    discard (balance currency transactionSpendableAge safeTransactionSpendableAge now flags)
  | .getOutputs now flags =>
    discard (getOutputs currency transactionSpendableAge safeTransactionSpendableAge now flags)

/-- The states a container reaches from a new one by calls that return or throw, and by loading
what another reachable container saved. -/
inductive Reachable : TransfersContainer → Prop
  | empty : Reachable empty
  | call {s : TransfersContainer} (call : Call) :
      Reachable s → Reachable ((run currency transactionSpendableAge safeTransactionSpendableAge
        call).run s).state
  | load {s saved : TransfersContainer} :
      Reachable s → Reachable saved → Reachable ((load (save saved)).run s).state

end Queries

end TransfersContainer

end CryptoNote
