import Qwertycoin.Core.Blockchain.State

/-! `pushTransaction`, `popTransaction` and `popTransactions`: how a stored transaction enters and
leaves the four indexes of the chain. -/

namespace CryptoNote

namespace Blockchain

/-- Erase the key images of the inputs given, last input first, as the rollback loop of
`pushTransaction` does; an earlier input that is not a ring input makes `boost::get` throw. -/
def eraseKeyImagesOf : List TransactionInput → BlockchainM Unit
  | [] => pure ()
  | .key input :: earlier => do
    modify fun s => { s with spentKeys := Function.update s.spentKeys input.keyImage false }
    eraseKeyImagesOf earlier
  | _ :: _ => throw .badGet

/--
The key-image loop of `pushTransaction`. `done` holds the inputs already passed, most recent first.
A fresh image is inserted; an image already spent undoes the earlier inputs and reports `false`.
-/
def spendKeyImages : (done : List TransactionInput) → List TransactionInput → BlockchainM Bool
  | _, [] => pure true
  | done, .key input :: rest => do
    let s ← get
    if s.spentKeys input.keyImage then
      eraseKeyImagesOf done
      pure false
    else
      set { s with spentKeys := Function.update s.spentKeys input.keyImage true }
      spendKeyImages (.key input :: done) rest
  | done, other :: rest => spendKeyImages (other :: done) rest

/-- Mark the outputs a transaction's multisignature inputs spend as used; an index past the list
is a read outside the vector. -/
def markMultisignatureUsed (isUsed : Bool) : List TransactionInput → BlockchainM Unit
  | [] => pure ()
  | .multisignature input :: rest => do
    let s ← get
    let amountOutputs := s.multisignatureOutputs input.amount
    match amountOutputs[input.outputIndex.toNat]? with
    | none => throw .undefinedBehaviour
    | some usage =>
      let updated := amountOutputs.set input.outputIndex.toNat { usage with isUsed := isUsed }
      set { s with
        multisignatureOutputs := Function.update s.multisignatureOutputs input.amount updated }
      markMultisignatureUsed isUsed rest
  | _ :: rest => markMultisignatureUsed isUsed rest

/-- The output loop of `pushTransaction`: append each output to the list of its amount and return
the global indexes it received. -/
def pushOutputs (transactionIndex : TransactionIndex) :
    (position : Nat) → List TransactionOutput → BlockchainM (List UInt32)
  | _, [] => pure []
  | position, output :: rest => do
    let s ← get
    match output.target with
    | .key _ =>
      let amountOutputs := s.outputs output.amount
      let appended := amountOutputs ++ [(transactionIndex, UInt16.ofNat position)]
      set { s with outputs := Function.update s.outputs output.amount appended }
      let later ← pushOutputs transactionIndex (position + 1) rest
      pure (UInt32.ofNat amountOutputs.length :: later)
    | .multisignature _ =>
      let amountOutputs := s.multisignatureOutputs output.amount
      let appended := amountOutputs ++ [⟨transactionIndex, UInt16.ofNat position, false⟩]
      set { s with
        multisignatureOutputs := Function.update s.multisignatureOutputs output.amount appended }
      let later ← pushOutputs transactionIndex (position + 1) rest
      pure (UInt32.ofNat amountOutputs.length :: later)

/-- Drop a transaction id from `m_transactionMap`. -/
def eraseTransaction (transactionHash : Hash) : BlockchainM Unit :=
  modify fun s => { s with transactionMap := Function.update s.transactionMap transactionHash none }

/--
`pushTransaction`: index the transaction at `transactionIndex` of `block` under `transactionHash`.

It refuses an id already indexed, a transaction spending one multisignature output twice, and a key
image already spent; each refusal undoes what this call inserted. Otherwise the transaction's key
images are spent, its multisignature inputs marked used and its outputs given global indexes, which
are written back into the block entry.
-/
def pushTransaction (block : BlockEntry) (transactionHash : Hash)
    (transactionIndex : TransactionIndex) : BlockchainM (Bool × BlockEntry) := do
  let s ← get
  if (s.transactionMap transactionHash).isSome then return (false, block)
  let indexed := Function.update s.transactionMap transactionHash (some transactionIndex)
  set { s with transactionMap := indexed }
  let some entry := block.transactions[transactionIndex.transaction.toNat]?
    | throw .undefinedBehaviour
  if !checkMultisignatureInputsDiff entry.tx then
    eraseTransaction transactionHash
    return (false, block)
  if !(← spendKeyImages [] entry.tx.inputs) then
    eraseTransaction transactionHash
    return (false, block)
  markMultisignatureUsed true entry.tx.inputs
  let indexes ← pushOutputs transactionIndex 0 entry.tx.outputs
  let recorded := { entry with globalOutputIndexes := indexes }
  return (true, { block with
    transactions := block.transactions.set transactionIndex.transaction.toNat recorded })

/--
The output loop of `popTransaction`, last output first. An output is removed only when the last
entry of its amount is this very output; every other case is logged as broken consistency and
skipped.
-/
def popOutputs (transactionIndex : TransactionIndex) :
    List (Nat × TransactionOutput) → BlockchainM Unit
  | [] => pure ()
  | (index, output) :: rest => do
    let s ← get
    match output.target with
    | .key _ =>
      match (s.outputs output.amount).getLast? with
      | some last =>
        if last.1 = transactionIndex ∧ last.2 = UInt16.ofNat index then
          let shortened := (s.outputs output.amount).dropLast
          set { s with outputs := Function.update s.outputs output.amount shortened }
      | none => pure ()
    | .multisignature _ =>
      match (s.multisignatureOutputs output.amount).getLast? with
      | some last =>
        if !last.isUsed ∧ last.transactionIndex = transactionIndex
            ∧ last.outputIndex = UInt16.ofNat index then
          let shortened := (s.multisignatureOutputs output.amount).dropLast
          set { s with
            multisignatureOutputs := Function.update s.multisignatureOutputs output.amount shortened }
      | none => pure ()
    popOutputs transactionIndex rest

/-- The input loop of `popTransaction`: release each key image and unmark each multisignature
output. -/
def popInputs : List TransactionInput → BlockchainM Unit
  | [] => pure ()
  | .key input :: rest => do
    modify fun s => { s with spentKeys := Function.update s.spentKeys input.keyImage false }
    popInputs rest
  | .multisignature input :: rest => do
    markMultisignatureUsed false [.multisignature input]
    popInputs rest
  | .base _ :: rest => popInputs rest

/-- `popTransaction`: undo `pushTransaction`. The id is looked up with `at`, which throws when the
transaction was never indexed. -/
def popTransaction (transaction : Transaction) (transactionHash : Hash) : BlockchainM Unit := do
  let s ← get
  let some transactionIndex := s.transactionMap transactionHash | throw .outOfRange
  popOutputs transactionIndex (List.range transaction.outputs.length |>.zip transaction.outputs).reverse
  popInputs transaction.inputs
  eraseTransaction transactionHash

/-- The loop of `popTransactions`: the non-coinbase transactions of the entry, last first, each with
the id the block lists for it; a missing id is a read outside the vector. -/
def popTransactionsFrom (bl : Block) : List (Nat × TransactionEntry) → BlockchainM Unit
  | [] => pure ()
  | (position, entry) :: rest => do
    let some transactionHash := bl.transactionHashes[position]? | throw .undefinedBehaviour
    popTransaction entry.tx transactionHash
    popTransactionsFrom bl rest

/-- `popTransactions`: pop every transaction of a block entry, the coinbase last. -/
def popTransactions (block : BlockEntry) (minerTransactionHash : Hash) : BlockchainM Unit := do
  popTransactionsFrom block.bl
    (List.range (block.transactions.length - 1) |>.zip block.transactions.tail).reverse
  popTransaction block.bl.baseTransaction minerTransactionHash

end Blockchain

end CryptoNote
