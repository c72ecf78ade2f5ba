import Qwertycoin.Core.RingOffsets
import Qwertycoin.Core.Blockchain.State

/-! The input checks of `Blockchain.cpp`: unlock times, ring members, multisignature spends, and
`checkTransactionInputs`, which reads the chain and never changes it; then the overloads the memory
pool calls through `ITransactionValidator`, which also name the maximum used block. -/

namespace CryptoNote

/-- `BlockInfo`: a block named by its height and id, empty while the id is `NULL_HASH`. -/
structure BlockInfo where
  height : UInt32
  id : Hash
deriving DecidableEq, Repr

namespace BlockInfo

/-- `BlockInfo()`, and what `clear()` leaves. -/
def cleared : BlockInfo := ⟨0, NULL_HASH⟩

/-- `BlockInfo::empty`. -/
def empty (info : BlockInfo) : Bool := info.id == NULL_HASH

end BlockInfo

namespace Blockchain

variable (currency : Currency) (p : Primitives) (s : Blockchain)

/-- `getBlockTimestamp`: a read of the block at a height, outside the chain undefined. -/
def getBlockTimestamp (height : Nat) : Except Fault UInt64 :=
  match s.blocks[height]? with
  | some entry => .ok entry.bl.timestamp
  | none => .error .undefinedBehaviour

/-- `transactionByIndex`: the stored transaction an index names. -/
def transactionByIndex (index : TransactionIndex) : Except Fault Transaction :=
  match s.blocks[index.block.toNat]? with
  | some entry =>
    match entry.transactions[index.transaction.toNat]? with
    | some te => .ok te.tx
    | none => .error .undefinedBehaviour
  | none => .error .undefinedBehaviour

/-- `is_tx_spendtime_unlocked`: an unlock time below `maxBlockHeight` is a block index compared with
the tip plus `lockedTxAllowedDeltaBlocks`; a larger one is a time compared with the tip's timestamp
plus `lockedTxAllowedDeltaSeconds`. The height is `uint32_t`, so an empty chain's tip wraps. -/
def isTxSpendtimeUnlocked (unlockTime : UInt64) : Except Fault Bool :=
  if unlockTime < currency.maxBlockHeight then
    let tip := (s.getCurrentBlockchainHeight + 0xFFFFFFFF) % 2 ^ 32
    .ok (decide (unlockTime.toNat ≤ tip + currency.lockedTxAllowedDeltaBlocks))
  else do
    let lastBlockTimestamp ← s.getBlockTimestamp (s.getCurrentBlockchainHeight - 1)
    pure (decide (unlockTime ≤ lastBlockTimestamp + currency.lockedTxAllowedDeltaSeconds))

/-- The visitor of `check_tx_input` on one ring member: the output must be unlocked and be a key
output; its key is collected. -/
def handleOutput (tx : Transaction) (out : TransactionOutput) : Except Fault (Option PublicKey) := do
  if !(← s.isTxSpendtimeUnlocked currency tx.unlockTime) then return none
  match out.target with
  | .key target => pure (some target.key)
  | .multisignature _ => pure none

/-- The loop of `scanOutputKeysForIndexes` over absolute offsets: the keys of the ring members, and
the block of the last one, or `none` when a member is refused. -/
def scanOffsets (amountOutputs : List (TransactionIndex × UInt16)) :
    List UInt32 → Except Fault (Option (List PublicKey × UInt32))
  | [] => pure (some ([], 0))
  | offset :: rest => do
    let some (index, position) := amountOutputs[offset.toNat]? | return none
    let tx ← s.transactionByIndex index
    let some out := tx.outputs[position.toNat]? | return none
    let some key ← s.handleOutput currency tx out | return none
    let some (keys, lastBlock) ← scanOffsets amountOutputs rest | return none
    -- Only the last member's block is reported as the maximum related height.
    pure (some (key :: keys, if rest.isEmpty then index.block else lastBlock))

/-- `scanOutputKeysForIndexes` with the collecting visitor of `check_tx_input`. -/
def scanOutputKeysForIndexes (input : KeyInput) :
    Except Fault (Option (List PublicKey × UInt32)) :=
  let amountOutputs := s.outputs input.amount
  if amountOutputs.isEmpty ∨ input.outputIndexes.isEmpty then pure none
  else s.scanOffsets currency amountOutputs (relativeOutputOffsetsToAbsolute input.outputIndexes)

/-- `check_tx_input(txin, prefixHash, sig, pmax_related_block_height)`: whether the ring of a key
input is valid, with `*pmax_related_block_height` after the call. It is raised to the block of the
ring's last member as soon as the scan reaches it, whatever the later checks decide. -/
def checkTxInput (input : KeyInput) (prefixHash : Hash) (sig : List Signature)
    (maxUsedBlock : UInt32) : Except Fault (Bool × UInt32) := do
  if !p.keyImageInDomain input.keyImage then return (false, maxUsedBlock)
  let some (keys, lastBlock) ← s.scanOutputKeysForIndexes currency input
    | return (false, maxUsedBlock)
  let maxUsedBlock := max maxUsedBlock lastBlock
  if input.outputIndexes.length ≠ keys.length ∨ sig.length ≠ keys.length then
    return (false, maxUsedBlock)
  if s.isInCheckpointZone s.getCurrentBlockchainHeight then return (true, maxUsedBlock)
  return (p.checkRingSignature prefixHash input.keyImage keys sig, maxUsedBlock)

/-- The signature loop of `validateInput`: walk the output's keys, advancing to the next signature
each time one checks, until `count` signatures have checked or the keys run out. -/
def matchSignatures (prefixHash : Hash) (signatures : List Signature) (count : Nat) :
    (signatureIndex : Nat) → List PublicKey → Except Fault Bool
  | signatureIndex, keys =>
    if signatureIndex < count then
      match keys with
      | [] => pure false
      | key :: rest =>
        match signatures[signatureIndex]? with
        | none => .error .undefinedBehaviour
        | some sig =>
          if p.checkSignature prefixHash key sig then
            matchSignatures prefixHash signatures count (signatureIndex + 1) rest
          else matchSignatures prefixHash signatures count signatureIndex rest
    else pure true

/-- `validateInput` for a multisignature input: the output exists, is unused and unlocked, asks for
exactly as many signatures as the input carries, and that many of its keys sign in order. -/
def validateInput (input : MultisignatureInput) (prefixHash : Hash)
    (transactionSignatures : List Signature) : Except Fault Bool := do
  let some usage := (s.multisignatureOutputs input.amount)[input.outputIndex.toNat]?
    | return false
  if usage.isUsed then return false
  let outputTransaction ← s.transactionByIndex usage.transactionIndex
  if !(← s.isTxSpendtimeUnlocked currency outputTransaction.unlockTime) then return false
  let some output := outputTransaction.outputs[usage.outputIndex.toNat]?
    | .error .undefinedBehaviour
  match output.target with
  | .key _ => .error .badGet
  | .multisignature target =>
    if input.signatureCount ≠ target.requiredSignatureCount then return false
    matchSignatures p prefixHash transactionSignatures input.signatureCount.toNat 0 target.keys

/-- The input loop of `checkTransactionInputs`: each input is checked against the chain, the ring
and multisignature checks only outside the checkpoint zone. The verdict comes with
`*pmax_used_block_height` as the loop leaves it, also when an input is refused. -/
def checkInputsFrom (tx : Transaction) (prefixHash : Hash) :
    (inputIndex : Nat) → (maxUsedBlock : UInt32) → List TransactionInput →
      Except Fault (Bool × UInt32)
  | _, maxUsedBlock, [] => pure (true, maxUsedBlock)
  | inputIndex, maxUsedBlock, .key input :: rest => do
    if input.outputIndexes.isEmpty then return (false, maxUsedBlock)
    if s.spentKeys input.keyImage then return (false, maxUsedBlock)
    if s.isInCheckpointZone s.getCurrentBlockchainHeight then
      checkInputsFrom tx prefixHash (inputIndex + 1) maxUsedBlock rest
    else
      let some sig := tx.signatures[inputIndex]? | .error .undefinedBehaviour
      let (valid, maxUsedBlock) ← s.checkTxInput currency p input prefixHash sig maxUsedBlock
      if !valid then return (false, maxUsedBlock)
      checkInputsFrom tx prefixHash (inputIndex + 1) maxUsedBlock rest
  | inputIndex, maxUsedBlock, .multisignature input :: rest => do
    if s.isInCheckpointZone s.getCurrentBlockchainHeight then
      checkInputsFrom tx prefixHash (inputIndex + 1) maxUsedBlock rest
    else
      let some sig := tx.signatures[inputIndex]? | .error .undefinedBehaviour
      if !(← s.validateInput currency p input prefixHash sig) then return (false, maxUsedBlock)
      checkInputsFrom tx prefixHash (inputIndex + 1) maxUsedBlock rest
  | _, maxUsedBlock, .base _ :: _ => pure (false, maxUsedBlock)

/-- `checkTransactionInputs(tx, pmax_used_block_height)`: whether every input passes, with the
maximum used block, which starts at zero. -/
def checkTransactionInputs (tx : Transaction) : Except Fault (Bool × UInt32) :=
  s.checkInputsFrom currency p tx (p.getPrefixHash tx) 0 0 tx.inputs

/-- `haveTransactionKeyImagesAsSpent`: some ring input's image is already spent in the chain. -/
def haveTransactionKeyImagesAsSpent (tx : Transaction) : Bool :=
  tx.keyImages.any s.spentKeys

/-! ### The validator the memory pool asks -/

/-- `getBlockIdByHeight`: the id of a stored block; above the top, a read outside the index. -/
def getBlockIdByHeight (height : UInt32) : Except Fault Hash :=
  match (blockIds p s)[height.toNat]? with
  | some h => .ok h
  | none => .error .undefinedBehaviour

/-- `getTailId(height)`: the top block. On an empty chain the `uint32_t` height wraps and the id is
`NULL_HASH`. -/
def getTail : BlockInfo := ⟨UInt32.ofNat s.blocks.length - 1, s.getTailId p⟩

/-- `checkTransactionInputs(tx, max_used_block_height, max_used_block_id, tail)`: the inputs check,
whose maximum used block must then be stored, and is named by its id. The call always writes the
height of `maxUsedBlock`, and its id only on success. -/
def checkTransactionInputsAndBlock (tx : Transaction) (maxUsedBlock : BlockInfo) :
    Except Fault (Bool × BlockInfo) := do
  let (valid, height) ← s.checkTransactionInputs currency p tx
  let maxUsedBlock := { maxUsedBlock with height := height }
  if !valid then return (false, maxUsedBlock)
  match (blockIds p s)[height.toNat]? with
  | some id => return (true, { maxUsedBlock with id := id })
  | none => return (false, maxUsedBlock)

/--
`checkTransactionInputs(tx, maxUsedBlock, lastFailed)`: the check the pool repeats, skipped when its
earlier outcome still stands. A transaction never checked is refused at once while the block it last
failed at is still on the chain; one checked before is refused when its maximum used block is above
the top, or has left the chain while its last failure still stands. Otherwise the inputs are checked
again, and a failure records the current top in `lastFailed`.
-/
def checkTransactionInputsCached (tx : Transaction) (maxUsedBlock lastFailed : BlockInfo) :
    Except Fault (Bool × BlockInfo × BlockInfo) := do
  let tail := s.getTail p
  if maxUsedBlock.empty then
    if !lastFailed.empty && decide (lastFailed.height.toNat < s.getCurrentBlockchainHeight) then
      if (← s.getBlockIdByHeight p lastFailed.height) == lastFailed.id then
        return (false, maxUsedBlock, lastFailed)
  else
    if s.getCurrentBlockchainHeight ≤ maxUsedBlock.height.toNat then
      return (false, maxUsedBlock, lastFailed)
    if (← s.getBlockIdByHeight p maxUsedBlock.height) != maxUsedBlock.id then
      -- The height of `lastFailed` is not compared with the chain's here.
      if lastFailed.id == (← s.getBlockIdByHeight p lastFailed.height) then
        return (false, maxUsedBlock, lastFailed)
  let (valid, maxUsedBlock) ← s.checkTransactionInputsAndBlock currency p tx maxUsedBlock
  if !valid then return (false, maxUsedBlock, tail)
  return (true, maxUsedBlock, lastFailed)

/-- `checkTransactionSize`: the blob is within the current size limit less the room reserved for the
coinbase, a `size_t` difference. -/
def checkTransactionSize (blobSize : UInt64) : Bool :=
  !(blobSize > s.currentBlockCumulSzLimit - UInt64.ofNat currency.minerTxBlobReservedSize)

end Blockchain

end CryptoNote
