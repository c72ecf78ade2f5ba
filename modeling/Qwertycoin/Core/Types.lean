import Mathlib

/-! The consensus data of `CryptoNote.h` and the bookkeeping records of `Blockchain.h`. -/

namespace CryptoNote

/-- `Crypto::Hash`: thirty-two bytes, compared as a whole. -/
structure Hash where
  data : Vector UInt8 32
deriving DecidableEq, Repr

/-- `Crypto::PublicKey`: thirty-two bytes. -/
structure PublicKey where
  data : Vector UInt8 32
deriving DecidableEq, Repr

/-- `Crypto::KeyImage`: thirty-two bytes, the image that marks an output as spent. -/
structure KeyImage where
  data : Vector UInt8 32
deriving DecidableEq, Repr

/-- `Crypto::Signature`: sixty-four bytes. -/
structure Signature where
  data : Vector UInt8 64
deriving DecidableEq, Repr

/-- `NULL_HASH`, the hash of thirty-two zero bytes. -/
def NULL_HASH : Hash := ⟨Vector.replicate 32 0⟩

/-- The coinbase input, naming the height of the block that mints. -/
structure BaseInput where
  blockIndex : UInt32
deriving DecidableEq, Repr

/-- A ring input: an amount, relative offsets into the outputs of that amount, a key image. -/
structure KeyInput where
  amount : UInt64
  outputIndexes : List UInt32
  keyImage : KeyImage
deriving DecidableEq, Repr

/-- An input spending one multisignature output, named by its amount and global index. -/
structure MultisignatureInput where
  amount : UInt64
  signatureCount : UInt8
  outputIndex : UInt32
deriving DecidableEq, Repr

/-- `TransactionInput`, the variant of the three input kinds. -/
inductive TransactionInput where
  | base (input : BaseInput)
  | key (input : KeyInput)
  | multisignature (input : MultisignatureInput)
deriving DecidableEq, Repr

/-- An output locked to one key. -/
structure KeyOutput where
  key : PublicKey
deriving DecidableEq, Repr

/-- An output locked to `requiredSignatureCount` of a list of keys. -/
structure MultisignatureOutput where
  keys : List PublicKey
  requiredSignatureCount : UInt8
deriving DecidableEq, Repr

/-- `TransactionOutputTarget`, the variant of the two output kinds. -/
inductive TransactionOutputTarget where
  | key (target : KeyOutput)
  | multisignature (target : MultisignatureOutput)
deriving DecidableEq, Repr

/-- An amount together with the lock on it. -/
structure TransactionOutput where
  amount : UInt64
  target : TransactionOutputTarget
deriving DecidableEq, Repr

/-- The signed part of a transaction. -/
structure TransactionPrefix where
  version : UInt8
  unlockTime : UInt64
  inputs : List TransactionInput
  outputs : List TransactionOutput
  extra : List UInt8
deriving DecidableEq, Repr

/-- A transaction: its prefix and one list of signatures per input. -/
structure Transaction extends TransactionPrefix where
  signatures : List (List Signature)
deriving DecidableEq, Repr

/-- The merge-mined parent block carried by blocks of major versions 2 and 3. -/
structure ParentBlock where
  majorVersion : UInt8
  minorVersion : UInt8
  previousBlockHash : Hash
  transactionCount : UInt16
  baseTransactionBranch : List Hash
  baseTransaction : Transaction
  blockchainBranch : List Hash
deriving DecidableEq, Repr

/-- The fields every block header carries. -/
structure BlockHeader where
  majorVersion : UInt8
  minorVersion : UInt8
  nonce : UInt32
  timestamp : UInt64
  previousBlockHash : Hash
deriving DecidableEq, Repr

/-- A block: header, parent block, coinbase transaction and the ids of the other transactions. -/
structure Block extends BlockHeader where
  parentBlock : ParentBlock
  baseTransaction : Transaction
  transactionHashes : List Hash
deriving DecidableEq, Repr

/-- `Blockchain::TransactionIndex`: where a transaction sits, by block and position. -/
structure TransactionIndex where
  block : UInt32
  transaction : UInt16
deriving DecidableEq, Repr

/-- `Blockchain::MultisignatureOutputUsage`: a multisignature output and whether it is spent. -/
structure MultisignatureOutputUsage where
  transactionIndex : TransactionIndex
  outputIndex : UInt16
  isUsed : Bool
deriving DecidableEq, Repr

/-- `Blockchain::TransactionEntry`: a stored transaction and the global indexes of its outputs. -/
structure TransactionEntry where
  tx : Transaction
  globalOutputIndexes : List UInt32
deriving DecidableEq, Repr

/-- `Blockchain::BlockEntry`: a main-chain block with what was derived from it when pushed. -/
structure BlockEntry where
  bl : Block
  height : UInt32
  blockCumulativeSize : UInt64
  cumulativeDifficulty : UInt64
  alreadyGeneratedCoins : UInt64
  transactions : List TransactionEntry
deriving DecidableEq, Repr

/-- The key image an input spends, for a ring input. -/
def TransactionInput.keyImage? : TransactionInput → Option KeyImage
  | .key input => some input.keyImage
  | _ => none

namespace Transaction

/-- The key images of the transaction's ring inputs, in input order. -/
def keyImages (tx : Transaction) : List KeyImage :=
  tx.inputs.filterMap TransactionInput.keyImage?

/-- The `(amount, outputIndex)` pairs its multisignature inputs spend, in input order. -/
def multisignatureSpends (tx : Transaction) : List (UInt64 × UInt32) :=
  tx.inputs.filterMap fun
    | .multisignature input => some (input.amount, input.outputIndex)
    | _ => none

end Transaction

/-- `getInputAmount`: the ring and multisignature input amounts, summed in 64 bits. -/
def getInputAmount (transaction : Transaction) : UInt64 :=
  transaction.inputs.foldl (fun amount input =>
    match input with
    | .key input => amount + input.amount
    | .multisignature input => amount + input.amount
    | .base _ => amount) 0

/-- `getOutputAmount`: the output amounts, summed in 64 bits. -/
def getOutputAmount (transaction : Transaction) : UInt64 :=
  transaction.outputs.foldl (fun amount output => amount + output.amount) 0

/-- `checkMultisignatureInputsDiff`: no two multisignature inputs spend the same output. -/
def checkMultisignatureInputsDiff (tx : Transaction) : Bool :=
  decide tx.multisignatureSpends.Nodup

end CryptoNote
