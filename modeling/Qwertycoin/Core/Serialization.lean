import Qwertycoin.Lib.ByteReader
import Qwertycoin.Core.Currency

/-!
The consensus binary format of `CryptoNoteSerialization.cpp`: how `toBinaryArray` writes a
transaction or a block through the `BinaryOutputStreamSerializer`, and how `fromBinaryArray` reads
one back through the `BinaryInputStreamSerializer`. The source has one `serialize` per type for both
directions, switching on `serializer.type()`; each direction is written here as its own function
under the source's name, in the namespace of its serializer.

Integers are varints of their type's width; hashes, keys, key images, signatures and the four bytes
of a nonce are copied as they are; a vector is its varint length and its elements; a variant is a
one-byte tag and its value. A transaction's signatures have no length of their own: the reader
takes as many per input as the input asks for. A block of major version 2 or 3 carries a
merge-mined parent block, whose transaction count is read as a 64-bit varint and kept in a
`uint16_t`, and whose branch lengths are derived from that count and from the merge-mining tag in
the parent's coinbase extra.
-/

namespace CryptoNote

/-- `getSignaturesCount(input)`: the signatures an input carries. -/
def getSignaturesCount : TransactionInput → Nat
  | .base _ => 0
  | .key input => input.outputIndexes.length
  | .multisignature input => input.signatureCount.toNat

/-- The inputs of a coinbase transaction: one coinbase input alone, whose signatures the reader
leaves as they were. -/
def isLoneBaseInput : List TransactionInput → Bool
  | [.base _] => true
  | _ => false

/-- The four bytes of a `uint32_t` in memory, lowest first. -/
def uint32Bytes (value : UInt32) : Vector UInt8 4 :=
  ⟨#[UInt8.ofNat value.toNat, UInt8.ofNat (value.toNat / 256), UInt8.ofNat (value.toNat / 65536),
    UInt8.ofNat (value.toNat / 16777216)], rfl⟩

/-- The `uint32_t` whose bytes in memory, lowest first, are these. -/
def uint32OfBytes (bytes : Vector UInt8 4) : UInt32 :=
  UInt32.ofNat (bytes[0].toNat + 256 * bytes[1].toNat + 65536 * bytes[2].toNat +
    16777216 * bytes[3].toNat)

/-- `Crypto::tree_depth(count)`: the depth of the Merkle tree over `count` leaves, the binary
logarithm rounded down, found by shifts of 32, 16, 8, 4, 2 and 1 bits. -/
def treeDepth (count : Nat) : Nat :=
  let step (state : Nat × Nat) (i : Nat) : Nat × Nat :=
    if state.1 >>> i > 0 then (state.1 >>> i, state.2 + i) else state
  ([32, 16, 8, 4, 2, 1].foldl step (count, 0)).2

/-- `TransactionExtraMergeMiningTag`: the depth of the merge-mining branch and its root. -/
structure TransactionExtraMergeMiningTag where
  depth : Nat
  merkleRoot : Hash
deriving DecidableEq, Repr

/-- `TransactionExtraField`, the fields `parseTransactionExtra` finds in an extra. -/
inductive TransactionExtraField where
  | padding (size : Nat)
  | publicKey (publicKey : PublicKey)
  | nonce (nonce : List UInt8)
  | mergeMiningTag (tag : TransactionExtraMergeMiningTag)
  | message (data : List UInt8)
  | ttl (ttl : UInt64)
  | sender (data : List UInt8)
deriving DecidableEq, Repr

namespace BinaryOutputStreamSerializer

/-! ### Writing -/

/-- `writeVarint`. -/
def writeVarint (value : Nat) : List UInt8 := Varint.encode value

/-- `operator()(std::string&)`: the length as a varint, then the bytes. -/
def serializeString (bytes : List UInt8) : List UInt8 := writeVarint bytes.length ++ bytes

/-- `serializeContainer`: the length as a varint, then each element. -/
def serializeContainer {α : Type} (serializeElement : α → List UInt8) (value : List α) :
    List UInt8 :=
  writeVarint value.length ++ value.flatMap serializeElement

/-- `serializeVarintVector`: a container of `uint32_t` varints. -/
def serializeVarintVector (vector : List UInt32) : List UInt8 :=
  serializeContainer (fun index => writeVarint index.toNat) vector

/-- `serialize(BaseInput&)`. -/
def serializeBaseInput (gen : BaseInput) : List UInt8 := writeVarint gen.blockIndex.toNat

/-- `serialize(KeyInput&)`. -/
def serializeKeyInput (key : KeyInput) : List UInt8 :=
  writeVarint key.amount.toNat ++ serializeVarintVector key.outputIndexes ++
    key.keyImage.data.toList

/-- `serialize(MultisignatureInput&)`. -/
def serializeMultisignatureInput (multisignature : MultisignatureInput) : List UInt8 :=
  writeVarint multisignature.amount.toNat ++ writeVarint multisignature.signatureCount.toNat ++
    writeVarint multisignature.outputIndex.toNat

/-- `serialize(TransactionInput&)`: the `BinaryVariantTagGetter` tag, then the input. -/
def serializeTransactionInput : TransactionInput → List UInt8
  | .base input => 0xff :: serializeBaseInput input
  | .key input => 0x2 :: serializeKeyInput input
  | .multisignature input => 0x3 :: serializeMultisignatureInput input

/-- `serialize(MultisignatureOutput&)`. -/
def serializeMultisignatureOutput (multisignature : MultisignatureOutput) : List UInt8 :=
  serializeContainer (fun key : PublicKey => key.data.toList) multisignature.keys ++
    writeVarint multisignature.requiredSignatureCount.toNat

/-- `serialize(TransactionOutputTarget&)`: the tag, then the target. -/
def serializeTransactionOutputTarget : TransactionOutputTarget → List UInt8
  | .key target => 0x2 :: target.key.data.toList
  | .multisignature target => 0x3 :: serializeMultisignatureOutput target

/-- `serialize(TransactionOutput&)`. -/
def serializeTransactionOutput (output : TransactionOutput) : List UInt8 :=
  writeVarint output.amount.toNat ++ serializeTransactionOutputTarget output.target

/-- `serialize(TransactionPrefix&)`: a version above `CURRENT_TRANSACTION_VERSION` throws. -/
def serializeTransactionPrefix (txP : TransactionPrefix) : Option (List UInt8) :=
  if parameters.CURRENT_TRANSACTION_VERSION < txP.version then none
  else some (writeVarint txP.version.toNat ++ writeVarint txP.unlockTime.toNat ++
    serializeContainer serializeTransactionInput txP.inputs ++
    serializeContainer serializeTransactionOutput txP.outputs ++ serializeString txP.extra)

/-- The signature loop of `serialize(Transaction&)`. With no signatures at all every input must
ask for none; otherwise each input's list must hold as many as it asks for, and is copied. -/
def serializeSignatures (signaturesNotExpected : Bool) :
    List TransactionInput → List (List Signature) → Option (List UInt8)
  | [], _ => some []
  | input :: inputs, signatures =>
    let signatureSize := getSignaturesCount input
    if signaturesNotExpected then
      if signatureSize = 0 then serializeSignatures true inputs signatures else none
    else
      match signatures with
      | [] => none
      | current :: others =>
        if signatureSize ≠ current.length then none
        else (fun rest => current.flatMap (fun signature => signature.data.toList) ++ rest) <$>
          serializeSignatures false inputs others

/-- `serialize(Transaction&)`: the prefix, then the signatures, one list per input unless there are
none at all. -/
def serializeTransaction (tx : Transaction) : Option (List UInt8) := do
  let prefixBytes ← serializeTransactionPrefix tx.toTransactionPrefix
  let signaturesNotExpected := tx.signatures.isEmpty
  if !signaturesNotExpected ∧ tx.inputs.length ≠ tx.signatures.length then none
  let signatureBytes ← serializeSignatures signaturesNotExpected tx.inputs tx.signatures
  return prefixBytes ++ signatureBytes

/-- `serializeBlockHeader`: versions above 6 and version 0 throw; versions 2 and 3 leave the
timestamp and the nonce to the parent block. -/
def serializeBlockHeader (header : BlockHeader) : Option (List UInt8) :=
  let start := writeVarint header.majorVersion.toNat ++ writeVarint header.minorVersion.toNat
  if header.majorVersion > 6 then none
  else if header.majorVersion = 2 ∨ header.majorVersion = 3 then
    some (start ++ header.previousBlockHash.data.toList)
  else if header.majorVersion = 1 ∨ header.majorVersion ≥ 4 then
    some (start ++ writeVarint header.timestamp.toNat ++ header.previousBlockHash.data.toList ++
      (uint32Bytes header.nonce).toList)
  else none

end BinaryOutputStreamSerializer

namespace BinaryInputStreamSerializer

/-! ### Reading -/

open ByteReader

/-- `readVarint` into an integer of `width` bits. -/
def readVarint (width : Nat) : ByteReader Nat := ByteReader.varint width

/-- `operator()(uint8_t&)`. -/
def serializeUInt8 : ByteReader UInt8 := UInt8.ofNat <$> readVarint 8

/-- `operator()(uint32_t&)`. -/
def serializeUInt32 : ByteReader UInt32 := UInt32.ofNat <$> readVarint 32

/-- `operator()(uint64_t&)`. -/
def serializeUInt64 : ByteReader UInt64 := UInt64.ofNat <$> readVarint 64

/-- `serializePod` of a hash. -/
def serializeHash : ByteReader Hash := Hash.mk <$> takeVector 32

/-- `operator()(std::string&)`: a 64-bit varint length, then that many bytes. -/
def serializeString : ByteReader (List UInt8) := do
  let size ← readVarint 64
  take size

/-- `serializeContainer`: `beginArray` reads a 64-bit varint length, then each element. -/
def serializeContainer {α : Type} (serializeElement : ByteReader α) : ByteReader (List α) := do
  let size ← readVarint 64
  many serializeElement size

/-- `serializeVarintVector`. -/
def serializeVarintVector : ByteReader (List UInt32) := serializeContainer serializeUInt32

/-- `serialize(BaseInput&)`. -/
def serializeBaseInput : ByteReader BaseInput := BaseInput.mk <$> serializeUInt32

/-- `serialize(KeyInput&)`. -/
def serializeKeyInput : ByteReader KeyInput := do
  let amount ← serializeUInt64
  let outputIndexes ← serializeVarintVector
  let keyImage ← KeyImage.mk <$> takeVector 32
  return ⟨amount, outputIndexes, keyImage⟩

/-- `serialize(MultisignatureInput&)`. -/
def serializeMultisignatureInput : ByteReader MultisignatureInput := do
  let amount ← serializeUInt64
  let signatureCount ← serializeUInt8
  let outputIndex ← serializeUInt32
  return ⟨amount, signatureCount, outputIndex⟩

/-- `serialize(TransactionInput&)`: the one-byte tag chooses the input; another tag throws
`Unknown variant tag`. -/
def serializeTransactionInput : ByteReader TransactionInput := do
  let tag ← takeVector 1
  match tag[0] with
  | 0xff => TransactionInput.base <$> serializeBaseInput
  | 0x2 => TransactionInput.key <$> serializeKeyInput
  | 0x3 => TransactionInput.multisignature <$> serializeMultisignatureInput
  | _ => failure

/-- `serialize(MultisignatureOutput&)`. -/
def serializeMultisignatureOutput : ByteReader MultisignatureOutput := do
  let keys ← serializeContainer (PublicKey.mk <$> takeVector 32)
  let requiredSignatureCount ← serializeUInt8
  return ⟨keys, requiredSignatureCount⟩

/-- `serialize(TransactionOutputTarget&)`. -/
def serializeTransactionOutputTarget : ByteReader TransactionOutputTarget := do
  let tag ← takeVector 1
  match tag[0] with
  | 0x2 => (fun key => TransactionOutputTarget.key ⟨⟨key⟩⟩) <$> takeVector 32
  | 0x3 => TransactionOutputTarget.multisignature <$> serializeMultisignatureOutput
  | _ => failure

/-- `serialize(TransactionOutput&)`. -/
def serializeTransactionOutput : ByteReader TransactionOutput := do
  let amount ← serializeUInt64
  let target ← serializeTransactionOutputTarget
  return ⟨amount, target⟩

/-- `serialize(TransactionPrefix&)`: a version above `CURRENT_TRANSACTION_VERSION` throws. -/
def serializeTransactionPrefix : ByteReader TransactionPrefix := do
  let version ← serializeUInt8
  if parameters.CURRENT_TRANSACTION_VERSION < version then failure
  let unlockTime ← serializeUInt64
  let inputs ← serializeContainer serializeTransactionInput
  let outputs ← serializeContainer serializeTransactionOutput
  -- `serializeAsBinary` reads the extra as a string.
  let extra ← serializeString
  return ⟨version, unlockTime, inputs, outputs, extra⟩

/-- The signature loop of `serialize(Transaction&)`: with no signatures expected every input must
ask for none; otherwise each input's signatures are read, as many as it asks for. -/
def serializeSignatures (signaturesNotExpected : Bool) :
    List TransactionInput → ByteReader (List (List Signature))
  | [] => pure []
  | input :: inputs => do
    let signatureSize := getSignaturesCount input
    if signaturesNotExpected then
      if signatureSize = 0 then serializeSignatures true inputs else failure
    else
      let signatures ← many (Signature.mk <$> takeVector 64) signatureSize
      let others ← serializeSignatures false inputs
      return signatures :: others

/--
`serialize(Transaction&)` into `object`. The signatures are resized to one list per input, except
for a lone coinbase input, which keeps the object's; resizing keeps old lists, but each is read
over below. With no signatures the inputs must ask for none; otherwise there must be one list per
input.
-/
def serializeTransaction (object : Transaction) : ByteReader Transaction := do
  let txP ← serializeTransactionPrefix
  let sigSize := txP.inputs.length
  let signatures := if isLoneBaseInput txP.inputs then object.signatures
    else List.replicate sigSize []
  let signaturesNotExpected := signatures.isEmpty
  if !signaturesNotExpected ∧ txP.inputs.length ≠ signatures.length then failure
  let read ← serializeSignatures signaturesNotExpected txP.inputs
  return ⟨txP, if signaturesNotExpected then signatures else read⟩

/-- `serializeBlockHeader` into `object`: versions 2 and 3 leave the timestamp and the nonce to the
parent block. -/
def serializeBlockHeader (object : BlockHeader) : ByteReader BlockHeader := do
  let majorVersion ← serializeUInt8
  if majorVersion > 6 then failure
  let minorVersion ← serializeUInt8
  if majorVersion = 2 ∨ majorVersion = 3 then
    let previousBlockHash ← serializeHash
    return { object with majorVersion, minorVersion, previousBlockHash }
  else if majorVersion = 1 ∨ majorVersion ≥ 4 then
    let timestamp ← serializeUInt64
    let previousBlockHash ← serializeHash
    let nonce ← uint32OfBytes <$> takeVector 4
    return { majorVersion, minorVersion, nonce, timestamp, previousBlockHash }
  else failure

end BinaryInputStreamSerializer

section Extra

open ByteReader BinaryInputStreamSerializer

/-- `serialize(TransactionExtraMergeMiningTag&)` reading: the tag is a string, inside which a 64-bit
varint depth and the root are read; bytes after them in the string are not looked at. -/
def readMergeMiningTag : ByteReader TransactionExtraMergeMiningTag := do
  let field ← serializeString
  let inner : ByteReader TransactionExtraMergeMiningTag := do
    let depth ← readVarint 64
    let merkleRoot ← serializeHash
    return ⟨depth, merkleRoot⟩
  match inner.run field with
  | some (tag, _) => pure tag
  | none => failure

/-- The padding field after its tag: zero bytes up to the end, at most 255 bytes with the tag. A
non-zero byte, or a 255th zero, makes the extra fail to parse. -/
def readPadding (bytes : List UInt8) : Option TransactionExtraField :=
  -- The loop stops at the end of the extra or once the size, counting the tag, passes 255.
  let read := bytes.take 255
  if read.any (· ≠ 0) then none
  else if 1 + read.length > 255 then none
  else some (.padding (1 + read.length))

/-- The loop of `parseTransactionExtra`: each field by its tag, an unknown tag skipped. The fields
found before a failure are kept. `fuel` bounds the fields by the bytes, each taking at least one. -/
def parseExtraFields : (fuel : Nat) → List UInt8 → List TransactionExtraField →
    Bool × List TransactionExtraField
  | 0, _, fields => (true, fields)
  | _, [], fields => (true, fields)
  | fuel + 1, c :: bytes, fields =>
    let field : Option (Option TransactionExtraField × List UInt8) :=
      match c with
      | 0x00 => (readPadding bytes).map fun padding => (some padding, [])
      | 0x01 => ((fun key => some (TransactionExtraField.publicKey ⟨key⟩)) <$> takeVector 32).run
          bytes
      | 0x02 => (do
          -- The nonce's size is one raw byte.
          let size ← takeVector 1
          let nonce ← take size[0].toNat
          return some (TransactionExtraField.nonce nonce)).run bytes
      | 0x03 => ((fun tag => some (.mergeMiningTag tag)) <$> readMergeMiningTag).run bytes
      | 0x04 => ((fun data => some (.message data)) <$> serializeString).run bytes
      | 0x05 => (do
          let _ ← readVarint 8
          let ttl ← serializeUInt64
          return some (TransactionExtraField.ttl ttl)).run bytes
      | 0x06 => ((fun data => some (.sender data)) <$> serializeString).run bytes
      | _ => some (none, bytes)
    match field with
    | none => (false, fields)
    | some (found, rest) => parseExtraFields fuel rest (fields ++ found.toList)

/-- `parseTransactionExtra(extra, fields)`: whether the whole extra parsed, and the fields found. -/
def parseTransactionExtra (transactionExtra : List UInt8) : Bool × List TransactionExtraField :=
  parseExtraFields transactionExtra.length transactionExtra []

/-- `getMergeMiningTagFromExtra(extra, tag)`: the first merge-mining tag among the fields parsed,
whether or not the rest of the extra parsed. -/
def getMergeMiningTagFromExtra (txExtra : List UInt8) : Option TransactionExtraMergeMiningTag :=
  (parseTransactionExtra txExtra).2.findSome? fun
    | .mergeMiningTag tag => some tag
    | _ => none

end Extra

namespace BinaryOutputStreamSerializer

/-- `serialize(ParentBlockSerializer&)` writing, as a block carries it: neither for hashing nor
header only. The count must be at least one, the coinbase branch as deep as the count's tree, and
the parent's coinbase extra must hold a merge-mining tag of depth at most 256 whose depth is the
length of the blockchain branch. -/
def serializeParentBlock (parentBlock : ParentBlock) (timestamp : UInt64) (nonce : UInt32) :
    Option (List UInt8) := do
  if parentBlock.transactionCount < 1 then none
  let branchSize := treeDepth parentBlock.transactionCount.toNat
  if parentBlock.baseTransactionBranch.length ≠ branchSize then none
  let minerTx ← serializeTransaction parentBlock.baseTransaction
  let some mmTag := getMergeMiningTagFromExtra parentBlock.baseTransaction.extra | none
  if mmTag.depth > 8 * 32 then none
  if mmTag.depth ≠ parentBlock.blockchainBranch.length then none
  return writeVarint parentBlock.majorVersion.toNat ++ writeVarint parentBlock.minorVersion.toNat ++
    writeVarint timestamp.toNat ++ parentBlock.previousBlockHash.data.toList ++
    (uint32Bytes nonce).toList ++ writeVarint parentBlock.transactionCount.toNat ++
    parentBlock.baseTransactionBranch.flatMap (fun hash => hash.data.toList) ++ minerTx ++
    parentBlock.blockchainBranch.flatMap (fun hash => hash.data.toList)

/-- `serialize(Block&)`: the header, the parent block for versions 2 and 3, the coinbase and the
transaction ids. -/
def serializeBlock (block : Block) : Option (List UInt8) := do
  let header ← serializeBlockHeader block.toBlockHeader
  let parent ← if block.majorVersion = 2 ∨ block.majorVersion = 3 then
      serializeParentBlock block.parentBlock block.timestamp block.nonce
    else some []
  let minerTx ← serializeTransaction block.baseTransaction
  return header ++ parent ++ minerTx ++
    serializeContainer (fun hash : Hash => hash.data.toList) block.transactionHashes

end BinaryOutputStreamSerializer

namespace BinaryInputStreamSerializer

open ByteReader

/-- `serialize(ParentBlockSerializer&)` reading into `object`, with the block's timestamp and nonce.
The count is read as a 64-bit varint and kept in a `uint16_t`; the branches are sized from it and
from the merge-mining tag of the coinbase just read. -/
def serializeParentBlock (object : ParentBlock) : ByteReader (ParentBlock × UInt64 × UInt32) := do
  let majorVersion ← serializeUInt8
  let minorVersion ← serializeUInt8
  let timestamp ← serializeUInt64
  let previousBlockHash ← serializeHash
  let nonce ← uint32OfBytes <$> takeVector 4
  let txNum ← readVarint 64
  let transactionCount := UInt16.ofNat txNum
  if transactionCount < 1 then failure
  let baseTransactionBranch ← many serializeHash (treeDepth transactionCount.toNat)
  let baseTransaction ← serializeTransaction object.baseTransaction
  let some mmTag := getMergeMiningTagFromExtra baseTransaction.extra | failure
  if mmTag.depth > 8 * 32 then failure
  let blockchainBranch ← many serializeHash mmTag.depth
  return (⟨majorVersion, minorVersion, previousBlockHash, transactionCount, baseTransactionBranch,
    baseTransaction, blockchainBranch⟩, timestamp, nonce)

/-- `serialize(Block&)` into `object`. Other versions than 2 and 3 carry no parent block, and leave
the object's as it was. -/
def serializeBlock (object : Block) : ByteReader Block := do
  let header ← serializeBlockHeader object.toBlockHeader
  let (parentBlock, timestamp, nonce) ←
    if header.majorVersion = 2 ∨ header.majorVersion = 3 then
      serializeParentBlock object.parentBlock
    else pure (object.parentBlock, header.timestamp, header.nonce)
  let baseTransaction ← serializeTransaction object.baseTransaction
  let transactionHashes ← serializeContainer serializeHash
  return ⟨{ header with timestamp, nonce }, parentBlock, baseTransaction, transactionHashes⟩

end BinaryInputStreamSerializer

namespace Transaction

/-- `toBinaryArray(tx)`: `none` when serializing throws. -/
def toBinaryArray (tx : Transaction) : Option (List UInt8) :=
  BinaryOutputStreamSerializer.serializeTransaction tx

/-- `fromBinaryArray(object, blob)`: read into `object`; it succeeds when the reader returns and the
whole blob was read. -/
def fromBinaryArray (object : Transaction) (binaryArray : List UInt8) : Option Transaction :=
  match (BinaryInputStreamSerializer.serializeTransaction object).run binaryArray with
  | some (tx, []) => some tx
  | _ => none

end Transaction

namespace Block

/-- `toBinaryArray(block)`: `none` when serializing throws. -/
def toBinaryArray (block : Block) : Option (List UInt8) :=
  BinaryOutputStreamSerializer.serializeBlock block

/-- `fromBinaryArray(object, blob)`: read into `object`; it succeeds when the reader returns and the
whole blob was read. -/
def fromBinaryArray (object : Block) (binaryArray : List UInt8) : Option Block :=
  match (BinaryInputStreamSerializer.serializeBlock object).run binaryArray with
  | some (block, []) => some block
  | _ => none

end Block

end CryptoNote
