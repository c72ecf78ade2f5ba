import Qwertycoin.Core.Serialization.TransactionRoundTrip
import Qwertycoin.Common.Varint

/-!
The transaction extra, written field by field by `writeTransactionExtra` and read back by
`parseTransactionExtra`.

Seven kinds of field, four framings: a public key is its tag and 32 raw bytes; a nonce its tag, one
byte of size and the bytes; a merge-mining tag, a message and a sender their tag and a string of the
binary serializer (for the merge-mining tag, a string holding the depth's varint and the root); a
time to live its tag, the varint of the size of its varint, and that varint. Padding has no tag of
its own: its size in zero bytes, the first of which the parser takes for the padding tag, and the
parser reads zeros up to the end of the extra.

Every field the parser reads back as it was written, and so does a list of fields whose padding
comes only last (`transaction_extra_round_trip`): each field's reader takes exactly its writer's
bytes (`parseExtraFields_field`), and padding takes what is left (`parseExtraFields_padding`).
-/

namespace CryptoNote

open ByteReader BinaryOutputStreamSerializer

/-! ### The writers -/

/-- `addTransactionPublicKeyToExtra(tx_extra, tx_pub_key)`: the tag, then the key's 32 bytes. -/
def addTransactionPublicKeyToExtra (txExtra : List UInt8) (txPubKey : PublicKey) : List UInt8 :=
  txExtra ++ 0x01 :: txPubKey.data.toList

/-- `addExtraNonceToTransactionExtra(tx_extra, extra_nonce)`: refused above 255 bytes; otherwise the
tag, the size in one byte, and the nonce. -/
def addExtraNonceToTransactionExtra (txExtra extraNonce : List UInt8) : Option (List UInt8) :=
  if extraNonce.length > 255 then none
  else some (txExtra ++ 0x02 :: UInt8.ofNat extraNonce.length :: extraNonce)

/-- `appendMergeMiningTagToExtra(tx_extra, mm_tag)`: the tag, then `toBinaryArray(mm_tag)`, a
string holding the depth's varint and the root. -/
def appendMergeMiningTagToExtra (txExtra : List UInt8) (mmTag : TransactionExtraMergeMiningTag) :
    List UInt8 :=
  txExtra ++ 0x03 :: serializeString (writeVarint mmTag.depth ++ mmTag.merkleRoot.data.toList)

/-- `appendMessageToExtra(tx_extra, message)`: the tag, then `toBinaryArray(message)`, its data as a
string. -/
def appendMessageToExtra (txExtra data : List UInt8) : List UInt8 :=
  txExtra ++ 0x04 :: serializeString data

/-- `appendTTLToExtra(tx_extra, ttl)`: the tag, the varint of the size of the time to live's varint,
then that varint. -/
def appendTTLToExtra (txExtra : List UInt8) (ttl : UInt64) : List UInt8 :=
  let ttlData := Tools.getVarintData ttl
  let extraFieldSize := Varint.encode ttlData.length
  txExtra ++ 0x05 :: (extraFieldSize ++ ttlData)

/-- `appendSenderToExtra(tx_extra, sender)`: the tag, then `toBinaryArray(sender)`, its data as a
string. -/
def appendSenderToExtra (txExtra data : List UInt8) : List UInt8 :=
  txExtra ++ 0x06 :: serializeString data

/-- `ExtraSerializerVisitor` on one field: the extra with the field appended, or `none` where the
visitor returns `false`. Padding appends its size in zero bytes, with no tag. -/
def writeExtraField (extra : List UInt8) : TransactionExtraField → Option (List UInt8)
  | .padding size => if size > 255 then none else some (extra ++ List.replicate size 0)
  | .publicKey publicKey => some (addTransactionPublicKeyToExtra extra publicKey)
  | .nonce nonce => addExtraNonceToTransactionExtra extra nonce
  | .mergeMiningTag tag => some (appendMergeMiningTagToExtra extra tag)
  | .message data => some (appendMessageToExtra extra data)
  | .ttl ttl => some (appendTTLToExtra extra ttl)
  | .sender data => some (appendSenderToExtra extra data)

/-- `writeTransactionExtra(tx_extra, tx_extra_fields)`: the fields in turn; a refused field stops
the loop with `false`, what was appended before it staying in the extra. -/
def writeTransactionExtra (txExtra : List UInt8) :
    List TransactionExtraField → Bool × List UInt8
  | [] => (true, txExtra)
  | field :: fields =>
    match writeExtraField txExtra field with
    | none => (false, txExtra)
    | some txExtra => writeTransactionExtra txExtra fields

/-- The visitor appends to the extra what it writes for the field alone. -/
theorem writeExtraField_append (extra : List UInt8) (field : TransactionExtraField) :
    writeExtraField extra field = (writeExtraField [] field).map (extra ++ ·) := by
  cases field with
  | padding size =>
    simp only [writeExtraField]
    split <;> simp
  | nonce nonce =>
    simp only [writeExtraField, addExtraNonceToTransactionExtra]
    split <;> simp
  | _ => simp [writeExtraField, addTransactionPublicKeyToExtra, appendMergeMiningTagToExtra,
      appendMessageToExtra, appendTTLToExtra, appendSenderToExtra]

/-! ### Reading the fields back -/

namespace TransactionExtraField

/-- Padding, which the parser reads to the end of the extra. -/
def isPadding : TransactionExtraField → Bool
  | .padding _ => true
  | _ => false

/-- A field the parser reads back as written: padding of 1 to 255 bytes, a nonce of at most 255
bytes, and for the others the sizes of the source's types: a `size_t` depth and strings shorter than
`2 ^ 64`. -/
def Writable : TransactionExtraField → Prop
  | .padding size => 1 ≤ size ∧ size ≤ 255
  | .publicKey _ => True
  | .nonce bytes => bytes.length ≤ 255
  | .mergeMiningTag tag => tag.depth < 2 ^ 64
  | .message data => data.length < 2 ^ 64
  | .ttl _ => True
  | .sender data => data.length < 2 ^ 64

instance decidableWritable (field : TransactionExtraField) : Decidable field.Writable := by
  cases field <;> unfold Writable <;> infer_instance

end TransactionExtraField

/-- The visitor takes every field the parser can read back. -/
theorem writeExtraField_isSome {field : TransactionExtraField} (writable : field.Writable) :
    ∃ bytes, writeExtraField [] field = some bytes := by
  cases field with
  | padding size =>
    exact ⟨_, if_neg (by simp only [TransactionExtraField.Writable] at writable; omega)⟩
  | nonce nonce =>
    exact ⟨_, if_neg (by simp only [TransactionExtraField.Writable] at writable; omega)⟩
  | _ => exact ⟨_, rfl⟩

/-- Every field takes at least one byte: a tag, or for padding its first zero. -/
theorem writeExtraField_ne_nil {field : TransactionExtraField} {bytes : List UInt8}
    (writable : field.Writable) (written : writeExtraField [] field = some bytes) : bytes ≠ [] := by
  cases field with
  | padding size =>
    simp only [TransactionExtraField.Writable] at writable
    simp only [writeExtraField, if_neg (Nat.not_lt.mpr writable.2), List.nil_append,
      Option.some.injEq] at written
    rw [← written, ne_eq, List.replicate_eq_nil_iff]
    omega
  | nonce nonce =>
    simp only [TransactionExtraField.Writable] at writable
    simp only [writeExtraField, addExtraNonceToTransactionExtra, if_neg (Nat.not_lt.mpr writable),
      Option.some.injEq] at written
    simp [← written]
  | _ =>
    simp only [writeExtraField, addTransactionPublicKeyToExtra, appendMergeMiningTagToExtra,
      appendMessageToExtra, appendTTLToExtra, appendSenderToExtra, Option.some.injEq] at written
    simp [← written]

open BinaryInputStreamSerializer

/-- A varint of a 64-bit integer takes at most ten bytes. -/
theorem length_encode_toNat_le (value : UInt64) : (Varint.encode value.toNat).length ≤ 10 :=
  Varint.length_encode_le 9 _ (Nat.lt_of_lt_of_le value.toNat_lt (by decide))

/-- The merge-mining tag's string holds the depth's varint and the root, which read back. -/
theorem reads_readMergeMiningTag {tag : TransactionExtraMergeMiningTag} (deep : tag.depth < 2 ^ 64) :
    Reads readMergeMiningTag (serializeString (writeVarint tag.depth ++ tag.merkleRoot.data.toList))
      tag := by
  intro rest
  have inner : Reads (do
      let depth ← readVarint 64
      let merkleRoot ← serializeHash
      return (⟨depth, merkleRoot⟩ : TransactionExtraMergeMiningTag))
      (writeVarint tag.depth ++ (tag.merkleRoot.data.toList ++ [])) tag :=
    Reads.bind (reads_readVarint (by omega) deep)
      (Reads.bind (reads_serializeHash tag.merkleRoot) (Reads.pure _))
  rw [List.append_nil] at inner
  have short : (writeVarint tag.depth ++ tag.merkleRoot.data.toList).length < 2 ^ 64 := by
    have depthBytes : (writeVarint tag.depth).length ≤ 10 := by
      have bound := length_encode_toNat_le (UInt64.ofNat tag.depth)
      rwa [UInt64.toNat_ofNat', Nat.mod_eq_of_lt deep] at bound
    simp only [List.length_append, Vector.length_toList]
    omega
  -- The string comes out whole, and the inner reader takes the depth and the root from it.
  have innerRun := inner []
  rw [List.append_nil] at innerRun
  rw [readMergeMiningTag, StateT.run_bind, reads_serializeString short rest]
  simp only [Option.bind_eq_bind, Option.bind_some, innerRun]
  rfl

/-- A field other than padding: the parser takes exactly the writer's bytes for it and goes on after
them. -/
theorem parseExtraFields_field {field : TransactionExtraField} {bytes : List UInt8}
    (writable : field.Writable) (written : writeExtraField [] field = some bytes)
    (notPadding : field.isPadding = false) (fuel : Nat) (rest : List UInt8)
    (fields : List TransactionExtraField) :
    parseExtraFields (fuel + 1) (bytes ++ rest) fields =
      parseExtraFields fuel rest (fields ++ [field]) := by
  simp only [TransactionExtraField.Writable] at writable
  -- One case per tag: the reader the tag selects takes the bytes after it.
  cases field with
  | padding size => cases notPadding
  | publicKey publicKey =>
    simp only [writeExtraField, addTransactionPublicKeyToExtra, Option.some.injEq] at written
    subst written
    have read := Reads.map (fun key => some (TransactionExtraField.publicKey ⟨key⟩))
      (reads_takeVector publicKey.data) rest
    rw [List.nil_append, List.cons_append, parseExtraFields]
    simp only [read]
    rfl
  | nonce nonce =>
    simp only [writeExtraField, addExtraNonceToTransactionExtra, if_neg (Nat.not_lt.mpr writable),
      Option.some.injEq] at written
    subst written
    have size : (⟨#[UInt8.ofNat nonce.length], rfl⟩ : Vector UInt8 1)[0].toNat = nonce.length :=
      Varint.toNat_ofNat_lt (by omega)
    -- The size byte, then as many bytes as it says.
    have read : Reads (do
        let size ← takeVector 1
        let nonce ← take size[0].toNat
        return some (TransactionExtraField.nonce nonce))
        ([UInt8.ofNat nonce.length] ++ (nonce ++ [])) (some (.nonce nonce)) := by
      refine Reads.bind (reads_tag _) ?_
      rw [size]
      exact Reads.bind (reads_take nonce) (Reads.pure _)
    simp only [List.append_nil, List.singleton_append] at read
    rw [List.nil_append, List.cons_append, parseExtraFields]
    simp only [read rest]
    rfl
  | mergeMiningTag tag =>
    simp only [writeExtraField, appendMergeMiningTagToExtra, Option.some.injEq] at written
    subst written
    have read := Reads.map (fun tag => some (TransactionExtraField.mergeMiningTag tag))
      (reads_readMergeMiningTag writable) rest
    rw [List.nil_append, List.cons_append, parseExtraFields]
    simp only [read]
    rfl
  | message data =>
    simp only [writeExtraField, appendMessageToExtra, Option.some.injEq] at written
    subst written
    have read := Reads.map (fun data => some (TransactionExtraField.message data))
      (reads_serializeString writable) rest
    rw [List.nil_append, List.cons_append, parseExtraFields]
    simp only [read]
    rfl
  | ttl ttl =>
    simp only [writeExtraField, appendTTLToExtra, Option.some.injEq] at written
    subst written
    -- The size read first is at most ten, and the reader drops it.
    have read : Reads (do
        let _ ← readVarint 8
        let ttl ← serializeUInt64
        return some (TransactionExtraField.ttl ttl))
        (Varint.encode (Tools.getVarintData ttl).length ++ (Tools.getVarintData ttl ++ []))
        (some (.ttl ttl)) :=
      Reads.bind (reads_readVarint (by omega)
          (Nat.lt_of_le_of_lt (length_encode_toNat_le ttl) (by decide)))
        (Reads.bind (reads_serializeUInt64 ttl) (Reads.pure _))
    simp only [List.append_nil] at read
    rw [List.nil_append, List.cons_append, parseExtraFields]
    simp only [read rest]
    rfl
  | sender data =>
    simp only [writeExtraField, appendSenderToExtra, Option.some.injEq] at written
    subst written
    have read := Reads.map (fun data => some (TransactionExtraField.sender data))
      (reads_serializeString writable) rest
    rw [List.nil_append, List.cons_append, parseExtraFields]
    simp only [read]
    rfl

/-- Padding written last: the parser reads its zeros to the end of the extra. -/
theorem parseExtraFields_padding {size : Nat} (positive : 1 ≤ size) (short : size ≤ 255)
    (fuel : Nat) (fields : List TransactionExtraField) :
    parseExtraFields (fuel + 1) (List.replicate size 0) fields =
      (true, fields ++ [.padding size]) := by
  obtain ⟨zeros, rfl⟩ : ∃ zeros, size = zeros + 1 := ⟨size - 1, by omega⟩
  have read : readPadding (List.replicate zeros 0) = some (.padding (zeros + 1)) := by
    rw [readPadding, List.take_of_length_le (by rw [List.length_replicate]; omega)]
    rw [if_neg (by simp), List.length_replicate, if_neg (by omega), Nat.add_comm]
  rw [List.replicate_succ, parseExtraFields]
  simp only [read, Option.map_some]
  cases fuel <;> rfl

/-! ### The whole extra -/

/-- Writing a list of fields the parser can read, padding only last, appends bytes from which the
parser's loop, with fuel for each byte, gives the list back after the fields already found. -/
theorem writeTransactionExtra_parse :
    ∀ (fields : List TransactionExtraField) (txExtra : List UInt8),
      (∀ field ∈ fields, field.Writable) →
      (∀ field ∈ fields.dropLast, field.isPadding = false) →
      ∃ bytes, writeTransactionExtra txExtra fields = (true, txExtra ++ bytes) ∧
        ∀ fuel found, bytes.length ≤ fuel →
          parseExtraFields fuel bytes found = (true, found ++ fields)
  | [], txExtra, _, _ =>
    ⟨[], by simp [writeTransactionExtra],
      fun fuel found _ => by cases fuel <;> simp [parseExtraFields]⟩
  | field :: fields, txExtra, writable, paddingLast => by
    have writableHead := writable field List.mem_cons_self
    obtain ⟨own, written⟩ := writeExtraField_isSome writableHead
    -- The fields after the head keep padding last.
    have paddingLastTail : ∀ later ∈ fields.dropLast, later.isPadding = false := by
      intro later member
      cases fields with
      | nil => simp at member
      | cons next others =>
        refine paddingLast later ?_
        rw [List.dropLast_cons_of_ne_nil (List.cons_ne_nil _ _)]
        exact List.mem_cons_of_mem _ member
    obtain ⟨after, writtenTail, parsedTail⟩ := writeTransactionExtra_parse fields (txExtra ++ own)
      (fun later member => writable later (List.mem_cons_of_mem _ member)) paddingLastTail
    refine ⟨own ++ after, ?_, fun fuel found enough => ?_⟩
    · rw [writeTransactionExtra, writeExtraField_append, written, Option.map_some]
      dsimp only
      rw [writtenTail, List.append_assoc]
    have ownLength : 0 < own.length :=
      List.length_pos_iff.mpr (writeExtraField_ne_nil writableHead written)
    rw [List.length_append] at enough
    obtain ⟨fuel, rfl⟩ : ∃ fuel', fuel = fuel' + 1 := ⟨fuel - 1, by omega⟩
    cases padding : field.isPadding
    · -- A field with a tag: the parser takes its bytes and goes on with the others.
      rw [parseExtraFields_field writableHead written padding, parsedTail _ _ (by omega),
        List.append_assoc]
      rfl
    · -- Padding is last: nothing follows, and the parser reads its zeros to the end.
      cases fields with
      | cons next others => exact absurd (paddingLast field (by simp)) (by simp [padding])
      | nil =>
        cases field with
        | padding size =>
          simp only [TransactionExtraField.Writable] at writableHead
          simp only [writeExtraField, if_neg (Nat.not_lt.mpr writableHead.2), List.nil_append,
            Option.some.injEq] at written
          have noAfter : after = [] := by simpa [writeTransactionExtra] using writtenTail
          rw [noAfter, List.append_nil, ← written]
          exact parseExtraFields_padding writableHead.1 writableHead.2 fuel found
        | _ => cases padding

/-- The extra parser inverts the writer: a list of fields in which padding has 1 to 255 bytes and
comes only last, and nonces have at most 255 bytes, is written whole and parsed back exactly. -/
theorem transaction_extra_round_trip (fields : List TransactionExtraField)
    (writable : ∀ field ∈ fields, field.Writable)
    (paddingLast : ∀ field ∈ fields.dropLast, field.isPadding = false) :
    ∃ extra, writeTransactionExtra [] fields = (true, extra) ∧
      parseTransactionExtra extra = (true, fields) := by
  obtain ⟨bytes, written, parsed⟩ := writeTransactionExtra_parse fields [] writable paddingLast
  refine ⟨bytes, written, ?_⟩
  rw [parseTransactionExtra, parsed bytes.length [] (Nat.le_refl _), List.nil_append]

/-- All seven kinds of field, padding last, written and parsed back. -/
theorem transaction_extra_round_trip_on_seven_fields :
    let fields : List TransactionExtraField :=
      [.publicKey ⟨Vector.replicate 32 7⟩, .nonce [1, 2, 3],
        .mergeMiningTag ⟨300, ⟨Vector.replicate 32 9⟩⟩, .message [4, 5], .ttl 1000, .sender [6],
        .padding 3]
    (∀ field ∈ fields, field.Writable) ∧
      (∀ field ∈ fields.dropLast, field.isPadding = false) ∧
      ∃ extra, writeTransactionExtra [] fields = (true, extra) ∧
        parseTransactionExtra extra = (true, fields) := by
  intro fields
  have writable : ∀ field ∈ fields, field.Writable := by decide
  have paddingLast : ∀ field ∈ fields.dropLast, field.isPadding = false := by decide
  exact ⟨writable, paddingLast, transaction_extra_round_trip fields writable paddingLast⟩

end CryptoNote
