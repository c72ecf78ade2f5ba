import Qwertycoin.Core.Serialization

/-!
The reader of `serialize(Transaction&)` against its writer.

Each `serialize` is shown to read back what its writer wrote (`reads_…`), and each reader to accept
only what the writer writes for the value read (`…_eq_some`). A container's length is written as a
64-bit varint, so the first direction needs the bytes written to be shorter than `2 ^ 64`, as every
array in memory is; the second needs nothing, since the reader refuses longer lengths.

A transaction's signature lists are not written with a length. Read into an object without
signatures, a lone coinbase input gets none and any other inputs one list each
(`signaturesInReadForm`); a transaction in that form is read back as it was written
(`fromBinaryArray_toBinaryArray`), and any blob the reader accepts is the writer's blob of what it
read (`toBinaryArray_fromBinaryArray`).
-/

namespace CryptoNote

open ByteReader

/-- The signatures a transaction has when read into an object without signatures: none for a lone
coinbase input, one list per input otherwise. -/
def signaturesInReadForm (tx : Transaction) : Bool :=
  if isLoneBaseInput tx.inputs then tx.signatures.isEmpty
  else tx.signatures.length == tx.inputs.length

namespace BinaryInputStreamSerializer

/-! ### Integers, hashes and strings -/

/-- The writer's bytes of a `width`-bit integer are the writer's bytes of its `Nat` value. -/
theorem reads_readVarint {width value : Nat} (wide : 7 ≤ width) (fits : value < 2 ^ width) :
    Reads (readVarint width) (BinaryOutputStreamSerializer.writeVarint value) value :=
  reads_varint wide fits

theorem readVarint_eq_some {width value : Nat} {input rest : List UInt8}
    (read : (readVarint width).run input = some (value, rest)) :
    value < 2 ^ width ∧ input = BinaryOutputStreamSerializer.writeVarint value ++ rest :=
  varint_eq_some read

/-- At each width the source reads (`uint8_t`, `uint16_t`, `uint32_t` and `uint64_t`), `readVarint`
reads back exactly the bytes `writeVarint` wrote for a value of that width, and accepts no other
form: an overflowing or longer form is refused. -/
theorem varint_round_trip_canonical {width : Nat}
    (supported : width = 8 ∨ width = 16 ∨ width = 32 ∨ width = 64) :
    (∀ value, value < 2 ^ width → ∀ rest,
      (readVarint width).run (BinaryOutputStreamSerializer.writeVarint value ++ rest) =
        some (value, rest)) ∧
    (∀ input value rest, (readVarint width).run input = some (value, rest) →
      input = BinaryOutputStreamSerializer.writeVarint value ++ rest) := by
  -- Every width the source reads has room for the seven bits of a byte.
  have wide : 7 ≤ width := by omega
  exact ⟨fun value fits rest => reads_readVarint wide fits rest,
    fun input value rest read => (readVarint_eq_some read).2⟩

theorem varint_round_trip_canonical_at_byte_width :
    (∀ value, value < 2 ^ 8 → ∀ rest,
      (readVarint 8).run (BinaryOutputStreamSerializer.writeVarint value ++ rest) =
        some (value, rest)) ∧
    (∀ input value rest, (readVarint 8).run input = some (value, rest) →
      input = BinaryOutputStreamSerializer.writeVarint value ++ rest) :=
  varint_round_trip_canonical (Or.inl rfl)

theorem reads_serializeUInt8 (value : UInt8) :
    Reads serializeUInt8 (BinaryOutputStreamSerializer.writeVarint value.toNat) value := by
  have read := Reads.map UInt8.ofNat (reads_readVarint (by omega) value.toNat_lt)
  rwa [UInt8.ofNat_toNat] at read

theorem reads_serializeUInt32 (value : UInt32) :
    Reads serializeUInt32 (BinaryOutputStreamSerializer.writeVarint value.toNat) value := by
  have read := Reads.map UInt32.ofNat (reads_readVarint (by omega) value.toNat_lt)
  rwa [UInt32.ofNat_toNat] at read

theorem reads_serializeUInt64 (value : UInt64) :
    Reads serializeUInt64 (BinaryOutputStreamSerializer.writeVarint value.toNat) value := by
  have read := Reads.map UInt64.ofNat (reads_readVarint (by omega) value.toNat_lt)
  rwa [UInt64.ofNat_toNat] at read

theorem serializeUInt8_eq_some {input rest : List UInt8} {value : UInt8}
    (read : serializeUInt8.run input = some (value, rest)) :
    input = BinaryOutputStreamSerializer.writeVarint value.toNat ++ rest := by
  obtain ⟨n, varint, rfl⟩ := run_map_eq_some.mp read
  obtain ⟨fits, spelled⟩ := readVarint_eq_some varint
  -- The value fits in eight bits, so the byte's value is the number read.
  have same : (UInt8.ofNat n).toNat = n := by
    have small : n < 256 := by simpa using fits
    simp [small]
  rw [same]
  exact spelled

theorem serializeUInt32_eq_some {input rest : List UInt8} {value : UInt32}
    (read : serializeUInt32.run input = some (value, rest)) :
    input = BinaryOutputStreamSerializer.writeVarint value.toNat ++ rest := by
  obtain ⟨n, varint, rfl⟩ := run_map_eq_some.mp read
  obtain ⟨fits, spelled⟩ := readVarint_eq_some varint
  have same : (UInt32.ofNat n).toNat = n := by
    have small : n < 4294967296 := by simpa using fits
    simp [small]
  rw [same]
  exact spelled

theorem serializeUInt64_eq_some {input rest : List UInt8} {value : UInt64}
    (read : serializeUInt64.run input = some (value, rest)) :
    input = BinaryOutputStreamSerializer.writeVarint value.toNat ++ rest := by
  obtain ⟨n, varint, rfl⟩ := run_map_eq_some.mp read
  obtain ⟨fits, spelled⟩ := readVarint_eq_some varint
  have same : (UInt64.ofNat n).toNat = n := by
    have small : n < 18446744073709551616 := by simpa using fits
    simp [small]
  rw [same]
  exact spelled

theorem reads_serializeHash (hash : Hash) : Reads serializeHash hash.data.toList hash :=
  Reads.map Hash.mk (reads_takeVector hash.data)

theorem serializeHash_eq_some {input rest : List UInt8} {hash : Hash}
    (read : serializeHash.run input = some (hash, rest)) : input = hash.data.toList ++ rest := by
  obtain ⟨bytes, taken, rfl⟩ := run_map_eq_some.mp read
  exact takeVector_eq_some taken

theorem reads_serializeString {bytes : List UInt8} (fits : bytes.length < 2 ^ 64) :
    Reads serializeString (BinaryOutputStreamSerializer.serializeString bytes) bytes :=
  Reads.bind (reads_readVarint (by omega) fits) (reads_take bytes)

theorem serializeString_eq_some {input rest bytes : List UInt8}
    (read : serializeString.run input = some (bytes, rest)) :
    bytes.length < 2 ^ 64 ∧ input = BinaryOutputStreamSerializer.serializeString bytes ++ rest := by
  obtain ⟨size, mid, varint, taken⟩ := run_bind_eq_some.mp read
  obtain ⟨fits, spelled⟩ := readVarint_eq_some varint
  obtain ⟨counted, rfl⟩ := take_eq_some taken
  subst counted
  refine ⟨fits, ?_⟩
  rw [spelled, BinaryOutputStreamSerializer.serializeString, List.append_assoc]

/-! ### Containers -/

section Container

variable {α : Type} {write : α → List UInt8} {read : ByteReader α}

/-- A container whose elements each read back is read back, when its length fits in 64 bits. -/
theorem reads_serializeContainer {value : List α} (each : ∀ a ∈ value, Reads read (write a) a)
    (fits : value.length < 2 ^ 64) :
    Reads (serializeContainer read) (BinaryOutputStreamSerializer.serializeContainer write value)
      value :=
  Reads.bind (reads_readVarint (by omega) fits) (reads_many each)

/-- A container the reader accepts is the writer's, when each element the reader accepts is. -/
theorem serializeContainer_eq_some
    (each : ∀ input a rest, read.run input = some (a, rest) → input = write a ++ rest)
    {input rest : List UInt8} {value : List α}
    (accepted : (serializeContainer read).run input = some (value, rest)) :
    value.length < 2 ^ 64 ∧
      input = BinaryOutputStreamSerializer.serializeContainer write value ++ rest := by
  obtain ⟨size, mid, varint, elements⟩ := run_bind_eq_some.mp accepted
  obtain ⟨fits, spelled⟩ := readVarint_eq_some varint
  obtain ⟨rfl, counted⟩ := many_eq_some each size mid value rest elements
  subst counted
  refine ⟨fits, ?_⟩
  rw [spelled, BinaryOutputStreamSerializer.serializeContainer, List.append_assoc]

end Container

/-- Every element written takes at least one byte, so a container is no longer than its bytes. -/
theorem length_le_serializeContainer {α : Type} {write : α → List UInt8}
    (nonempty : ∀ a, write a ≠ []) (value : List α) :
    value.length ≤ (BinaryOutputStreamSerializer.serializeContainer write value).length := by
  have elements : value.length ≤ (value.flatMap write).length := by
    induction value with
    | nil => simp
    | cons a value ih =>
      have : 0 < (write a).length := List.length_pos_iff.mpr (nonempty a)
      simp only [List.flatMap_cons, List.length_append, List.length_cons]
      omega
  simp only [BinaryOutputStreamSerializer.serializeContainer, List.length_append]
  omega

/-! ### Inputs and outputs -/

theorem reads_serializeVarintVector {vector : List UInt32}
    (fits : (BinaryOutputStreamSerializer.serializeVarintVector vector).length < 2 ^ 64) :
    Reads serializeVarintVector (BinaryOutputStreamSerializer.serializeVarintVector vector)
      vector := by
  have bound := length_le_serializeContainer (fun index : UInt32 =>
    Varint.encode_ne_nil index.toNat) vector
  exact reads_serializeContainer (fun index _ => reads_serializeUInt32 index)
    (Nat.lt_of_le_of_lt bound fits)

theorem serializeVarintVector_eq_some {input rest : List UInt8} {vector : List UInt32}
    (read : serializeVarintVector.run input = some (vector, rest)) :
    input = BinaryOutputStreamSerializer.serializeVarintVector vector ++ rest :=
  (serializeContainer_eq_some (fun _ _ _ read => serializeUInt32_eq_some read) read).2

theorem reads_serializeKeyInput {key : KeyInput}
    (fits : (BinaryOutputStreamSerializer.serializeKeyInput key).length < 2 ^ 64) :
    Reads serializeKeyInput (BinaryOutputStreamSerializer.serializeKeyInput key) key := by
  unfold BinaryOutputStreamSerializer.serializeKeyInput at fits ⊢
  simp only [List.length_append] at fits
  have offsets : Reads serializeVarintVector
      (BinaryOutputStreamSerializer.serializeVarintVector key.outputIndexes) key.outputIndexes :=
    reads_serializeVarintVector (by omega)
  have image := Reads.map KeyImage.mk (reads_takeVector key.keyImage.data)
  -- Amount, offsets and image, each read back in turn.
  intro rest
  simp only [serializeKeyInput, List.append_assoc]
  rw [Reads.run_bind (reads_serializeUInt64 _), Reads.run_bind offsets, Reads.run_bind image]
  rfl

theorem serializeKeyInput_eq_some {input rest : List UInt8} {key : KeyInput}
    (read : serializeKeyInput.run input = some (key, rest)) :
    input = BinaryOutputStreamSerializer.serializeKeyInput key ++ rest := by
  simp only [serializeKeyInput, run_bind_eq_some, run_pure_eq_some] at read
  obtain ⟨amount, mid, readAmount, outputIndexes, mid', readOffsets, keyImage, mid'', readImage,
    rfl, rfl⟩ := read
  obtain ⟨bytes, taken, rfl⟩ := run_map_eq_some.mp readImage
  rw [serializeUInt64_eq_some readAmount, serializeVarintVector_eq_some readOffsets,
    takeVector_eq_some taken]
  simp [BinaryOutputStreamSerializer.serializeKeyInput]

theorem reads_serializeMultisignatureInput (multisignature : MultisignatureInput) :
    Reads serializeMultisignatureInput
      (BinaryOutputStreamSerializer.serializeMultisignatureInput multisignature) multisignature := by
  intro rest
  simp only [serializeMultisignatureInput, BinaryOutputStreamSerializer.serializeMultisignatureInput,
    List.append_assoc]
  rw [Reads.run_bind (reads_serializeUInt64 _), Reads.run_bind (reads_serializeUInt8 _),
    Reads.run_bind (reads_serializeUInt32 _)]
  rfl

theorem serializeMultisignatureInput_eq_some {input rest : List UInt8}
    {multisignature : MultisignatureInput}
    (read : serializeMultisignatureInput.run input = some (multisignature, rest)) :
    input = BinaryOutputStreamSerializer.serializeMultisignatureInput multisignature ++ rest := by
  simp only [serializeMultisignatureInput, run_bind_eq_some, run_pure_eq_some] at read
  obtain ⟨amount, mid, readAmount, signatureCount, mid', readCount, outputIndex, mid'', readIndex,
    rfl, rfl⟩ := read
  rw [serializeUInt64_eq_some readAmount, serializeUInt8_eq_some readCount,
    serializeUInt32_eq_some readIndex]
  simp [BinaryOutputStreamSerializer.serializeMultisignatureInput]

/-- The one-byte tag in front of a variant. -/
theorem reads_tag (tag : UInt8) : Reads (takeVector 1) [tag] ⟨#[tag], rfl⟩ :=
  reads_takeVector ⟨#[tag], rfl⟩

/-- A one-byte vector is its one byte. The bound is given by name, so that the statement holds no
proof of its own. -/
theorem toList_vector_one (tag : Vector UInt8 1) : tag.toList = [getElem tag 0 Nat.one_pos] := by
  obtain ⟨⟨list⟩, size⟩ := tag
  -- Only a list of one byte has size one.
  rcases list with _ | ⟨byte, _ | ⟨_, _⟩⟩
  · cases size
  · rfl
  · cases size

theorem reads_serializeTransactionInput {input : TransactionInput}
    (fits : (BinaryOutputStreamSerializer.serializeTransactionInput input).length < 2 ^ 64) :
    Reads serializeTransactionInput (BinaryOutputStreamSerializer.serializeTransactionInput input)
      input := by
  intro rest
  -- The tag chooses the reader of the input's own kind.
  cases input with
  | base gen =>
    rw [serializeTransactionInput, BinaryOutputStreamSerializer.serializeTransactionInput,
      ← List.singleton_append, List.append_assoc, Reads.run_bind (reads_tag 0xff)]
    exact Reads.map TransactionInput.base (Reads.map BaseInput.mk
      (reads_serializeUInt32 gen.blockIndex)) rest
  | key key =>
    simp only [BinaryOutputStreamSerializer.serializeTransactionInput, List.length_cons] at fits
    rw [serializeTransactionInput, BinaryOutputStreamSerializer.serializeTransactionInput,
      ← List.singleton_append, List.append_assoc, Reads.run_bind (reads_tag 0x2)]
    exact Reads.map TransactionInput.key (reads_serializeKeyInput (by omega)) rest
  | multisignature multisignature =>
    rw [serializeTransactionInput, BinaryOutputStreamSerializer.serializeTransactionInput,
      ← List.singleton_append, List.append_assoc, Reads.run_bind (reads_tag 0x3)]
    exact Reads.map TransactionInput.multisignature
      (reads_serializeMultisignatureInput multisignature) rest

theorem serializeTransactionInput_eq_some {bytes rest : List UInt8} {input : TransactionInput}
    (read : serializeTransactionInput.run bytes = some (input, rest)) :
    bytes = BinaryOutputStreamSerializer.serializeTransactionInput input ++ rest := by
  obtain ⟨tag, mid, readTag, readInput⟩ := run_bind_eq_some.mp read
  rw [takeVector_eq_some readTag, toList_vector_one]
  -- The input after the tag is of the kind the tag names.
  split at readInput
  · rename_i named
    obtain ⟨gen, readGen, rfl⟩ := run_map_eq_some.mp readInput
    obtain ⟨index, readIndex, rfl⟩ := run_map_eq_some.mp readGen
    rw [named, serializeUInt32_eq_some readIndex]
    rfl
  · rename_i named
    obtain ⟨key, readKey, rfl⟩ := run_map_eq_some.mp readInput
    rw [named, serializeKeyInput_eq_some readKey]
    rfl
  · rename_i named
    obtain ⟨multisignature, readMultisignature, rfl⟩ := run_map_eq_some.mp readInput
    rw [named, serializeMultisignatureInput_eq_some readMultisignature]
    rfl
  · simp at readInput

theorem reads_serializeMultisignatureOutput {multisignature : MultisignatureOutput}
    (fits : (BinaryOutputStreamSerializer.serializeMultisignatureOutput multisignature).length <
      2 ^ 64) :
    Reads serializeMultisignatureOutput
      (BinaryOutputStreamSerializer.serializeMultisignatureOutput multisignature)
      multisignature := by
  unfold BinaryOutputStreamSerializer.serializeMultisignatureOutput at fits ⊢
  simp only [List.length_append] at fits
  -- The keys are a container of 32-byte keys, none of them empty.
  have bound : multisignature.keys.length ≤ (BinaryOutputStreamSerializer.serializeContainer
      (fun key : PublicKey => key.data.toList) multisignature.keys).length :=
    length_le_serializeContainer (fun key => List.ne_nil_of_length_pos (by simp)) _
  have keys : Reads (serializeContainer (PublicKey.mk <$> takeVector 32))
      (BinaryOutputStreamSerializer.serializeContainer (fun key : PublicKey => key.data.toList)
        multisignature.keys) multisignature.keys :=
    reads_serializeContainer (fun key _ => Reads.map PublicKey.mk (reads_takeVector key.data))
      (by omega)
  intro rest
  simp only [serializeMultisignatureOutput, List.append_assoc]
  rw [Reads.run_bind keys, Reads.run_bind (reads_serializeUInt8 _)]
  rfl

theorem serializeMultisignatureOutput_eq_some {input rest : List UInt8}
    {multisignature : MultisignatureOutput}
    (read : serializeMultisignatureOutput.run input = some (multisignature, rest)) :
    input = BinaryOutputStreamSerializer.serializeMultisignatureOutput multisignature ++ rest := by
  simp only [serializeMultisignatureOutput, run_bind_eq_some, run_pure_eq_some] at read
  obtain ⟨keys, mid, readKeys, requiredSignatureCount, mid', readCount, rfl, rfl⟩ := read
  have key : ∀ input (key : PublicKey) rest,
      (PublicKey.mk <$> takeVector 32).run input = some (key, rest) →
        input = key.data.toList ++ rest := by
    intro input key rest read
    obtain ⟨bytes, taken, rfl⟩ := run_map_eq_some.mp read
    exact takeVector_eq_some taken
  rw [(serializeContainer_eq_some key readKeys).2, serializeUInt8_eq_some readCount]
  simp [BinaryOutputStreamSerializer.serializeMultisignatureOutput]

theorem reads_serializeTransactionOutputTarget {target : TransactionOutputTarget}
    (fits : (BinaryOutputStreamSerializer.serializeTransactionOutputTarget target).length <
      2 ^ 64) :
    Reads serializeTransactionOutputTarget
      (BinaryOutputStreamSerializer.serializeTransactionOutputTarget target) target := by
  intro rest
  cases target with
  | key key =>
    rw [serializeTransactionOutputTarget,
      BinaryOutputStreamSerializer.serializeTransactionOutputTarget, ← List.singleton_append,
      List.append_assoc, Reads.run_bind (reads_tag 0x2)]
    exact Reads.map (fun bytes => TransactionOutputTarget.key ⟨⟨bytes⟩⟩)
      (reads_takeVector key.key.data) rest
  | multisignature multisignature =>
    simp only [BinaryOutputStreamSerializer.serializeTransactionOutputTarget,
      List.length_cons] at fits
    rw [serializeTransactionOutputTarget,
      BinaryOutputStreamSerializer.serializeTransactionOutputTarget, ← List.singleton_append,
      List.append_assoc, Reads.run_bind (reads_tag 0x3)]
    exact Reads.map TransactionOutputTarget.multisignature
      (reads_serializeMultisignatureOutput (by omega)) rest

theorem serializeTransactionOutputTarget_eq_some {input rest : List UInt8}
    {target : TransactionOutputTarget}
    (read : serializeTransactionOutputTarget.run input = some (target, rest)) :
    input = BinaryOutputStreamSerializer.serializeTransactionOutputTarget target ++ rest := by
  obtain ⟨tag, mid, readTag, readTarget⟩ := run_bind_eq_some.mp read
  rw [takeVector_eq_some readTag, toList_vector_one]
  -- The target after the tag is of the kind the tag names.
  split at readTarget
  · rename_i named
    obtain ⟨bytes, taken, rfl⟩ := run_map_eq_some.mp readTarget
    rw [named, takeVector_eq_some taken]
    rfl
  · rename_i named
    obtain ⟨multisignature, readMultisignature, rfl⟩ := run_map_eq_some.mp readTarget
    rw [named, serializeMultisignatureOutput_eq_some readMultisignature]
    rfl
  · simp at readTarget

theorem reads_serializeTransactionOutput {output : TransactionOutput}
    (fits : (BinaryOutputStreamSerializer.serializeTransactionOutput output).length < 2 ^ 64) :
    Reads serializeTransactionOutput (BinaryOutputStreamSerializer.serializeTransactionOutput output)
      output := by
  unfold BinaryOutputStreamSerializer.serializeTransactionOutput at fits ⊢
  simp only [List.length_append] at fits
  intro rest
  simp only [serializeTransactionOutput, List.append_assoc]
  rw [Reads.run_bind (reads_serializeUInt64 _),
    Reads.run_bind (reads_serializeTransactionOutputTarget (by omega))]
  rfl

theorem serializeTransactionOutput_eq_some {input rest : List UInt8} {output : TransactionOutput}
    (read : serializeTransactionOutput.run input = some (output, rest)) :
    input = BinaryOutputStreamSerializer.serializeTransactionOutput output ++ rest := by
  simp only [serializeTransactionOutput, run_bind_eq_some, run_pure_eq_some] at read
  obtain ⟨amount, mid, readAmount, target, mid', readTarget, rfl, rfl⟩ := read
  rw [serializeUInt64_eq_some readAmount, serializeTransactionOutputTarget_eq_some readTarget]
  simp [BinaryOutputStreamSerializer.serializeTransactionOutput]

/-! ### The prefix -/

/-- Each input written takes at least its tag. -/
theorem serializeTransactionInput_ne_nil (input : TransactionInput) :
    BinaryOutputStreamSerializer.serializeTransactionInput input ≠ [] := by
  cases input <;> simp [BinaryOutputStreamSerializer.serializeTransactionInput]

/-- Each output written takes at least its amount. -/
theorem serializeTransactionOutput_ne_nil (output : TransactionOutput) :
    BinaryOutputStreamSerializer.serializeTransactionOutput output ≠ [] := by
  simp [BinaryOutputStreamSerializer.serializeTransactionOutput,
    BinaryOutputStreamSerializer.writeVarint, Varint.encode_ne_nil]

/-- A container is no shorter than any of its elements' bytes. -/
theorem length_le_of_mem_serializeContainer {α : Type} {write : α → List UInt8} {value : List α}
    {a : α} (member : a ∈ value) :
    (write a).length ≤ (BinaryOutputStreamSerializer.serializeContainer write value).length := by
  have inner : (write a).length ≤ (value.flatMap write).length := by
    induction value with
    | nil => cases member
    | cons b value ih =>
      simp only [List.flatMap_cons, List.length_append]
      rcases List.mem_cons.mp member with same | later
      · subst same
        omega
      · have := ih later
        omega
  simp only [BinaryOutputStreamSerializer.serializeContainer, List.length_append]
  omega

theorem reads_serializeTransactionPrefix {txP : TransactionPrefix} {bytes : List UInt8}
    (write : BinaryOutputStreamSerializer.serializeTransactionPrefix txP = some bytes)
    (fits : bytes.length < 2 ^ 64) : Reads serializeTransactionPrefix bytes txP := by
  unfold BinaryOutputStreamSerializer.serializeTransactionPrefix at write
  split at write
  · cases write
  · rename_i notNewer
    simp only [Option.some.injEq] at write
    subst write
    simp only [List.length_append] at fits
    -- Inputs and outputs are containers of non-empty elements, each shorter than the whole.
    have inputsBound := length_le_serializeContainer serializeTransactionInput_ne_nil txP.inputs
    have outputsBound := length_le_serializeContainer serializeTransactionOutput_ne_nil txP.outputs
    have inputs : Reads (serializeContainer serializeTransactionInput)
        (BinaryOutputStreamSerializer.serializeContainer
          BinaryOutputStreamSerializer.serializeTransactionInput txP.inputs) txP.inputs :=
      reads_serializeContainer (fun input member =>
        reads_serializeTransactionInput (Nat.lt_of_le_of_lt
          (length_le_of_mem_serializeContainer member) (by omega))) (by omega)
    have outputs : Reads (serializeContainer serializeTransactionOutput)
        (BinaryOutputStreamSerializer.serializeContainer
          BinaryOutputStreamSerializer.serializeTransactionOutput txP.outputs) txP.outputs :=
      reads_serializeContainer (fun output member =>
        reads_serializeTransactionOutput (Nat.lt_of_le_of_lt
          (length_le_of_mem_serializeContainer member) (by omega))) (by omega)
    have extra : Reads serializeString (BinaryOutputStreamSerializer.serializeString txP.extra)
        txP.extra := reads_serializeString (by
      simp only [BinaryOutputStreamSerializer.serializeString, List.length_append] at fits
      omega)
    intro rest
    simp only [serializeTransactionPrefix, List.append_assoc]
    simp only [Reads.run_bind (reads_serializeUInt8 _), if_neg notNewer,
      Reads.run_bind (reads_serializeUInt64 _), Reads.run_bind inputs, Reads.run_bind outputs,
      Reads.run_bind extra]
    rfl

theorem serializeTransactionPrefix_eq_some {input rest : List UInt8} {txP : TransactionPrefix}
    (read : serializeTransactionPrefix.run input = some (txP, rest)) :
    ∃ bytes, BinaryOutputStreamSerializer.serializeTransactionPrefix txP = some bytes ∧
      input = bytes ++ rest := by
  obtain ⟨version, mid, readVersion, afterVersion⟩ := run_bind_eq_some.mp read
  -- A newer version fails; otherwise the fields follow.
  split at afterVersion
  · simp at afterVersion
  · rename_i notNewer
    simp only [run_bind_eq_some, run_pure_eq_some] at afterVersion
    obtain ⟨unlockTime, mid₁, readUnlock, inputs, mid₂, readInputs, outputs, mid₃, readOutputs,
      extra, mid₄, readExtra, rfl, rfl⟩ := afterVersion
    refine ⟨_, if_neg notNewer, ?_⟩
    rw [serializeUInt8_eq_some readVersion, serializeUInt64_eq_some readUnlock,
      (serializeContainer_eq_some (fun _ _ _ read => serializeTransactionInput_eq_some read)
        readInputs).2,
      (serializeContainer_eq_some (fun _ _ _ read => serializeTransactionOutput_eq_some read)
        readOutputs).2, (serializeString_eq_some readExtra).2]
    simp


/-! ### Signatures -/

/-- A signature is its sixty-four bytes. -/
theorem reads_signature (signature : Signature) :
    Reads (Signature.mk <$> takeVector 64) signature.data.toList signature :=
  Reads.map Signature.mk (reads_takeVector signature.data)

theorem signature_eq_some {input rest : List UInt8} {signature : Signature}
    (read : (Signature.mk <$> takeVector 64).run input = some (signature, rest)) :
    input = signature.data.toList ++ rest := by
  obtain ⟨bytes, taken, rfl⟩ := run_map_eq_some.mp read
  exact takeVector_eq_some taken

/-- With no signatures the writer writes nothing, and needs every input to ask for none. -/
theorem serializeSignatures_not_expected :
    ∀ (inputs : List TransactionInput) (signatures : List (List Signature)) (bytes : List UInt8),
      BinaryOutputStreamSerializer.serializeSignatures true inputs signatures = some bytes ↔
        bytes = [] ∧ ∀ input ∈ inputs, getSignaturesCount input = 0
  | [], signatures, bytes => by
    simp [BinaryOutputStreamSerializer.serializeSignatures, eq_comm]
  | input :: inputs, signatures, bytes => by
    have ih := serializeSignatures_not_expected inputs signatures bytes
    by_cases unsigned : getSignaturesCount input = 0
    · simp [BinaryOutputStreamSerializer.serializeSignatures, unsigned, ih]
    · simp [BinaryOutputStreamSerializer.serializeSignatures, unsigned]

/-- With no signatures expected the reader reads nothing, when every input asks for none. -/
theorem reads_serializeSignatures_not_expected :
    ∀ (inputs : List TransactionInput), (∀ input ∈ inputs, getSignaturesCount input = 0) →
      Reads (serializeSignatures true inputs) [] []
  | [], _ => Reads.pure []
  | input :: inputs, unsigned => by
    have ih := reads_serializeSignatures_not_expected inputs fun other member =>
      unsigned other (List.mem_cons_of_mem input member)
    intro rest
    simp only [serializeSignatures, unsigned input List.mem_cons_self, if_true]
    exact ih rest

theorem serializeSignatures_not_expected_eq_some :
    ∀ (inputs : List TransactionInput) {input rest : List UInt8} {signatures : List (List Signature)},
      (serializeSignatures true inputs).run input = some (signatures, rest) →
        signatures = [] ∧ input = rest ∧ ∀ input ∈ inputs, getSignaturesCount input = 0
  | [], input, rest, signatures, read => by
    simp only [serializeSignatures, run_pure_eq_some] at read
    obtain ⟨rfl, rfl⟩ := read
    simp
  | first :: inputs, input, rest, signatures, read => by
    simp only [serializeSignatures, if_true] at read
    by_cases unsigned : getSignaturesCount first = 0
    · rw [if_pos unsigned] at read
      obtain ⟨empty, same, others⟩ := serializeSignatures_not_expected_eq_some inputs read
      refine ⟨empty, same, ?_⟩
      intro input member
      rcases List.mem_cons.mp member with rfl | later
      · exact unsigned
      · exact others input later
    · rw [if_neg unsigned] at read
      cases read

/-- Expecting signatures, the reader reads back each input's list. -/
theorem reads_serializeSignatures :
    ∀ (inputs : List TransactionInput) (signatures : List (List Signature)) (bytes : List UInt8),
      signatures.length = inputs.length →
      BinaryOutputStreamSerializer.serializeSignatures false inputs signatures = some bytes →
      Reads (serializeSignatures false inputs) bytes signatures
  | [], [], bytes, _, write => by
    simp only [BinaryOutputStreamSerializer.serializeSignatures, Option.some.injEq] at write
    subst write
    exact Reads.pure []
  | input :: inputs, current :: others, bytes, counted, write => by
    simp only [BinaryOutputStreamSerializer.serializeSignatures, Bool.false_eq_true, if_false]
      at write
    split at write
    · cases write
    · rename_i sized
      obtain ⟨restBytes, restWrite, rfl⟩ := Option.map_eq_some_iff.mp write
      have tail := reads_serializeSignatures inputs others restBytes
        (by simpa using counted) restWrite
      -- The input's own list is as long as the input asks, so `many` reads exactly it.
      have own : Reads (many (Signature.mk <$> takeVector 64) current.length)
          (current.flatMap fun signature => signature.data.toList) current :=
        reads_many fun signature _ => reads_signature signature
      have count : getSignaturesCount input = current.length := by omega
      intro rest
      simp only [serializeSignatures, Bool.false_eq_true, if_false, List.append_assoc]
      rw [count, Reads.run_bind own, Reads.run_bind tail]
      rfl

/-- Expecting signatures, what the reader accepts is each input's list as the writer writes it. -/
theorem serializeSignatures_eq_some :
    ∀ (inputs : List TransactionInput) {input rest : List UInt8} {signatures : List (List Signature)},
      (serializeSignatures false inputs).run input = some (signatures, rest) →
        signatures.length = inputs.length ∧ ∃ bytes,
          BinaryOutputStreamSerializer.serializeSignatures false inputs signatures = some bytes ∧
            input = bytes ++ rest
  | [], input, rest, signatures, read => by
    simp only [serializeSignatures, run_pure_eq_some] at read
    obtain ⟨rfl, rfl⟩ := read
    exact ⟨rfl, [], rfl, rfl⟩
  | first :: inputs, input, rest, signatures, read => by
    simp only [serializeSignatures, Bool.false_eq_true, if_false, run_bind_eq_some,
      run_pure_eq_some] at read
    obtain ⟨current, mid, readOwn, others, mid', readOthers, rfl, rfl⟩ := read
    obtain ⟨rfl, counted⟩ := many_eq_some (fun _ _ _ read => signature_eq_some read) _ _ _ _ readOwn
    obtain ⟨length, restBytes, restWrite, rfl⟩ := serializeSignatures_eq_some inputs readOthers
    refine ⟨by simp [length], current.flatMap (fun signature => signature.data.toList) ++ restBytes,
      ?_, by rw [List.append_assoc]⟩
    simp [BinaryOutputStreamSerializer.serializeSignatures, counted, restWrite]

/-! ### Transactions -/

theorem serializeTransaction_eq_append {tx : Transaction} {bytes : List UInt8}
    (write : BinaryOutputStreamSerializer.serializeTransaction tx = some bytes) :
    (tx.signatures.isEmpty = false → tx.inputs.length = tx.signatures.length) ∧
    ∃ prefixBytes signatureBytes,
      BinaryOutputStreamSerializer.serializeTransactionPrefix tx.toTransactionPrefix = some prefixBytes ∧
      BinaryOutputStreamSerializer.serializeSignatures tx.signatures.isEmpty tx.inputs tx.signatures
        = some signatureBytes ∧ bytes = prefixBytes ++ signatureBytes := by
  simp only [BinaryOutputStreamSerializer.serializeTransaction, Option.bind_eq_bind,
    Option.bind_eq_some_iff] at write
  obtain ⟨prefixBytes, prefixWrite, afterPrefix⟩ := write
  split at afterPrefix
  · simp at afterPrefix
  · rename_i consistent
    obtain ⟨signatureBytes, signaturesWrite, joined⟩ := Option.bind_eq_some_iff.mp afterPrefix
    refine ⟨?_, prefixBytes, signatureBytes, prefixWrite, signaturesWrite, ?_⟩
    · intro expected
      simp [expected] at consistent
      exact consistent
    · simpa [eq_comm] using joined

/-- The signatures the reader starts from, reading into an object without signatures: none for a
lone coinbase input, one empty list per input otherwise. -/
theorem initialSignatures_fresh {object : Transaction} (fresh : object.signatures = [])
    (inputs : List TransactionInput) :
    (if isLoneBaseInput inputs = true then object.signatures else List.replicate inputs.length [])
      = if isLoneBaseInput inputs = true then [] else List.replicate inputs.length [] := by
  rw [fresh]

theorem reads_serializeTransaction {tx : Transaction} {bytes : List UInt8}
    (write : BinaryOutputStreamSerializer.serializeTransaction tx = some bytes)
    (fits : bytes.length < 2 ^ 64) (form : signaturesInReadForm tx = true) {object : Transaction}
    (fresh : object.signatures = []) : Reads (serializeTransaction object) bytes tx := by
  obtain ⟨consistent, prefixBytes, signatureBytes, prefixWrite, signaturesWrite, rfl⟩ :=
    serializeTransaction_eq_append write
  have prefixRead : Reads serializeTransactionPrefix prefixBytes tx.toTransactionPrefix :=
    reads_serializeTransactionPrefix prefixWrite (by simp at fits; omega)
  obtain ⟨txP, signatures⟩ := tx
  intro rest
  simp only [serializeTransaction, List.append_assoc]
  rw [Reads.run_bind prefixRead, initialSignatures_fresh fresh]
  simp only [signaturesInReadForm] at form
  by_cases lone : isLoneBaseInput txP.inputs = true
  · -- A lone coinbase input: the signatures are none, the writer wrote none and none is read.
    simp only [lone, if_true, List.isEmpty_iff] at form
    subst form
    obtain ⟨rfl, silent⟩ := (serializeSignatures_not_expected _ _ _).mp signaturesWrite
    simp only [lone, if_true, List.isEmpty_nil, Bool.not_true, Bool.false_eq_true, false_and,
      if_false]
    rw [Reads.run_bind (reads_serializeSignatures_not_expected _ silent)]
    rfl
  · -- Otherwise one list per input, read back one after the other.
    simp only [lone, Bool.false_eq_true, if_false, beq_iff_eq] at form
    simp only [lone, Bool.false_eq_true, if_false, List.length_replicate, ne_eq,
      not_true_eq_false, and_false]
    cases signatures with
    | nil =>
      -- No inputs at all: nothing to sign and nothing read.
      have none : txP.inputs = [] := List.length_eq_zero_iff.mp form.symm
      simp only [none, List.length_nil, List.replicate_zero, List.isEmpty_nil, if_true]
      simp only [none, List.isEmpty_nil] at signaturesWrite
      obtain ⟨rfl, -⟩ := (serializeSignatures_not_expected _ _ _).mp signaturesWrite
      rfl
    | cons current others =>
      have expected : (List.replicate txP.inputs.length ([] : List Signature)).isEmpty = false := by
        simp [← form]
      simp only [expected, Bool.false_eq_true, if_false]
      simp only [List.isEmpty_cons] at signaturesWrite
      rw [Reads.run_bind (reads_serializeSignatures _ _ _ form signaturesWrite)]
      rfl

/-- What the reader accepts into an object without signatures is a transaction in read form, as
the writer writes it. -/
theorem serializeTransaction_eq_some {object : Transaction} (fresh : object.signatures = [])
    {input rest : List UInt8} {tx : Transaction}
    (read : (serializeTransaction object).run input = some (tx, rest)) :
    signaturesInReadForm tx = true ∧ ∃ bytes,
      BinaryOutputStreamSerializer.serializeTransaction tx = some bytes ∧ input = bytes ++ rest := by
  obtain ⟨txP, mid, readPrefix, afterPrefix⟩ := run_bind_eq_some.mp read
  obtain ⟨prefixBytes, prefixWrite, rfl⟩ := serializeTransactionPrefix_eq_some readPrefix
  simp only [initialSignatures_fresh fresh] at afterPrefix
  by_cases lone : isLoneBaseInput txP.inputs = true
  · -- A lone coinbase input: nothing may follow the prefix, and the signatures stay empty.
    simp only [lone, if_true, List.isEmpty_nil, Bool.not_true, Bool.false_eq_true, false_and,
      if_false, run_bind_eq_some, run_pure_eq_some] at afterPrefix
    obtain ⟨read, mid', readSignatures, rfl, rfl⟩ := afterPrefix
    obtain ⟨rfl, rfl, silent⟩ := serializeSignatures_not_expected_eq_some _ readSignatures
    refine ⟨by simp [signaturesInReadForm, lone], prefixBytes, ?_, rfl⟩
    simp [BinaryOutputStreamSerializer.serializeTransaction, prefixWrite,
      (serializeSignatures_not_expected _ _ _).mpr ⟨rfl, silent⟩]
  · simp only [lone, Bool.false_eq_true, if_false, List.length_replicate, ne_eq,
      not_true_eq_false, and_false] at afterPrefix
    by_cases none : txP.inputs = []
    · -- No inputs: nothing is read and nothing written after the prefix.
      simp only [none, List.length_nil, List.replicate_zero, List.isEmpty_nil, if_true,
        serializeSignatures, run_bind_eq_some, run_pure_eq_some] at afterPrefix
      obtain ⟨read, mid', ⟨rfl, rfl⟩, rfl, rfl⟩ := afterPrefix
      refine ⟨by simp [signaturesInReadForm, none], prefixBytes, ?_, rfl⟩
      simp [BinaryOutputStreamSerializer.serializeTransaction, prefixWrite, none,
        BinaryOutputStreamSerializer.serializeSignatures]
    · -- One list per input is read, and written back the same way.
      have expected : (List.replicate txP.inputs.length ([] : List Signature)).isEmpty = false := by
        simpa [List.isEmpty_iff] using none
      simp only [expected, Bool.false_eq_true, if_false, run_bind_eq_some,
        run_pure_eq_some] at afterPrefix
      obtain ⟨signatures, mid', readSignatures, rfl, rfl⟩ := afterPrefix
      obtain ⟨counted, signatureBytes, signaturesWrite, rfl⟩ :=
        serializeSignatures_eq_some _ readSignatures
      have signed : signatures.isEmpty = false := by
        simpa [List.isEmpty_iff, ← List.length_eq_zero_iff, counted] using none
      refine ⟨by simp [signaturesInReadForm, lone, counted], prefixBytes ++ signatureBytes, ?_,
        by rw [List.append_assoc]⟩
      simp [BinaryOutputStreamSerializer.serializeTransaction, prefixWrite, signed, counted,
        signaturesWrite]

end BinaryInputStreamSerializer

namespace Transaction

/-- A transaction in read form that the writer writes is read back from its blob into an object
without signatures. -/
theorem fromBinaryArray_toBinaryArray {tx object : Transaction} {binaryArray : List UInt8}
    (write : tx.toBinaryArray = some binaryArray) (fits : binaryArray.length < 2 ^ 64)
    (form : signaturesInReadForm tx = true) (fresh : object.signatures = []) :
    fromBinaryArray object binaryArray = some tx := by
  have read := BinaryInputStreamSerializer.reads_serializeTransaction write fits form fresh []
  rw [List.append_nil] at read
  simp [fromBinaryArray, read]

/-- Every blob the reader accepts into an object without signatures is the writer's blob of the
transaction read, and that transaction is in read form. -/
theorem toBinaryArray_fromBinaryArray {tx object : Transaction} {binaryArray : List UInt8}
    (fresh : object.signatures = []) (read : fromBinaryArray object binaryArray = some tx) :
    signaturesInReadForm tx = true ∧ tx.toBinaryArray = some binaryArray := by
  unfold fromBinaryArray at read
  split at read
  · rename_i accepted
    cases read
    obtain ⟨form, bytes, write, same⟩ :=
      BinaryInputStreamSerializer.serializeTransaction_eq_some fresh accepted
    rw [List.append_nil] at same
    exact ⟨form, same ▸ write⟩
  · cases read

end Transaction

end CryptoNote
