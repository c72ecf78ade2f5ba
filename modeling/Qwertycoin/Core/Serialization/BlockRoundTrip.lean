import Qwertycoin.Core.Serialization.TransactionRoundTrip

/-!
The reader of `serialize(Block&)` against its writer.

A block is its header, for versions 2 and 3 a merge-mined parent block, its coinbase and its
transaction ids. Read into an object without signatures, a block whose coinbases are in read form
is read back from its blob, except that versions other than 2 and 3 carry no parent block and keep
the object's (`fromBinaryArray_toBinaryArray`). The other way is exact for those versions only: the
parent block's transaction count is read as a 64-bit varint but kept in a `uint16_t`, so the blob
written back has the count modulo `2 ^ 16` in its place (`toBinaryArray_fromBinaryArray`).
-/

namespace CryptoNote

open ByteReader

/-! ### The nonce's bytes -/

/-- The four bytes of a `uint32_t` read back as it. -/
@[simp] theorem uint32OfBytes_uint32Bytes (value : UInt32) :
    uint32OfBytes (uint32Bytes value) = value := by
  have small := value.toNat_lt
  have digits : value.toNat % 256 + 256 * (value.toNat / 256 % 256) +
      65536 * (value.toNat / 65536 % 256) + 16777216 * (value.toNat / 16777216 % 256) =
        value.toNat := by omega
  simp only [uint32OfBytes, uint32Bytes]
  simp [digits]

/-- Any four bytes are those of the `uint32_t` they spell. -/
@[simp] theorem uint32Bytes_uint32OfBytes (bytes : Vector UInt8 4) :
    uint32Bytes (uint32OfBytes bytes) = bytes := by
  have b0 := bytes[0].toNat_lt
  have b1 := bytes[1].toNat_lt
  have b2 := bytes[2].toNat_lt
  have b3 := bytes[3].toNat_lt
  -- The bytes' value is below `2 ^ 32`, so the conversion keeps it and each byte is a digit of it.
  have value : (uint32OfBytes bytes).toNat = bytes[0].toNat + 256 * bytes[1].toNat +
      65536 * bytes[2].toNat + 16777216 * bytes[3].toNat := by
    simp only [uint32OfBytes, UInt32.toNat_ofNat']
    omega
  apply Vector.ext
  intro i below
  simp only [uint32Bytes, value]
  interval_cases i <;> exact UInt8.toNat_inj.mp (by simp <;> omega)

namespace Block

/-- The coinbases of a block as the reader leaves them: the block's own, and for versions 2 and 3
also the parent block's. -/
def coinbasesInReadForm (block : Block) : Bool :=
  signaturesInReadForm block.baseTransaction &&
    (if block.majorVersion = 2 ∨ block.majorVersion = 3 then
      signaturesInReadForm block.parentBlock.baseTransaction
    else true)

/-- A block as read into `object`: a version other than 2 and 3 carries no parent block, and the
object's stays. -/
def readInto (block object : Block) : Block :=
  if block.majorVersion = 2 ∨ block.majorVersion = 3 then block
  else { block with parentBlock := object.parentBlock }

end Block

namespace BinaryInputStreamSerializer

theorem reads_nonce (nonce : UInt32) :
    Reads (uint32OfBytes <$> takeVector 4) (uint32Bytes nonce).toList nonce := by
  have read := Reads.map uint32OfBytes (reads_takeVector (uint32Bytes nonce))
  rwa [uint32OfBytes_uint32Bytes] at read

theorem nonce_eq_some {input rest : List UInt8} {nonce : UInt32}
    (read : (uint32OfBytes <$> takeVector 4).run input = some (nonce, rest)) :
    input = (uint32Bytes nonce).toList ++ rest := by
  obtain ⟨bytes, taken, rfl⟩ := run_map_eq_some.mp read
  rw [uint32Bytes_uint32OfBytes]
  exact takeVector_eq_some taken

/-! ### Headers -/

/-- The header read into `object`: versions 2 and 3 leave the object's timestamp and nonce. -/
def headerReadInto (object header : BlockHeader) : BlockHeader :=
  if header.majorVersion = 2 ∨ header.majorVersion = 3 then
    { header with timestamp := object.timestamp, nonce := object.nonce }
  else header

theorem reads_serializeBlockHeader (object : BlockHeader) {header : BlockHeader}
    {bytes : List UInt8} (write : BinaryOutputStreamSerializer.serializeBlockHeader header = some bytes) :
    Reads (serializeBlockHeader object) bytes (headerReadInto object header) := by
  obtain ⟨majorVersion, minorVersion, nonce, timestamp, previousBlockHash⟩ := header
  simp only [BinaryOutputStreamSerializer.serializeBlockHeader] at write
  intro rest
  split_ifs at write with newer merged older
  · -- Versions 2 and 3: the previous block's id only.
    cases write
    simp only [serializeBlockHeader, List.append_assoc]
    rw [Reads.run_bind (reads_serializeUInt8 _), if_neg newer, Reads.run_bind (reads_serializeUInt8 _),
      if_pos merged, Reads.run_bind (reads_serializeHash _)]
    simp [headerReadInto, merged]
  · -- Versions 1 and 4 to 6: timestamp, previous block's id and nonce.
    cases write
    simp only [serializeBlockHeader, List.append_assoc]
    rw [Reads.run_bind (reads_serializeUInt8 _), if_neg newer, Reads.run_bind (reads_serializeUInt8 _),
      if_neg merged, if_pos older, Reads.run_bind (reads_serializeUInt64 _),
      Reads.run_bind (reads_serializeHash _), Reads.run_bind (reads_nonce _)]
    simp [headerReadInto, merged]

/-- What the header reader accepts is the writer's header. -/
theorem serializeBlockHeader_eq_some {object header : BlockHeader} {input rest : List UInt8}
    (read : (serializeBlockHeader object).run input = some (header, rest)) :
    ∃ bytes, BinaryOutputStreamSerializer.serializeBlockHeader header = some bytes ∧
      input = bytes ++ rest := by
  obtain ⟨majorVersion, mid, readMajor, afterMajor⟩ := run_bind_eq_some.mp read
  rw [serializeUInt8_eq_some readMajor]
  by_cases newer : majorVersion > 6
  · simp [newer] at afterMajor
  simp only [newer, if_false] at afterMajor
  obtain ⟨minorVersion, mid', readMinor, afterMinor⟩ := run_bind_eq_some.mp afterMajor
  rw [serializeUInt8_eq_some readMinor]
  by_cases merged : majorVersion = 2 ∨ majorVersion = 3
  · -- Versions 2 and 3: the previous block's id only.
    simp only [merged, if_true, run_bind_eq_some, run_pure_eq_some] at afterMinor
    obtain ⟨previousBlockHash, mid'', readHash, rfl, rfl⟩ := afterMinor
    refine ⟨BinaryOutputStreamSerializer.writeVarint majorVersion.toNat ++
      BinaryOutputStreamSerializer.writeVarint minorVersion.toNat ++ previousBlockHash.data.toList,
      by simp [BinaryOutputStreamSerializer.serializeBlockHeader, newer, merged], ?_⟩
    rw [serializeHash_eq_some readHash]
    simp
  by_cases older : majorVersion = 1 ∨ majorVersion ≥ 4
  · -- Versions 1 and 4 to 6: timestamp, previous block's id and nonce.
    simp only [merged, older, if_true, if_false, run_bind_eq_some, run_pure_eq_some] at afterMinor
    obtain ⟨timestamp, _, readTimestamp, previousBlockHash, _, readHash, nonce, _, readNonce,
      rfl, rfl⟩ := afterMinor
    refine ⟨BinaryOutputStreamSerializer.writeVarint majorVersion.toNat ++
      BinaryOutputStreamSerializer.writeVarint minorVersion.toNat ++
      BinaryOutputStreamSerializer.writeVarint timestamp.toNat ++ previousBlockHash.data.toList ++
      (uint32Bytes nonce).toList,
      by simp [BinaryOutputStreamSerializer.serializeBlockHeader, newer, merged, older], ?_⟩
    rw [serializeUInt64_eq_some readTimestamp, serializeHash_eq_some readHash,
      nonce_eq_some readNonce]
    simp
  · simp [merged, older] at afterMinor

/-! ### Parent blocks -/

/-- The hashes of a branch, one after the other. -/
theorem reads_branch (branch : List Hash) :
    Reads (many serializeHash branch.length) (branch.flatMap fun hash => hash.data.toList) branch :=
  reads_many fun hash _ => reads_serializeHash hash

/-- What the writer of a parent block needs, and what it writes. -/
theorem serializeParentBlock_eq_some_iff {parent : ParentBlock} {timestamp : UInt64}
    {nonce : UInt32} {bytes : List UInt8} :
    BinaryOutputStreamSerializer.serializeParentBlock parent timestamp nonce = some bytes ↔
      1 ≤ parent.transactionCount ∧
      parent.baseTransactionBranch.length = treeDepth parent.transactionCount.toNat ∧
      ∃ minerTx mmTag, BinaryOutputStreamSerializer.serializeTransaction parent.baseTransaction =
          some minerTx ∧
        getMergeMiningTagFromExtra parent.baseTransaction.extra = some mmTag ∧
        mmTag.depth ≤ 8 * 32 ∧ mmTag.depth = parent.blockchainBranch.length ∧
        bytes = BinaryOutputStreamSerializer.writeVarint parent.majorVersion.toNat ++
          BinaryOutputStreamSerializer.writeVarint parent.minorVersion.toNat ++
          BinaryOutputStreamSerializer.writeVarint timestamp.toNat ++
          parent.previousBlockHash.data.toList ++ (uint32Bytes nonce).toList ++
          BinaryOutputStreamSerializer.writeVarint parent.transactionCount.toNat ++
          parent.baseTransactionBranch.flatMap (fun hash => hash.data.toList) ++ minerTx ++
          parent.blockchainBranch.flatMap (fun hash => hash.data.toList) := by
  simp only [BinaryOutputStreamSerializer.serializeParentBlock]
  -- The writer's guards one after the other, each refusal matched by a false condition.
  by_cases few : parent.transactionCount < 1
  · have : ¬ 1 ≤ parent.transactionCount := UInt16.not_le.mpr few
    simp [few, this]
  have many : 1 ≤ parent.transactionCount := UInt16.not_lt.mp few
  by_cases sized : parent.baseTransactionBranch.length = treeDepth parent.transactionCount.toNat
  swap
  · simp [few, sized]
  cases BinaryOutputStreamSerializer.serializeTransaction parent.baseTransaction with
  | none => simp [few, sized]
  | some minerTx =>
    cases getMergeMiningTagFromExtra parent.baseTransaction.extra with
    | none => simp [few, sized]
    | some mmTag =>
      by_cases deep : mmTag.depth > 8 * 32
      · simp [few, sized, deep]
      by_cases branched : mmTag.depth = parent.blockchainBranch.length
      · simp [few, sized, branched, many, eq_comm]
      · simp [few, sized, deep, branched]

theorem reads_serializeParentBlock {parent : ParentBlock} {timestamp : UInt64} {nonce : UInt32}
    {bytes : List UInt8}
    (write : BinaryOutputStreamSerializer.serializeParentBlock parent timestamp nonce = some bytes)
    (fits : bytes.length < 2 ^ 64) (form : signaturesInReadForm parent.baseTransaction = true)
    {object : ParentBlock} (fresh : object.baseTransaction.signatures = []) :
    Reads (serializeParentBlock object) bytes (parent, timestamp, nonce) := by
  obtain ⟨many, sized, minerTx, mmTag, minerTxWrite, tagFound, shallow, branched, rfl⟩ :=
    serializeParentBlock_eq_some_iff.mp write
  simp only [List.length_append] at fits
  have coinbase := reads_serializeTransaction minerTxWrite (by omega) form fresh
  -- The count is read back as the `uint16_t` it was written from.
  have count : UInt16.ofNat parent.transactionCount.toNat = parent.transactionCount :=
    UInt16.ofNat_toNat
  have counted : Reads (readVarint 64)
      (BinaryOutputStreamSerializer.writeVarint parent.transactionCount.toNat)
      parent.transactionCount.toNat :=
    reads_readVarint (by omega) (parent.transactionCount.toNat_lt.trans (by decide))
  intro rest
  simp only [serializeParentBlock, List.append_assoc]
  rw [Reads.run_bind (reads_serializeUInt8 _), Reads.run_bind (reads_serializeUInt8 _),
    Reads.run_bind (reads_serializeUInt64 _), Reads.run_bind (reads_serializeHash _),
    Reads.run_bind (reads_nonce _), Reads.run_bind counted, count,
    if_neg (UInt16.not_lt.mpr many), ← sized, Reads.run_bind (reads_branch _),
    Reads.run_bind coinbase]
  -- The merge-mining tag of the coinbase just read sizes the blockchain branch.
  have notDeep : ¬ parent.blockchainBranch.length > 8 * 32 := by omega
  simp only [tagFound, branched]
  rw [if_neg notDeep, Reads.run_bind (reads_branch _)]
  rfl

/-- A branch the reader accepts is its hashes one after the other. -/
theorem branch_eq_some {count : Nat} {input rest : List UInt8} {branch : List Hash}
    (read : (many serializeHash count).run input = some (branch, rest)) :
    input = branch.flatMap (fun hash => hash.data.toList) ++ rest ∧ branch.length = count :=
  many_eq_some (fun _ _ _ read => serializeHash_eq_some read) _ _ _ _ read

/-- What the parent block reader accepts is the writer's parent block, except that the count was
any varint `txNum`, which the writer writes back as `txNum % 2 ^ 16`. -/
theorem serializeParentBlock_eq_some {object : ParentBlock}
    (fresh : object.baseTransaction.signatures = []) {input rest : List UInt8}
    {parent : ParentBlock} {timestamp : UInt64} {nonce : UInt32}
    (read : (serializeParentBlock object).run input = some ((parent, timestamp, nonce), rest)) :
    signaturesInReadForm parent.baseTransaction = true ∧ ∃ txNum before after,
      parent.transactionCount.toNat = txNum % 2 ^ 16 ∧
      BinaryOutputStreamSerializer.serializeParentBlock parent timestamp nonce =
        some (before ++ BinaryOutputStreamSerializer.writeVarint (txNum % 2 ^ 16) ++ after) ∧
      input = before ++ BinaryOutputStreamSerializer.writeVarint txNum ++ after ++ rest := by
  simp only [serializeParentBlock, run_bind_eq_some] at read
  obtain ⟨majorVersion, _, readMajor, minorVersion, _, readMinor, timestamp', _, readTimestamp,
    previousBlockHash, _, readHash, nonce', _, readNonce, txNum, _, readCount, afterCount⟩ := read
  have truncated : (UInt16.ofNat txNum).toNat = txNum % 2 ^ 16 := UInt16.toNat_ofNat'
  by_cases none : UInt16.ofNat txNum < 1
  · simp [none] at afterCount
  simp only [none, if_false, run_bind_eq_some] at afterCount
  obtain ⟨branch, _, readBranch, coinbase, _, readCoinbase, afterCoinbase⟩ := afterCount
  obtain ⟨form, minerTx, minerTxWrite, rfl⟩ := serializeTransaction_eq_some fresh readCoinbase
  cases tagFound : getMergeMiningTagFromExtra coinbase.extra with
  | none => simp [tagFound] at afterCoinbase
  | some mmTag =>
    by_cases deep : mmTag.depth > 8 * 32
    · simp [tagFound, deep] at afterCoinbase
    simp only [tagFound, deep, if_false, run_bind_eq_some, run_pure_eq_some] at afterCoinbase
    obtain ⟨chainBranch, _, readChainBranch, parentRead, rfl⟩ := afterCoinbase
    simp only [Prod.mk.injEq] at parentRead
    obtain ⟨rfl, rfl, rfl⟩ := parentRead
    obtain ⟨branchBytes, branchCount⟩ := branch_eq_some readBranch
    obtain ⟨chainBranchBytes, chainBranchCount⟩ := branch_eq_some readChainBranch
    refine ⟨form, txNum, BinaryOutputStreamSerializer.writeVarint majorVersion.toNat ++
      BinaryOutputStreamSerializer.writeVarint minorVersion.toNat ++
      BinaryOutputStreamSerializer.writeVarint timestamp'.toNat ++ previousBlockHash.data.toList ++
      (uint32Bytes nonce').toList,
      branch.flatMap (fun hash => hash.data.toList) ++ minerTx ++
        chainBranch.flatMap (fun hash => hash.data.toList), truncated, ?_, ?_⟩
    · -- The writer's guards hold of what was read.
      rw [serializeParentBlock_eq_some_iff]
      refine ⟨UInt16.not_lt.mp none, branchCount, minerTx, mmTag, minerTxWrite, tagFound,
        Nat.not_lt.mp deep, chainBranchCount.symm, ?_⟩
      simp only [truncated, List.append_assoc]
    · rw [serializeUInt8_eq_some readMajor, serializeUInt8_eq_some readMinor,
        serializeUInt64_eq_some readTimestamp, serializeHash_eq_some readHash,
        nonce_eq_some readNonce, (readVarint_eq_some readCount).2, branchBytes, chainBranchBytes]
      simp

/-! ### Blocks -/

/-- What the block writer writes: header, parent block for versions 2 and 3, coinbase and ids. -/
theorem serializeBlock_eq_some_iff {block : Block} {bytes : List UInt8} :
    BinaryOutputStreamSerializer.serializeBlock block = some bytes ↔
      ∃ header parent minerTx,
        BinaryOutputStreamSerializer.serializeBlockHeader block.toBlockHeader = some header ∧
        (if block.majorVersion = 2 ∨ block.majorVersion = 3 then
          BinaryOutputStreamSerializer.serializeParentBlock block.parentBlock block.timestamp
            block.nonce
        else some []) = some parent ∧
        BinaryOutputStreamSerializer.serializeTransaction block.baseTransaction = some minerTx ∧
        bytes = header ++ parent ++ minerTx ++ BinaryOutputStreamSerializer.serializeContainer
          (fun hash : Hash => hash.data.toList) block.transactionHashes := by
  -- The writer's `do` block is split on the version, each branch a chain of binds.
  by_cases merged : block.majorVersion = 2 ∨ block.majorVersion = 3
  · simp only [BinaryOutputStreamSerializer.serializeBlock, merged, if_true, Option.bind_eq_bind,
      Option.bind_eq_some_iff, Option.pure_def, Option.some.injEq]
    constructor
    · rintro ⟨header, headerWrite, parent, parentWrite, minerTx, minerTxWrite, rfl⟩
      exact ⟨header, parent, minerTx, headerWrite, parentWrite, minerTxWrite, rfl⟩
    · rintro ⟨header, parent, minerTx, headerWrite, parentWrite, minerTxWrite, rfl⟩
      exact ⟨header, headerWrite, parent, parentWrite, minerTx, minerTxWrite, rfl⟩
  · simp only [BinaryOutputStreamSerializer.serializeBlock, merged, if_false, Option.bind_eq_bind,
      Option.bind_eq_some_iff, Option.pure_def, Option.some.injEq]
    constructor
    · rintro ⟨header, headerWrite, parent, rfl, minerTx, minerTxWrite, rfl⟩
      exact ⟨header, [], minerTx, headerWrite, rfl, minerTxWrite, rfl⟩
    · rintro ⟨header, parent, minerTx, headerWrite, rfl, minerTxWrite, rfl⟩
      exact ⟨header, headerWrite, [], rfl, minerTx, minerTxWrite, rfl⟩

/-- The ids of a block's transactions, a container of hashes. -/
theorem reads_transactionHashes {hashes : List Hash} (fits : hashes.length < 2 ^ 64) :
    Reads (serializeContainer serializeHash)
      (BinaryOutputStreamSerializer.serializeContainer (fun hash : Hash => hash.data.toList) hashes)
      hashes :=
  reads_serializeContainer (fun hash _ => reads_serializeHash hash) fits

theorem reads_serializeBlock {block : Block} {bytes : List UInt8}
    (write : BinaryOutputStreamSerializer.serializeBlock block = some bytes)
    (fits : bytes.length < 2 ^ 64) (form : block.coinbasesInReadForm = true) {object : Block}
    (fresh : object.baseTransaction.signatures = [])
    (freshParent : object.parentBlock.baseTransaction.signatures = []) :
    Reads (serializeBlock object) bytes (block.readInto object) := by
  obtain ⟨header, parent, minerTx, headerWrite, parentWrite, minerTxWrite, rfl⟩ :=
    serializeBlock_eq_some_iff.mp write
  simp only [List.length_append] at fits
  simp only [Block.coinbasesInReadForm, Bool.and_eq_true] at form
  obtain ⟨coinbaseForm, parentForm⟩ := form
  have coinbase := reads_serializeTransaction minerTxWrite (by omega) coinbaseForm fresh
  have hashesBound : block.transactionHashes.length ≤ (BinaryOutputStreamSerializer.serializeContainer
      (fun hash : Hash => hash.data.toList) block.transactionHashes).length :=
    length_le_serializeContainer (fun hash => List.ne_nil_of_length_pos (by simp)) _
  have hashes : Reads (serializeContainer serializeHash)
      (BinaryOutputStreamSerializer.serializeContainer (fun hash : Hash => hash.data.toList)
        block.transactionHashes) block.transactionHashes :=
    reads_transactionHashes (by omega)
  intro rest
  simp only [serializeBlock, List.append_assoc]
  rw [Reads.run_bind (reads_serializeBlockHeader object.toBlockHeader headerWrite)]
  by_cases merged : block.majorVersion = 2 ∨ block.majorVersion = 3
  · -- A merge-mined block: the parent block brings the timestamp and the nonce.
    simp only [merged, if_true] at parentWrite parentForm
    have parentRead := reads_serializeParentBlock parentWrite (by omega) parentForm freshParent
    simp only [headerReadInto, merged, if_true]
    rw [Reads.run_bind parentRead, Reads.run_bind coinbase, Reads.run_bind hashes]
    simp [Block.readInto, merged]
  · -- Any other version: the header's own timestamp and nonce, and the object's parent block.
    simp only [merged, if_false, Option.some.injEq] at parentWrite
    subst parentWrite
    simp only [headerReadInto, merged, if_false, List.nil_append, pure_bind]
    rw [Reads.run_bind coinbase, Reads.run_bind hashes]
    simp [Block.readInto, merged]

/-- Versions 2 and 3 write no timestamp or nonce in the header. -/
theorem serializeBlockHeader_merged {header : BlockHeader}
    (merged : header.majorVersion = 2 ∨ header.majorVersion = 3) (timestamp : UInt64)
    (nonce : UInt32) :
    BinaryOutputStreamSerializer.serializeBlockHeader { header with timestamp, nonce } =
      BinaryOutputStreamSerializer.serializeBlockHeader header := by
  simp [BinaryOutputStreamSerializer.serializeBlockHeader, merged]

/-- What the block reader accepts into an object without signatures: a block whose coinbases are
in read form, which the writer writes back. For versions other than 2 and 3 it writes the same
bytes, and the parent block is the object's; for versions 2 and 3 it writes the parent block's
transaction count, read as any varint `txNum`, as `txNum % 2 ^ 16`. -/
theorem serializeBlock_eq_some {object : Block} (fresh : object.baseTransaction.signatures = [])
    (freshParent : object.parentBlock.baseTransaction.signatures = []) {input rest : List UInt8}
    {block : Block} (read : (serializeBlock object).run input = some (block, rest)) :
    block.coinbasesInReadForm = true ∧
    (¬(block.majorVersion = 2 ∨ block.majorVersion = 3) → block.parentBlock = object.parentBlock ∧
      ∃ bytes, BinaryOutputStreamSerializer.serializeBlock block = some bytes ∧
        input = bytes ++ rest) ∧
    (block.majorVersion = 2 ∨ block.majorVersion = 3 → ∃ txNum before after,
      block.parentBlock.transactionCount.toNat = txNum % 2 ^ 16 ∧
      BinaryOutputStreamSerializer.serializeBlock block =
        some (before ++ BinaryOutputStreamSerializer.writeVarint (txNum % 2 ^ 16) ++ after) ∧
      input = before ++ BinaryOutputStreamSerializer.writeVarint txNum ++ after ++ rest) := by
  obtain ⟨header, mid, readHeader, afterHeader⟩ := run_bind_eq_some.mp read
  obtain ⟨headerBytes, headerWrite, rfl⟩ := serializeBlockHeader_eq_some readHeader
  by_cases merged : header.majorVersion = 2 ∨ header.majorVersion = 3
  · -- A merge-mined block: the parent block is read, with the count the writer may shorten.
    simp only [merged, if_true, run_bind_eq_some, run_pure_eq_some] at afterHeader
    obtain ⟨⟨parent, timestamp, nonce⟩, _, readParent, coinbase, _, readCoinbase, hashes, _,
      readHashes, rfl, rfl⟩ := afterHeader
    obtain ⟨parentForm, txNum, before, after, counted, parentWrite, rfl⟩ :=
      serializeParentBlock_eq_some freshParent readParent
    obtain ⟨coinbaseForm, minerTx, minerTxWrite, rfl⟩ := serializeTransaction_eq_some fresh readCoinbase
    obtain ⟨-, rfl⟩ := serializeContainer_eq_some (fun _ _ _ read => serializeHash_eq_some read)
      readHashes
    refine ⟨by simp [Block.coinbasesInReadForm, merged, parentForm, coinbaseForm],
      fun notMerged => absurd merged notMerged, fun _ => ⟨txNum, headerBytes ++ before,
        after ++ minerTx ++ BinaryOutputStreamSerializer.serializeContainer
          (fun hash : Hash => hash.data.toList) hashes, counted, ?_, by simp⟩⟩
    rw [serializeBlock_eq_some_iff]
    refine ⟨headerBytes, before ++ BinaryOutputStreamSerializer.writeVarint (txNum % 2 ^ 16) ++ after,
      minerTx, ?_, by simp [merged, parentWrite], minerTxWrite, by simp⟩
    rw [← headerWrite]
    exact serializeBlockHeader_merged merged timestamp nonce
  · -- Any other version: the header carries the timestamp and nonce, and no parent block is read.
    simp only [merged, if_false, pure_bind, run_bind_eq_some, run_pure_eq_some] at afterHeader
    obtain ⟨coinbase, _, readCoinbase, hashes, _, readHashes, rfl, rfl⟩ := afterHeader
    obtain ⟨coinbaseForm, minerTx, minerTxWrite, rfl⟩ := serializeTransaction_eq_some fresh readCoinbase
    obtain ⟨-, rfl⟩ := serializeContainer_eq_some (fun _ _ _ read => serializeHash_eq_some read)
      readHashes
    refine ⟨by simp [Block.coinbasesInReadForm, merged, coinbaseForm], fun _ => ⟨rfl, headerBytes ++
      minerTx ++ BinaryOutputStreamSerializer.serializeContainer (fun hash : Hash => hash.data.toList)
        hashes, ?_, by simp⟩, fun merged' => absurd merged' merged⟩
    rw [serializeBlock_eq_some_iff]
    exact ⟨headerBytes, [], minerTx, headerWrite, by simp [merged], minerTxWrite, by simp⟩

end BinaryInputStreamSerializer

namespace Block

/-- A block whose coinbases are in read form is read back from its blob into an object without
signatures, with the object's parent block unless it is of version 2 or 3. -/
theorem fromBinaryArray_toBinaryArray {block object : Block} {binaryArray : List UInt8}
    (write : block.toBinaryArray = some binaryArray) (fits : binaryArray.length < 2 ^ 64)
    (form : block.coinbasesInReadForm = true) (fresh : object.baseTransaction.signatures = [])
    (freshParent : object.parentBlock.baseTransaction.signatures = []) :
    fromBinaryArray object binaryArray = some (block.readInto object) := by
  have read := BinaryInputStreamSerializer.reads_serializeBlock write fits form fresh freshParent []
  rw [List.append_nil] at read
  simp [fromBinaryArray, read]

/-- A blob the reader accepts into an object without signatures is the writer's blob of the block
read, except for the parent block's transaction count in versions 2 and 3, which the writer writes
modulo `2 ^ 16`. -/
theorem toBinaryArray_fromBinaryArray {block object : Block} {binaryArray : List UInt8}
    (fresh : object.baseTransaction.signatures = [])
    (freshParent : object.parentBlock.baseTransaction.signatures = [])
    (read : fromBinaryArray object binaryArray = some block) :
    block.coinbasesInReadForm = true ∧
    (¬(block.majorVersion = 2 ∨ block.majorVersion = 3) → block.parentBlock = object.parentBlock ∧
      block.toBinaryArray = some binaryArray) ∧
    (block.majorVersion = 2 ∨ block.majorVersion = 3 → ∃ txNum before after,
      block.parentBlock.transactionCount.toNat = txNum % 2 ^ 16 ∧
      binaryArray = before ++ BinaryOutputStreamSerializer.writeVarint txNum ++ after ∧
      block.toBinaryArray =
        some (before ++ BinaryOutputStreamSerializer.writeVarint (txNum % 2 ^ 16) ++ after)) := by
  unfold fromBinaryArray at read
  split at read
  · rename_i accepted
    cases read
    obtain ⟨form, single, merged⟩ :=
      BinaryInputStreamSerializer.serializeBlock_eq_some fresh freshParent accepted
    refine ⟨form, fun notMerged => ?_, fun isMerged => ?_⟩
    · obtain ⟨kept, bytes, write, same⟩ := single notMerged
      rw [List.append_nil] at same
      exact ⟨kept, same ▸ write⟩
    · obtain ⟨txNum, before, after, counted, write, same⟩ := merged isMerged
      rw [List.append_nil] at same
      exact ⟨txNum, before, after, counted, same, write⟩
  · cases read

end Block

/-! ### Where the format is not a bijection -/

/-- `Transaction()`, what the callers of `fromBinaryArray` read into. -/
def defaultTransaction : Transaction := ⟨⟨0, 0, [], [], []⟩, []⟩

/-- `Block()`. -/
def defaultBlock : Block :=
  { majorVersion := 0, minorVersion := 0, nonce := 0, timestamp := 0, previousBlockHash := NULL_HASH,
    parentBlock := ⟨0, 0, NULL_HASH, 0, [], defaultTransaction, []⟩,
    baseTransaction := defaultTransaction, transactionHashes := [] }

/-- A transaction with one key input that names no outputs, and so asks for no signatures. -/
def unsignedKeyTransaction : Transaction :=
  ⟨⟨1, 0, [.key ⟨0, [], ⟨Vector.replicate 32 7⟩⟩], [], []⟩, []⟩

/-- A merge-mined block of version 2 whose parent coinbase carries a merge-mining tag of depth 0. -/
def mergeMinedBlock : Block :=
  { majorVersion := 2, minorVersion := 0, nonce := 5, timestamp := 1000, previousBlockHash := NULL_HASH,
    parentBlock := ⟨1, 0, NULL_HASH, 1, [],
      ⟨⟨1, 0, [.base ⟨0⟩], [], [0x03, 33, 0] ++ List.replicate 32 0⟩, []⟩, []⟩,
    baseTransaction := ⟨⟨1, 70, [.base ⟨10⟩], [], []⟩, []⟩, transactionHashes := [] }

/-- The blob of `mergeMinedBlock` with its parent block's transaction count, the byte `0x01` at
offset 74, written instead as the three-byte varint of `2 ^ 16 + 1`. -/
def mergeMinedBlockLongCount : List UInt8 :=
  let blob := (mergeMinedBlock.toBinaryArray).getD []
  blob.take 74 ++ [0x81, 0x80, 0x04] ++ blob.drop 75

/-- The unsigned key transaction is read back with one empty signature list, not none; and a
second blob of the merge-mined block, with a longer count, is read as the same block. -/
theorem binary_format_not_bijective :
    (∃ binaryArray, unsignedKeyTransaction.toBinaryArray = some binaryArray ∧
      Transaction.fromBinaryArray defaultTransaction binaryArray =
        some { unsignedKeyTransaction with signatures := [[]] }) ∧
    Block.fromBinaryArray defaultBlock mergeMinedBlockLongCount = some mergeMinedBlock ∧
    mergeMinedBlock.toBinaryArray ≠ some mergeMinedBlockLongCount := by
  refine ⟨⟨_, rfl, ?_⟩, ?_, ?_⟩
  · decide +kernel
  · decide +kernel
  · decide +kernel

/-- The consensus format read into objects without signatures: transactions in read form and
blocks whose coinbases are in read form are read back from their blobs (a block of a version
other than 2 and 3 with the object's parent block), and every accepted blob is the writer's blob of
what was read, but for the parent block's transaction count in versions 2 and 3, written back
modulo `2 ^ 16`. -/
theorem binary_format_round_trips_in_read_form :
    (∀ (tx object : Transaction) (binaryArray : List UInt8), object.signatures = [] →
      tx.toBinaryArray = some binaryArray → binaryArray.length < 2 ^ 64 →
      signaturesInReadForm tx = true →
      Transaction.fromBinaryArray object binaryArray = some tx) ∧
    (∀ (tx object : Transaction) (binaryArray : List UInt8), object.signatures = [] →
      Transaction.fromBinaryArray object binaryArray = some tx →
      signaturesInReadForm tx = true ∧ tx.toBinaryArray = some binaryArray) ∧
    (∀ (block object : Block) (binaryArray : List UInt8),
      object.baseTransaction.signatures = [] → object.parentBlock.baseTransaction.signatures = [] →
      block.toBinaryArray = some binaryArray → binaryArray.length < 2 ^ 64 →
      block.coinbasesInReadForm = true →
      Block.fromBinaryArray object binaryArray = some (block.readInto object)) ∧
    (∀ (block object : Block) (binaryArray : List UInt8),
      object.baseTransaction.signatures = [] → object.parentBlock.baseTransaction.signatures = [] →
      Block.fromBinaryArray object binaryArray = some block →
      block.coinbasesInReadForm = true ∧
      (¬(block.majorVersion = 2 ∨ block.majorVersion = 3) → block.parentBlock = object.parentBlock ∧
        block.toBinaryArray = some binaryArray) ∧
      (block.majorVersion = 2 ∨ block.majorVersion = 3 → ∃ txNum before after,
        block.parentBlock.transactionCount.toNat = txNum % 2 ^ 16 ∧
        binaryArray = before ++ BinaryOutputStreamSerializer.writeVarint txNum ++ after ∧
        block.toBinaryArray =
          some (before ++ BinaryOutputStreamSerializer.writeVarint (txNum % 2 ^ 16) ++ after))) := by
  refine ⟨?_, ?_, ?_, ?_⟩
  · intro tx object binaryArray fresh write fits form
    exact Transaction.fromBinaryArray_toBinaryArray write fits form fresh
  · intro tx object binaryArray fresh read
    exact Transaction.toBinaryArray_fromBinaryArray fresh read
  · intro block object binaryArray fresh freshParent write fits form
    exact Block.fromBinaryArray_toBinaryArray write fits form fresh freshParent
  · intro block object binaryArray fresh freshParent read
    exact Block.toBinaryArray_fromBinaryArray fresh freshParent read

/-- The merge-mined block is read back from its blob into a default block. -/
theorem binary_format_round_trips_on_merge_mined_block :
    Block.fromBinaryArray defaultBlock ((mergeMinedBlock.toBinaryArray).getD []) =
      some (mergeMinedBlock.readInto defaultBlock) :=
  binary_format_round_trips_in_read_form.2.2.1 mergeMinedBlock defaultBlock _ rfl rfl
    (by decide +kernel) (by decide +kernel) (by decide +kernel)

end CryptoNote
