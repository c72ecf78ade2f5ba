import Qwertycoin.Core.Reward
import Qwertycoin.Common.Varint
import Qwertycoin.Lib.FixedDigits
import Qwertycoin.Lib.IndexedList
import Mathlib

/-!
Base58 as `Common/Base58.cpp` writes it. The data is cut into blocks of eight bytes and a shorter
last block; each block is read as a big-endian number and written as its base-58 digits, at the
width `encoded_block_sizes` gives for its length, padded on the left with the alphabet's first
letter. The decoder undoes each block, refusing a length no block is written in, a letter outside
the alphabet, and a value past 64 bits (tested with `mul128`) or past the block's byte count.

`decode_encode` reads every encoding back, and `encode_of_decode` shows that the decoder accepts
only what the encoder writes, so each accepted string is the one encoding of its bytes.

An address is the Base58 of a varint tag, the data and four bytes of their hash. `decode_addr`
reads back what `encode_addr` writes (`decodeAddr_encodeAddr`), but it also accepts an address
whose tag varint is cut off by the end of its bytes (`decodeAddr_accepts_truncated_tag`).
-/

namespace Tools.Base58

open CryptoNote (mul128 mul128_spec)

/-- `alphabet`: the digits 1 to 9 and the letters, without `0`, `I`, `O` and `l`. -/
def alphabet : List Char := "123456789ABCDEFGHJKLMNPQRSTUVWXYZabcdefghijkmnopqrstuvwxyz".toList

/-- `alphabet_size`, as the word the loops divide and multiply by. -/
def alphabetSize : UInt64 := 58

/-- `encoded_block_sizes`: the letters a block of `n` bytes is written in. -/
def encodedBlockSizes : List Nat := [0, 2, 3, 5, 6, 7, 9, 10, 11]

/-- `full_block_size`, the last index of `encoded_block_sizes`. -/
def fullBlockSize : Nat := 8

/-- `full_encoded_block_size`, the last entry of `encoded_block_sizes`. -/
def fullEncodedBlockSize : Nat := 11

/-- `addr_checksum_size`: the bytes of the hash an address carries. -/
def addrChecksumSize : Nat := 4

/-- `reverse_alphabet`: a letter's index in the alphabet. The source fills a table indexed from
`alphabet[0]` with `-1` and then each letter's index; `none` stands for the `-1`. -/
def reverseAlphabet (letter : Char) : Option Nat := alphabet.idxOf? letter

/-- `decoded_block_sizes`: the bytes of a block written in `encodedBlockSize` letters, the inverse
table of `encoded_block_sizes`; `none` stands for its `-1`. -/
def decodedBlockSizes (encodedBlockSize : Nat) : Option Nat :=
  encodedBlockSizes.idxOf? encodedBlockSize

/-- `uint_8be_to_64`: up to eight bytes as a big-endian number; the source's fall-through switch
shifts in one byte per case. -/
def uint8beTo64 (data : List UInt8) : UInt64 :=
  data.foldl (fun res byte => res <<< 8 ||| byte.toUInt64) 0

/-- `uint_64_to_8be`: the low `size` bytes of `num`, big-endian. -/
def uint64To8be (num : UInt64) : (size : Nat) → List UInt8
  | 0 => []
  | size + 1 => uint64To8be (num >>> 8) size ++ [num.toUInt8]

/-- The loop of `encode_block`: while the number is not zero, write its lowest digit at position
`i` of `res` and move one place left. -/
def encodeBlockLoop (num : UInt64) (i : Nat) (res : List Char) : List Char :=
  if 0 < num then
    encodeBlockLoop (num / alphabetSize) (i - 1) (res.set i alphabet[(num % alphabetSize).toNat]!)
  else res
termination_by num.toNat
decreasing_by
  have positive : 0 < num.toNat := UInt64.lt_iff_toNat_lt.mp ‹0 < num›
  rw [UInt64.toNat_div]
  exact Nat.div_lt_self positive (by decide)

/-- `encode_block`: `res` is the block's part of the output, which `encode` has filled with
`alphabet[0]`; the digits go in from the right. -/
def encodeBlock (block : List UInt8) (res : List Char) : List Char :=
  encodeBlockLoop (uint8beTo64 block) (encodedBlockSizes[block.length]! - 1) res

/-- The loop of `decode_block`, over the block's letters from the last: each digit is added at its
place value `order`, refusing a letter outside the alphabet and a sum past 64 bits. -/
def decodeBlockLoop : List Char → (resNum order : UInt64) → Option UInt64
  | [], resNum, _ => some resNum
  | letter :: letters, resNum, order => do
    let digit ← reverseAlphabet letter
    let product := mul128 order (UInt64.ofNat digit)
    let tmp := resNum + product.1
    if tmp < resNum ∨ product.2 ≠ 0 then none
    else decodeBlockLoop letters tmp (order * alphabetSize)

/-- `decode_block`: the bytes of one block, or `none` where the source returns `false`. -/
def decodeBlock (block : List Char) : Option (List UInt8) := do
  let resSize ← decodedBlockSizes block.length
  -- A length no block is encoded to.
  if resSize = 0 then none
  else
    let resNum ← decodeBlockLoop block.reverse 0 1
    -- A short block's value must fit in its bytes.
    if resSize < fullBlockSize ∧ (1 : UInt64) <<< (8 * resSize).toUInt64 ≤ resNum then none
    else pure (uint64To8be resNum resSize)

/-- The loop of `encode` over the full blocks. The source encodes each block into its own slice of
one output string; here the slices are concatenated. -/
def encodeFullBlocks : (count : Nat) → List UInt8 → List Char
  | 0, _ => []
  | count + 1, data =>
    encodeBlock (data.take fullBlockSize) (List.replicate fullEncodedBlockSize alphabet[0]!) ++
      encodeFullBlocks count (data.drop fullBlockSize)

/-- `Base58::encode`. -/
def encode (data : List UInt8) : List Char :=
  if data.isEmpty then []
  else
    let fullBlockCount := data.length / fullBlockSize
    let lastBlockSize := data.length % fullBlockSize
    encodeFullBlocks fullBlockCount data ++
      if 0 < lastBlockSize then
        encodeBlock (data.drop (fullBlockCount * fullBlockSize))
          (List.replicate encodedBlockSizes[lastBlockSize]! alphabet[0]!)
      else []

/-- The loop of `decode` over the full blocks, each decoded into its slice of the output. -/
def decodeFullBlocks : (count : Nat) → List Char → Option (List UInt8)
  | 0, _ => some []
  | count + 1, enc => do
    let block ← decodeBlock (enc.take fullEncodedBlockSize)
    let rest ← decodeFullBlocks count (enc.drop fullEncodedBlockSize)
    pure (block ++ rest)

/-- `Base58::decode`: the bytes, or `none` where the source returns `false`. -/
def decode (enc : List Char) : Option (List UInt8) :=
  if enc.isEmpty then some []
  else do
    let fullBlockCount := enc.length / fullEncodedBlockSize
    let lastBlockSize := enc.length % fullEncodedBlockSize
    -- An invalid length of the last block.
    let _ ← decodedBlockSizes lastBlockSize
    let data ← decodeFullBlocks fullBlockCount enc
    if 0 < lastBlockSize then
      let last ← decodeBlock (enc.drop (fullBlockCount * fullEncodedBlockSize))
      pure (data ++ last)
    else pure data

section Tables

theorem length_alphabet : alphabet.length = 58 := by decide

theorem alphabet_nodup : alphabet.Nodup := by decide

@[simp] theorem toNat_alphabetSize : alphabetSize.toNat = 58 := rfl

/-- A digit's letter reads back as the digit. -/
theorem reverseAlphabet_getElem {digit : Nat} (small : digit < 58) :
    reverseAlphabet alphabet[digit]! = some digit := by
  have inRange : digit < alphabet.length := by rw [length_alphabet]; exact small
  rw [getElem!_pos alphabet digit inRange]
  exact List.idxOf?_getElem_of_nodup alphabet_nodup inRange

/-- A letter of the alphabet is the letter of the digit it reads as. -/
theorem reverseAlphabet_eq_some_iff {letter : Char} {digit : Nat} :
    reverseAlphabet letter = some digit ↔ digit < 58 ∧ alphabet[digit]! = letter := by
  constructor
  · intro known
    obtain ⟨inRange, same, -⟩ := List.idxOf?_eq_some_iff.mp known
    refine ⟨length_alphabet ▸ inRange, ?_⟩
    rw [getElem!_pos alphabet digit inRange]
    exact same
  · rintro ⟨small, rfl⟩
    exact reverseAlphabet_getElem small

/-- Each byte count's width reads back as the byte count. -/
theorem decodedBlockSizes_getElem {size : Nat} (short : size ≤ 8) :
    decodedBlockSizes encodedBlockSizes[size]! = some size := by
  have inRange : size < encodedBlockSizes.length := by
    show size < 9
    omega
  rw [getElem!_pos encodedBlockSizes size inRange]
  exact List.idxOf?_getElem_of_nodup (by decide) inRange

/-- A width the table knows is the width of the byte count it reads as. -/
theorem decodedBlockSizes_eq_some {encodedSize size : Nat}
    (known : decodedBlockSizes encodedSize = some size) :
    size ≤ 8 ∧ encodedBlockSizes[size]! = encodedSize := by
  obtain ⟨inRange, same, -⟩ := List.idxOf?_eq_some_iff.mp known
  refine ⟨Nat.le_of_lt_succ inRange, ?_⟩
  rw [getElem!_pos encodedBlockSizes size inRange]
  exact same

/-- The width for `size` bytes has room for every value of `size` bytes. -/
theorem pow_le_encodedBlockSizes : ∀ size ≤ 8, 256 ^ size ≤ 58 ^ encodedBlockSizes[size]! := by
  decide

/-- Only a full block takes the full width, and only an empty one takes none. -/
theorem encodedBlockSizes_bounds :
    ∀ size ≤ 8, (encodedBlockSizes[size]! = 11 ↔ size = 8) ∧ (0 < encodedBlockSizes[size]! ↔ 0 < size) ∧
      encodedBlockSizes[size]! ≤ 11 := by
  decide

end Tables

section Bytes

/-- One round of `uint_8be_to_64`: a value of at most seven bytes shifts up and takes the next
byte below it. -/
theorem shiftIn_toNat (res : UInt64) (byte : UInt8) (room : res.toNat < 256 ^ 7) :
    (res <<< 8 ||| byte.toUInt64).toNat = res.toNat * 256 + byte.toNat := by
  have shifted : res.toNat <<< 8 < 2 ^ 64 := by
    rw [Nat.shiftLeft_eq]
    omega
  have eight : (8 : UInt64).toNat % 64 = 8 := rfl
  rw [UInt64.toNat_or, UInt64.toNat_shiftLeft, UInt8.toNat_toUInt64, eight,
    Nat.mod_eq_of_lt shifted, ← Nat.shiftLeft_add_eq_or_of_lt (byte.toNat_lt : byte.toNat < 2 ^ 8),
    Nat.shiftLeft_eq]

/-- `uint_8be_to_64` reads the bytes as a big-endian number: their reverse, little-endian. -/
theorem uint8beTo64_toNat (data : List UInt8) (short : data.length ≤ 8) :
    (uint8beTo64 data).toNat = littleEndian data.reverse := by
  -- The fold is run from any value with room for the bytes still to come.
  have general : ∀ (data : List UInt8) (res : UInt64), data.length ≤ 8 →
      res.toNat < 256 ^ (8 - data.length) →
      (data.foldl (fun (res : UInt64) (byte : UInt8) => res <<< 8 ||| byte.toUInt64) res).toNat =
        res.toNat * 256 ^ data.length + littleEndian data.reverse := by
    intro data
    induction data with
    | nil => intro res _ _; simp
    | cons byte data ih =>
      intro res short room
      simp only [List.length_cons] at short room
      have step : 256 ^ (8 - data.length) = 256 ^ (8 - (data.length + 1)) * 256 := by
        rw [← Nat.pow_succ]
        congr 1
        omega
      have seven : 256 ^ (8 - (data.length + 1)) ≤ 256 ^ 7 := Nat.pow_le_pow_right (by norm_num) (by omega)
      have shifted := shiftIn_toNat res byte (by omega)
      have byteSmall := byte.toNat_lt
      rw [List.foldl_cons, ih _ (by omega) (by rw [shifted, step]; omega), shifted,
        List.reverse_cons, littleEndian_append, List.length_reverse, littleEndian_cons,
        littleEndian_nil, List.length_cons, Nat.pow_succ]
      ring
  simpa [uint8beTo64] using general data 0 short (by simp)

/-- `uint_64_to_8be` writes the low bytes of the number, highest first. -/
theorem uint64To8be_reverse (num : UInt64) (size : Nat) :
    (uint64To8be num size).reverse = (Nat.fixedDigits 256 size num.toNat).map UInt8.ofNat := by
  induction size generalizing num with
  | zero => rfl
  | succ size ih =>
    have low : num.toUInt8 = UInt8.ofNat (num.toNat % 256) := by
      apply UInt8.toNat_inj.mp
      simp [UInt64.toNat_toUInt8]
    have high : (num >>> 8).toNat = num.toNat / 256 := by
      simp [UInt64.toNat_shiftRight, Nat.shiftRight_eq_div_pow]
    rw [uint64To8be, List.reverse_append, ih, high, Nat.fixedDigits, List.map_cons, low]
    rfl

@[simp] theorem length_uint64To8be (num : UInt64) (size : Nat) :
    (uint64To8be num size).length = size := by
  rw [← List.length_reverse, uint64To8be_reverse, List.length_map, Nat.length_fixedDigits]

/-- The bytes `uint_64_to_8be` writes read back as the number modulo their range. -/
theorem littleEndian_uint64To8be (num : UInt64) (size : Nat) :
    littleEndian (uint64To8be num size).reverse = num.toNat % 256 ^ size := by
  rw [uint64To8be_reverse, littleEndian_fixedDigits]

/-- Writing back the number `uint_8be_to_64` read gives the bytes it was read from. -/
theorem uint64To8be_uint8beTo64 (data : List UInt8) (short : data.length ≤ 8) :
    uint64To8be (uint8beTo64 data) data.length = data := by
  apply List.reverse_injective
  have digits := fixedDigits_littleEndian data.reverse
  rw [List.length_reverse] at digits
  rw [uint64To8be_reverse, uint8beTo64_toNat data short, digits]

end Bytes

section EncodeBlock

/-- Writing the last of `n + 1` equal leading entries. -/
private theorem set_replicate_append {α : Type} (c x : α) (rest : List α) :
    ∀ n, (List.replicate (n + 1) c ++ rest).set n x = List.replicate n c ++ x :: rest
  | 0 => rfl
  | n + 1 => by
    rw [List.replicate_succ, List.cons_append, List.set_cons_succ, set_replicate_append c x rest n]
    rfl

/-- From position `i` leftwards, the loop of `encode_block` overwrites a run of `alphabet[0]`
with the number's `i + 1` digits, highest first, when they are enough for it. -/
theorem encodeBlockLoop_replicate : ∀ (i : Nat) (num : UInt64) (rest : List Char),
    num.toNat < 58 ^ (i + 1) →
    encodeBlockLoop num i (List.replicate (i + 1) alphabet[0]! ++ rest) =
      (Nat.fixedDigits 58 (i + 1) num.toNat).reverse.map (alphabet[·]!) ++ rest := by
  intro i
  induction i with
  | zero =>
    intro num rest small
    by_cases positive : 0 < num
    · -- One digit: it is written, and the quotient is zero.
      have last : ¬ 0 < num / alphabetSize := by
        rw [UInt64.lt_iff_toNat_lt, UInt64.toNat_div, toNat_alphabetSize]
        simp only [UInt64.toNat_zero]
        omega
      rw [encodeBlockLoop, if_pos positive, set_replicate_append, encodeBlockLoop, if_neg last]
      simp [Nat.fixedDigits, UInt64.toNat_mod]
    · have zero : num.toNat = 0 := by
        rw [UInt64.lt_iff_toNat_lt] at positive
        simpa using positive
      rw [encodeBlockLoop, if_neg positive, zero]
      simp [Nat.fixedDigits]
  | succ i ih =>
    intro num rest small
    by_cases positive : 0 < num
    · -- The lowest digit goes at `i + 1`, and the quotient's digits to its left.
      have quotient : (num / alphabetSize).toNat < 58 ^ (i + 1) := by
        rw [UInt64.toNat_div, toNat_alphabetSize, Nat.div_lt_iff_lt_mul (by norm_num)]
        rwa [← Nat.pow_succ]
      have digits : Nat.fixedDigits 58 (i + 1 + 1) num.toNat =
          num.toNat % 58 :: Nat.fixedDigits 58 (i + 1) (num.toNat / 58) := rfl
      rw [encodeBlockLoop, if_pos positive, set_replicate_append, Nat.add_sub_cancel,
        ih _ _ quotient, digits, List.reverse_cons, List.map_append,
        List.append_assoc, UInt64.toNat_div, UInt64.toNat_mod, toNat_alphabetSize]
      rfl
    · -- Nothing left to write: the leading letters stand for zeros.
      have zero : num.toNat = 0 := by
        rw [UInt64.lt_iff_toNat_lt] at positive
        simpa using positive
      rw [encodeBlockLoop, if_neg positive, zero]
      simp

/-- `encode_block` writes a block of one to eight bytes as the base-58 digits of its big-endian
value, at the width the table gives. -/
theorem encodeBlock_replicate (block : List UInt8) (nonempty : 0 < block.length)
    (short : block.length ≤ 8) :
    encodeBlock block (List.replicate encodedBlockSizes[block.length]! alphabet[0]!) =
      (Nat.fixedDigits 58 encodedBlockSizes[block.length]!
        (littleEndian block.reverse)).reverse.map (alphabet[·]!) := by
  obtain ⟨-, wide, -⟩ := encodedBlockSizes_bounds block.length short
  obtain ⟨width, hwidth⟩ : ∃ width, encodedBlockSizes[block.length]! = width + 1 :=
    ⟨encodedBlockSizes[block.length]! - 1, by have := wide.mpr nonempty; omega⟩
  -- The value has fewer than `256 ^ length` and so fewer than `58 ^ width` values.
  have fits : (uint8beTo64 block).toNat < 58 ^ (width + 1) := by
    rw [uint8beTo64_toNat block short, ← hwidth]
    calc littleEndian block.reverse < 256 ^ block.reverse.length := littleEndian_lt _
      _ = 256 ^ block.length := by rw [List.length_reverse]
      _ ≤ 58 ^ encodedBlockSizes[block.length]! := pow_le_encodedBlockSizes _ short
  have run := encodeBlockLoop_replicate width (uint8beTo64 block) [] fits
  rw [List.append_nil, List.append_nil, uint8beTo64_toNat block short] at run
  rw [encodeBlock, hwidth, Nat.add_sub_cancel, run]

end EncodeBlock

section DecodeBlock

/-- `decode_block`'s test on adding a product `mul128` computed: it fails exactly when the sum
passes 64 bits. -/
theorem add_mul128_overflow_iff (resNum a b : UInt64) :
    (resNum + (mul128 a b).1 < resNum ∨ (mul128 a b).2 ≠ 0) ↔
      2 ^ 64 ≤ resNum.toNat + a.toNat * b.toNat := by
  have product := mul128_spec a b
  have low := UInt64.toNat_lt (mul128 a b).1
  have high : (mul128 a b).2 ≠ 0 ↔ (mul128 a b).2.toNat ≠ 0 := by
    rw [Ne, Ne, ← UInt64.toNat_inj, UInt64.toNat_zero]
  rw [UInt64.add_lt_left_iff, high]
  omega

/-- When the test passes, the sum is exact. -/
theorem toNat_add_mul128 (resNum a b : UInt64)
    (fits : resNum.toNat + a.toNat * b.toNat < 2 ^ 64) :
    (resNum + (mul128 a b).1).toNat = resNum.toNat + a.toNat * b.toNat := by
  have product := mul128_spec a b
  have high : (mul128 a b).2.toNat = 0 := by omega
  rw [UInt64.toNat_add, Nat.mod_eq_of_lt (by omega)]
  omega

/-- A digit in front of the others, at place value `58 ^ place`. -/
private theorem place_ofDigits_cons (place digit : Nat) (digits : List Nat) :
    58 ^ place * Nat.ofDigits 58 (digit :: digits) =
      58 ^ place * digit + 58 ^ (place + 1) * Nat.ofDigits 58 digits := by
  rw [Nat.ofDigits_cons, Nat.pow_succ]
  ring

/-- One round of `decode_block`'s loop on a letter of the alphabet, while the place value is
exact. -/
theorem decodeBlockLoop_cons {letter : Char} {digit : Nat}
    (known : reverseAlphabet letter = some digit) (letters : List Char) (resNum order : UInt64)
    {place : Nat} (exact : order.toNat = 58 ^ place) :
    decodeBlockLoop (letter :: letters) resNum order =
      if 2 ^ 64 ≤ resNum.toNat + 58 ^ place * digit then none
      else decodeBlockLoop letters (resNum + (mul128 order (UInt64.ofNat digit)).1)
        (order * alphabetSize) := by
  have small := (reverseAlphabet_eq_some_iff.mp known).1
  have digitWord : (UInt64.ofNat digit).toNat = digit := by
    rw [UInt64.toNat_ofNat']
    omega
  have overflow := add_mul128_overflow_iff resNum order (UInt64.ofNat digit)
  rw [exact, digitWord] at overflow
  simp only [decodeBlockLoop, known, Option.bind_eq_bind, Option.bind_some, overflow]

/-- From place `place` on, `decode_block`'s loop reads letters of the alphabet as base-58 digits,
lowest first, and adds their value while the sum stays below `2 ^ 64`. The place value is kept
modulo `2 ^ 64`, and is exact wherever a letter is still to be read. -/
theorem decodeBlockLoop_eq_some_iff : ∀ (letters : List Char) (place : Nat)
    (resNum order value : UInt64),
    letters.length + place ≤ 11 → order.toNat = 58 ^ place % 2 ^ 64 →
    (decodeBlockLoop letters resNum order = some value ↔
      ∃ digits : List Nat, (∀ d ∈ digits, d < 58) ∧ digits.map (alphabet[·]!) = letters ∧
        resNum.toNat + 58 ^ place * Nat.ofDigits 58 digits < 2 ^ 64 ∧
        value.toNat = resNum.toNat + 58 ^ place * Nat.ofDigits 58 digits)
  | [], place, resNum, order, value, _, _ => by
    simp only [decodeBlockLoop, Option.some.injEq, List.map_eq_nil_iff]
    constructor
    · rintro rfl
      exact ⟨[], by simp, rfl, by simpa using UInt64.toNat_lt resNum, by simp⟩
    · rintro ⟨digits, -, rfl, -, same⟩
      exact UInt64.toNat_inj.mp (by simpa using same.symm)
  | letter :: letters, place, resNum, order, value, short, placeValue => by
    simp only [List.length_cons] at short
    have exact : order.toNat = 58 ^ place := by
      rw [placeValue, Nat.mod_eq_of_lt]
      calc 58 ^ place ≤ 58 ^ 10 := Nat.pow_le_pow_right (by norm_num) (by omega)
        _ < 2 ^ 64 := by norm_num
    cases known : reverseAlphabet letter with
    | none =>
      -- A letter outside the alphabet: no digits spell it.
      simp only [decodeBlockLoop, known, Option.bind_eq_bind, Option.bind_none, reduceCtorEq,
        false_iff, not_exists, not_and]
      intro digits small mapped
      obtain ⟨d, ds, rfl, spelled, -⟩ := List.map_eq_cons_iff.mp mapped
      have := reverseAlphabet_eq_some_iff.mpr ⟨small d List.mem_cons_self, spelled⟩
      rw [known] at this
      cases this
    | some digit =>
      -- Digits spelling the letters start with this letter's digit.
      have spelling : ∀ digits : List Nat, digits.map (alphabet[·]!) = letter :: letters →
          (∀ d ∈ digits, d < 58) → ∃ ds, digits = digit :: ds ∧ ds.map (alphabet[·]!) = letters := by
        intro digits mapped small
        obtain ⟨d, ds, rfl, spelled, rest⟩ := List.map_eq_cons_iff.mp mapped
        have same := reverseAlphabet_eq_some_iff.mpr ⟨small d List.mem_cons_self, spelled⟩
        rw [known, Option.some.injEq] at same
        exact ⟨ds, by rw [same], rest⟩
      obtain ⟨small, spelled⟩ := reverseAlphabet_eq_some_iff.mp known
      rw [decodeBlockLoop_cons known letters resNum order exact]
      by_cases beyond : 2 ^ 64 ≤ resNum.toNat + 58 ^ place * digit
      · -- The sum already passes 64 bits at this digit, and later digits only add.
        simp only [if_pos beyond, reduceCtorEq, false_iff, not_exists, not_and]
        intro digits allSmall mapped fits
        obtain ⟨ds, rfl, -⟩ := spelling digits mapped allSmall
        rw [place_ofDigits_cons] at fits
        omega
      · have digitWord : (UInt64.ofNat digit).toNat = digit := by
          rw [UInt64.toNat_ofNat']
          omega
        have sum := toNat_add_mul128 resNum order (UInt64.ofNat digit)
          (by rw [exact, digitWord]; omega)
        rw [exact, digitWord] at sum
        have nextPlace : (order * alphabetSize).toNat = 58 ^ (place + 1) % 2 ^ 64 := by
          rw [UInt64.toNat_mul, placeValue, toNat_alphabetSize, Nat.mod_mul_mod, ← Nat.pow_succ]
        rw [if_neg beyond, decodeBlockLoop_eq_some_iff letters (place + 1) _ _ value (by omega)
          nextPlace, sum]
        constructor
        · rintro ⟨ds, allSmall, mapped, fits, total⟩
          refine ⟨digit :: ds, ?_, by rw [List.map_cons, spelled, mapped], ?_, ?_⟩
          · intro d member
            rcases List.mem_cons.mp member with rfl | later
            · exact small
            · exact allSmall d later
          · rw [place_ofDigits_cons]
            omega
          · rw [place_ofDigits_cons]
            omega
        · rintro ⟨digits, allSmall, mapped, fits, total⟩
          obtain ⟨ds, rfl, rest⟩ := spelling digits mapped allSmall
          rw [place_ofDigits_cons] at fits total
          exact ⟨ds, fun d member => allSmall d (List.mem_cons_of_mem digit member), rest,
            by omega, by omega⟩

/-- The bound `decode_block` tests a short block's value against. -/
theorem one_shiftLeft_toNat {size : Nat} (short : size < 8) :
    ((1 : UInt64) <<< (8 * size).toUInt64).toNat = 2 ^ (8 * size) := by
  have small : 2 ^ (8 * size) < 2 ^ 64 := Nat.pow_lt_pow_right (by norm_num) (by omega)
  have shift : ((8 * size).toUInt64).toNat % 64 = 8 * size := by
    simp only [Nat.toUInt64_eq, UInt64.toNat_ofNat']
    omega
  rw [UInt64.toNat_shiftLeft, UInt64.toNat_one, shift, Nat.one_shiftLeft, Nat.mod_eq_of_lt small]

/-- What `decode_block` checks, in order: a known length, then the letters, then the value against
a short block's bytes. -/
theorem decodeBlock_eq_some_iff (block : List Char) (bytes : List UInt8) :
    decodeBlock block = some bytes ↔
      ∃ resSize, decodedBlockSizes block.length = some resSize ∧ ¬ resSize = 0 ∧
        ∃ resNum, decodeBlockLoop block.reverse 0 1 = some resNum ∧
          ¬ (resSize < fullBlockSize ∧ (1 : UInt64) <<< (8 * resSize).toUInt64 ≤ resNum) ∧
          uint64To8be resNum resSize = bytes := by
  simp only [decodeBlock, Option.bind_eq_bind, Option.bind_eq_some_iff,
    Option.ite_none_left_eq_some, Option.pure_def, Option.some.injEq]

end DecodeBlock

section Blocks

/-- A block of `size` bytes takes `256 ^ size` values, which `size` bytes of a word hold. -/
private theorem pow_bytes (size : Nat) : 256 ^ size = 2 ^ (8 * size) := by
  rw [Nat.pow_mul]

/-- `decode_block` reads back what `encode_block` writes for a block of one to eight bytes. -/
theorem decodeBlock_encodeBlock (block : List UInt8) (nonempty : 0 < block.length)
    (short : block.length ≤ 8) :
    decodeBlock (encodeBlock block (List.replicate encodedBlockSizes[block.length]! alphabet[0]!)) =
      some block := by
  obtain ⟨-, -, narrow⟩ := encodedBlockSizes_bounds block.length short
  have valueLt : littleEndian block.reverse < 256 ^ block.length := by
    have := littleEndian_lt block.reverse
    rwa [List.length_reverse] at this
  -- The value fits in the block's width and in a word.
  have fitsWidth : littleEndian block.reverse < 58 ^ encodedBlockSizes[block.length]! :=
    Nat.lt_of_lt_of_le valueLt (pow_le_encodedBlockSizes _ short)
  have fitsWord : littleEndian block.reverse < 2 ^ 64 :=
    calc littleEndian block.reverse < 256 ^ block.length := valueLt
      _ ≤ 256 ^ 8 := Nat.pow_le_pow_right (by norm_num) short
      _ = 2 ^ 64 := by norm_num
  have digitsValue : Nat.ofDigits 58 (Nat.fixedDigits 58 encodedBlockSizes[block.length]!
      (littleEndian block.reverse)) = littleEndian block.reverse := by
    rw [Nat.ofDigits_fixedDigits, Nat.mod_eq_of_lt fitsWidth]
  rw [encodeBlock_replicate block nonempty short, decodeBlock_eq_some_iff]
  refine ⟨block.length, ?_, by omega, uint8beTo64 block, ?_, ?_, uint64To8be_uint8beTo64 block short⟩
  · rw [List.length_map, List.length_reverse, Nat.length_fixedDigits]
    exact decodedBlockSizes_getElem short
  · -- The loop reads the digits back, lowest first.
    rw [← List.map_reverse, List.reverse_reverse, decodeBlockLoop_eq_some_iff _ 0 0 1 _
      (by rw [List.length_map, Nat.length_fixedDigits]; omega) rfl]
    refine ⟨_, Nat.fixedDigits_lt (by norm_num) _ _, rfl, ?_, ?_⟩
    · rw [digitsValue]
      simpa using fitsWord
    · rw [digitsValue, uint8beTo64_toNat block short]
      simp
  · -- A short block's value is below its bytes' range.
    rintro ⟨shortBlock, tooBig⟩
    rw [UInt64.le_iff_toNat_le, one_shiftLeft_toNat shortBlock, uint8beTo64_toNat block short,
      ← pow_bytes] at tooBig
    omega

/-- `decode_block` accepts only what `encode_block` writes: the letters of a block of one to eight
bytes, at its width. -/
theorem encodeBlock_of_decodeBlock {letters : List Char} {block : List UInt8}
    (read : decodeBlock letters = some block) :
    0 < block.length ∧ block.length ≤ 8 ∧ letters.length = encodedBlockSizes[block.length]! ∧
      encodeBlock block (List.replicate letters.length alphabet[0]!) = letters := by
  obtain ⟨resSize, sizes, nonzero, resNum, loop, fitsBytes, rfl⟩ :=
    (decodeBlock_eq_some_iff _ _).mp read
  obtain ⟨short, width⟩ := decodedBlockSizes_eq_some sizes
  obtain ⟨-, -, narrow⟩ := encodedBlockSizes_bounds resSize short
  rw [decodeBlockLoop_eq_some_iff _ 0 0 1 _ (by rw [List.length_reverse, ← width]; omega) rfl]
    at loop
  obtain ⟨digits, small, mapped, -, value⟩ := loop
  simp only [UInt64.toNat_zero, Nat.pow_zero, Nat.one_mul, Nat.zero_add] at value
  -- The value fits in the block's bytes: tested for a short block, and a word's for a full one.
  have fits : resNum.toNat < 256 ^ resSize := by
    by_cases shortBlock : resSize < 8
    · have below : ¬ (1 : UInt64) <<< (8 * resSize).toUInt64 ≤ resNum := fun tooBig =>
        fitsBytes ⟨shortBlock, tooBig⟩
      rw [UInt64.le_iff_toNat_le, one_shiftLeft_toNat shortBlock, ← pow_bytes] at below
      omega
    · have full : resSize = 8 := by omega
      rw [full]
      exact UInt64.toNat_lt resNum
  have lengthDigits : digits.length = letters.length := by
    rw [← @List.length_reverse _ letters, ← mapped, List.length_map]
  -- Written back, the value's digits at the block's width are the digits read.
  have encoded := encodeBlock_replicate (uint64To8be resNum resSize)
    (by rw [length_uint64To8be]; omega) (by rw [length_uint64To8be]; exact short)
  rw [length_uint64To8be, width, littleEndian_uint64To8be, Nat.mod_eq_of_lt fits, value,
    ← lengthDigits, Nat.fixedDigits_ofDigits small, List.map_reverse, mapped,
    List.reverse_reverse] at encoded
  refine ⟨by rw [length_uint64To8be]; omega, by rw [length_uint64To8be]; exact short,
    by rw [length_uint64To8be, width], ?_⟩
  rwa [lengthDigits] at encoded

end Blocks

section Strings

/-- The first eight bytes, as `encode`'s loop writes them: eleven letters that `decode_block` reads
back. -/
private theorem encodeFullBlock (data : List UInt8) (long : 8 ≤ data.length) :
    (encodeBlock (data.take fullBlockSize) (List.replicate fullEncodedBlockSize alphabet[0]!)).length =
      fullEncodedBlockSize ∧
    decodeBlock (encodeBlock (data.take fullBlockSize)
      (List.replicate fullEncodedBlockSize alphabet[0]!)) = some (data.take fullBlockSize) := by
  have blockLength : (data.take fullBlockSize).length = 8 := by
    rw [List.length_take]
    exact Nat.min_eq_left long
  have width : encodedBlockSizes[(data.take fullBlockSize).length]! = fullEncodedBlockSize := by
    rw [blockLength]
    rfl
  have decoded := decodeBlock_encodeBlock (data.take fullBlockSize) (by omega) (by omega)
  rw [width] at decoded
  refine ⟨?_, decoded⟩
  rw [← width, encodeBlock_replicate _ (by omega) (by omega), List.length_map, List.length_reverse,
    Nat.length_fixedDigits]

theorem length_encodeFullBlocks : ∀ (count : Nat) (data : List UInt8),
    count * fullBlockSize ≤ data.length →
    (encodeFullBlocks count data).length = count * fullEncodedBlockSize
  | 0, _, _ => rfl
  | count + 1, data, long => by
    have rest := length_encodeFullBlocks count (data.drop fullBlockSize)
        (by rw [List.length_drop]; simp only [fullBlockSize] at long ⊢; omega)
    rw [encodeFullBlocks, List.length_append, (encodeFullBlock data (by simp only [fullBlockSize] at long; omega)).1, rest]
    ring

/-- `decode`'s loop reads back the full blocks `encode`'s loop writes, whatever follows them. -/
theorem decodeFullBlocks_encodeFullBlocks : ∀ (count : Nat) (data : List UInt8) (tail : List Char),
    count * fullBlockSize ≤ data.length →
    decodeFullBlocks count (encodeFullBlocks count data ++ tail) =
      some (data.take (count * fullBlockSize))
  | 0, _, _, _ => rfl
  | count + 1, data, tail, long => by
    obtain ⟨blockLength, decoded⟩ :=
      encodeFullBlock data (by simp only [fullBlockSize] at long; omega)
    have rest := decodeFullBlocks_encodeFullBlocks count (data.drop fullBlockSize) tail
      (by rw [List.length_drop]; simp only [fullBlockSize] at long ⊢; omega)
    simp only [encodeFullBlocks, decodeFullBlocks, List.append_assoc, List.take_left' blockLength,
      List.drop_left' blockLength, decoded, rest, Option.bind_eq_bind, Option.bind_some,
      Option.pure_def]
    rw [Nat.succ_mul, Nat.add_comm, List.take_add]

/-- `encode`'s loop reads only the full blocks' bytes. -/
theorem encodeFullBlocks_append : ∀ (count : Nat) (data more : List UInt8),
    count * fullBlockSize ≤ data.length →
    encodeFullBlocks count (data ++ more) = encodeFullBlocks count data
  | 0, _, _, _ => rfl
  | count + 1, data, more, long => by
    simp only [fullBlockSize] at long
    rw [encodeFullBlocks, encodeFullBlocks,
      List.take_append_of_le_length (by simp only [fullBlockSize]; omega),
      List.drop_append_of_le_length (by simp only [fullBlockSize]; omega),
      encodeFullBlocks_append count _ more
        (by rw [List.length_drop]; simp only [fullBlockSize]; omega)]

/-- What `decode`'s loop accepts is what `encode`'s loop writes, eight bytes a block. -/
theorem encodeFullBlocks_of_decodeFullBlocks : ∀ (count : Nat) (enc : List Char)
    (data : List UInt8), count * fullEncodedBlockSize ≤ enc.length →
    decodeFullBlocks count enc = some data →
    data.length = count * fullBlockSize ∧
      encodeFullBlocks count data = enc.take (count * fullEncodedBlockSize)
  | 0, enc, data, _, read => by
    simp only [decodeFullBlocks, Option.some.injEq] at read
    subst read
    exact ⟨rfl, rfl⟩
  | count + 1, enc, data, long, read => by
    simp only [fullEncodedBlockSize] at long
    simp only [decodeFullBlocks, Option.bind_eq_bind, Option.bind_eq_some_iff, Option.pure_def,
      Option.some.injEq] at read
    obtain ⟨block, first, rest, others, rfl⟩ := read
    obtain ⟨-, short, width, encoded⟩ := encodeBlock_of_decodeBlock first
    have takeLength : (enc.take fullEncodedBlockSize).length = fullEncodedBlockSize := by
      rw [List.length_take]
      exact Nat.min_eq_left (by simp only [fullEncodedBlockSize]; omega)
    -- Eleven letters are a block of eight bytes.
    have blockLength : block.length = fullBlockSize := by
      rw [takeLength] at width
      exact (encodedBlockSizes_bounds block.length short).1.mp width.symm
    obtain ⟨restLength, restEncoded⟩ := encodeFullBlocks_of_decodeFullBlocks count _ rest
      (by rw [List.length_drop]; simp only [fullEncodedBlockSize]; omega) others
    refine ⟨by rw [List.length_append, blockLength, restLength]; ring, ?_⟩
    rw [takeLength] at encoded
    rw [encodeFullBlocks, List.take_left' blockLength, List.drop_left' blockLength, encoded,
      restEncoded, Nat.succ_mul, Nat.add_comm, List.take_add]

/-- `decode` reads back every string `encode` writes. -/
theorem decode_encode (data : List UInt8) : decode (encode data) = some data := by
  by_cases empty : data = []
  · subst empty
    rfl
  -- `encode` writes the full blocks, then the short last block at its width.
  have lastShort : data.length % fullBlockSize < 8 := Nat.mod_lt _ (by decide)
  obtain ⟨notFull, wide, -⟩ := encodedBlockSizes_bounds (data.length % fullBlockSize) (by omega)
  have narrow : encodedBlockSizes[data.length % fullBlockSize]! < 11 := by
    have : ¬ encodedBlockSizes[data.length % fullBlockSize]! = 11 := fun full => by
      have := notFull.mp full
      omega
    have := (encodedBlockSizes_bounds (data.length % fullBlockSize) (by omega)).2.2
    omega
  have tailLength : (data.drop (data.length / fullBlockSize * fullBlockSize)).length =
      data.length % fullBlockSize := by
    rw [List.length_drop, Nat.mod_def, Nat.mul_comm]
  have fullLength : (encodeFullBlocks (data.length / fullBlockSize) data).length =
      data.length / fullBlockSize * fullEncodedBlockSize :=
    length_encodeFullBlocks _ data (Nat.div_mul_le_self _ _)
  have lastLength : (if 0 < data.length % fullBlockSize then
      encodeBlock (data.drop (data.length / fullBlockSize * fullBlockSize))
        (List.replicate encodedBlockSizes[data.length % fullBlockSize]! alphabet[0]!)
      else []).length = encodedBlockSizes[data.length % fullBlockSize]! := by
    split
    · rw [← tailLength, encodeBlock_replicate _ (by omega) (by omega), List.length_map,
        List.length_reverse, Nat.length_fixedDigits]
    · rw [show data.length % fullBlockSize = 0 by omega]
      rfl
  simp only [encode, List.isEmpty_iff, empty, if_false]
  generalize lastPart : (if 0 < data.length % fullBlockSize then _ else []) = part at lastLength
  -- The string splits into whole blocks of eleven letters and a last block shorter than that.
  have total : (encodeFullBlocks (data.length / fullBlockSize) data ++ part).length =
      data.length / fullBlockSize * fullEncodedBlockSize +
        encodedBlockSizes[data.length % fullBlockSize]! := by
    rw [List.length_append, fullLength, lastLength]
  have blocks : (encodeFullBlocks (data.length / fullBlockSize) data ++ part).length /
      fullEncodedBlockSize = data.length / fullBlockSize := by
    rw [total]
    simp only [fullEncodedBlockSize]
    omega
  have rest : (encodeFullBlocks (data.length / fullBlockSize) data ++ part).length %
      fullEncodedBlockSize = encodedBlockSizes[data.length % fullBlockSize]! := by
    rw [total]
    simp only [fullEncodedBlockSize]
    omega
  have nonempty : encodeFullBlocks (data.length / fullBlockSize) data ++ part ≠ [] := by
    intro none
    have := congrArg List.length none
    rw [total] at this
    have : data.length ≠ 0 := fun zero => empty (List.length_eq_zero_iff.mp zero)
    simp only [List.length_nil, fullBlockSize, fullEncodedBlockSize] at *
    omega
  rw [decode, if_neg (by simpa using nonempty)]
  dsimp only
  rw [blocks, rest, decodedBlockSizes_getElem (by omega)]
  simp only [Option.bind_eq_bind, Option.bind_some]
  rw [decodeFullBlocks_encodeFullBlocks (data.length / fullBlockSize) data part
    (Nat.div_mul_le_self _ _),
    Option.bind_some, List.drop_left' fullLength]
  by_cases positive : 0 < data.length % fullBlockSize
  · -- The last block reads back as the bytes after the full blocks.
    rw [if_pos (wide.mpr positive), ← lastPart, if_pos positive]
    have decoded := decodeBlock_encodeBlock (data.drop (data.length / fullBlockSize * fullBlockSize))
      (by omega) (by omega)
    rw [tailLength] at decoded
    rw [decoded, Option.bind_some, List.take_append_drop, Option.pure_def]
  · -- No last block: the full blocks are all the data.
    have whole := Nat.mod_add_div' data.length fullBlockSize
    rw [if_neg (fun widthPositive => positive (wide.mp widthPositive)),
      List.take_of_length_le (by omega), Option.pure_def]

/-- `decode` accepts only what `encode` writes: the bytes it reads are encoded back to the string
it read them from. -/
theorem encode_of_decode {enc : List Char} {data : List UInt8} (read : decode enc = some data) :
    encode data = enc := by
  by_cases empty : enc = []
  · subst empty
    simp only [decode, List.isEmpty_nil, if_true, Option.some.injEq] at read
    subst read
    rfl
  simp only [decode, List.isEmpty_iff, empty, if_false, Option.bind_eq_bind,
    Option.bind_eq_some_iff] at read
  obtain ⟨-, -, full, fullRead, rest⟩ := read
  have whole := Nat.mod_add_div' enc.length fullEncodedBlockSize
  obtain ⟨fullLength, fullEncoded⟩ := encodeFullBlocks_of_decodeFullBlocks _ enc full
    (Nat.div_mul_le_self _ _) fullRead
  by_cases positive : 0 < enc.length % fullEncodedBlockSize
  · -- The last block is a short block that `encode` writes at the same width.
    simp only [if_pos positive, Option.pure_def, Option.bind_eq_some_iff, Option.some.injEq] at rest
    obtain ⟨last, lastRead, rfl⟩ := rest
    obtain ⟨nonempty, short, width, encoded⟩ := encodeBlock_of_decodeBlock lastRead
    have dropLength : (enc.drop (enc.length / fullEncodedBlockSize * fullEncodedBlockSize)).length =
        enc.length % fullEncodedBlockSize := by
      rw [List.length_drop]
      omega
    rw [dropLength] at width encoded
    have lastShort : last.length < fullBlockSize := by
      have notFull := (encodedBlockSizes_bounds last.length short).1
      have : enc.length % fullEncodedBlockSize < 11 := Nat.mod_lt _ (by decide)
      have : last.length ≠ 8 := fun full => by
        rw [← notFull] at full
        omega
      simp only [fullBlockSize]
      omega
    -- Read back as bytes, the string is the full blocks and then the short one.
    have total : (full ++ last).length = enc.length / fullEncodedBlockSize * fullBlockSize +
        last.length := by
      rw [List.length_append, fullLength]
    have blocks : (full ++ last).length / fullBlockSize = enc.length / fullEncodedBlockSize := by
      rw [total]
      simp only [fullBlockSize] at lastShort ⊢
      omega
    have remainder : (full ++ last).length % fullBlockSize = last.length := by
      rw [total]
      simp only [fullBlockSize] at lastShort ⊢
      omega
    have notEmpty : (full ++ last).isEmpty = false := by
      simp only [List.isEmpty_eq_false_iff, ne_eq, List.append_eq_nil_iff, not_and]
      intro _ lastEmpty
      simp [lastEmpty] at nonempty
    simp only [encode, notEmpty, Bool.false_eq_true, if_false]
    rw [blocks, remainder, if_pos nonempty, List.drop_left' fullLength,
      encodeFullBlocks_append _ full last (by rw [fullLength]), fullEncoded, ← width, encoded,
      List.take_append_drop]
  · -- No last block: the string is whole blocks only.
    simp only [if_neg positive, Option.pure_def, Option.some.injEq] at rest
    subst rest
    have blocksNonempty : 0 < enc.length / fullEncodedBlockSize := by
      have : enc.length ≠ 0 := fun zero => empty (List.length_eq_zero_iff.mp zero)
      simp only [fullEncodedBlockSize] at whole positive ⊢
      omega
    have notEmpty : full.isEmpty = false := by
      rw [List.isEmpty_eq_false_iff, ne_eq, ← List.length_eq_zero_iff, fullLength]
      simp only [fullBlockSize]
      omega
    have blocks : full.length / fullBlockSize = enc.length / fullEncodedBlockSize := by
      rw [fullLength]
      simp only [fullBlockSize]
      omega
    have remainder : full.length % fullBlockSize = 0 := by
      rw [fullLength]
      simp only [fullBlockSize]
      omega
    simp only [encode, notEmpty, Bool.false_eq_true, if_false]
    rw [blocks, remainder, if_neg (Nat.lt_irrefl 0), List.append_nil, fullEncoded,
      List.take_of_length_le (by omega)]

end Strings

/-- Base58 is invertible and its decoder canonical: `decode` reads back every string `encode`
writes, and every string it accepts is the encoding of the bytes it reads. -/
theorem decode_encode_and_canonical :
    (∀ data, decode (encode data) = some data) ∧
      ∀ enc data, decode enc = some data → encode data = enc :=
  ⟨decode_encode, fun _ _ read => encode_of_decode read⟩

theorem decode_encode_and_canonical_on_zero_byte :
    decode ['1', '1'] = some [0] ∧ encode [0] = ['1', '1'] :=
  ⟨by decide, decode_encode_and_canonical.2 _ _ (by decide)⟩

theorem encode_injective : Function.Injective encode := fun first second same =>
  Option.some.inj (by rw [← decode_encode first, same, decode_encode])

section Address

variable (cnFastHash : List UInt8 → CryptoNote.Hash)

/-- `encode_addr`: the tag's varint and the data, then the first bytes of their `cn_fast_hash`, in
Base58. -/
def encodeAddr (tag : UInt64) (data : List UInt8) : List Char :=
  let buf := getVarintData tag ++ data
  let hash := cnFastHash buf
  encode (buf ++ hash.data.toList.take addrChecksumSize)

/-- `decode_addr`: the tag and the data, or `none` where the source returns `false`. -/
def decodeAddr (addr : List Char) : Option (UInt64 × List UInt8) := do
  let addrData ← decode addr
  if addrData.length ≤ addrChecksumSize then none
  else
    let checksum := addrData.drop (addrData.length - addrChecksumSize)
    let addrData := addrData.take (addrData.length - addrChecksumSize)
    let hash := cnFastHash addrData
    let expectedChecksum := hash.data.toList.take addrChecksumSize
    if expectedChecksum ≠ checksum then none
    else
      let (read, tag) := readVarint addrData
      if read ≤ 0 then none
      else pure (tag, addrData.drop read.toNat)

/-- On the Base58 of some bytes followed by their checksum, `decode_addr` is left with reading
the tag from the bytes. -/
theorem decodeAddr_encode_checksum (buf : List UInt8) (nonempty : buf ≠ []) :
    decodeAddr cnFastHash (encode (buf ++ (cnFastHash buf).data.toList.take addrChecksumSize)) =
      if (readVarint buf).1 ≤ 0 then none
      else some ((readVarint buf).2, buf.drop (readVarint buf).1.toNat) := by
  have checksumLength : ((cnFastHash buf).data.toList.take addrChecksumSize).length =
      addrChecksumSize := by
    simp [addrChecksumSize]
  have bufLength : 0 < buf.length := List.length_pos_iff.mpr nonempty
  have cut : (buf ++ (cnFastHash buf).data.toList.take addrChecksumSize).length -
      addrChecksumSize = buf.length := by
    rw [List.length_append, checksumLength, Nat.add_sub_cancel]
  simp only [decodeAddr, decode_encode, Option.bind_eq_bind, Option.bind_some]
  rw [if_neg (by rw [List.length_append, checksumLength]; omega), cut, List.drop_left,
    List.take_left, if_neg (fun differ => differ rfl)]
  rfl

/-- `decode_addr` reads back the tag and the data of every address `encode_addr` writes. -/
theorem decodeAddr_encodeAddr (tag : UInt64) (data : List UInt8) :
    decodeAddr cnFastHash (encodeAddr cnFastHash tag data) = some (tag, data) := by
  have nonempty : getVarintData tag ++ data ≠ [] := by
    simp [getVarintData, Varint.encode_ne_nil]
  simp only [encodeAddr]
  rw [decodeAddr_encode_checksum cnFastHash _ nonempty, readVarint_getVarintData]
  have counted : 0 < (getVarintData tag).length :=
    List.length_pos_iff.mpr (Varint.encode_ne_nil _)
  rw [if_neg (by omega)]
  simp

/-- `decode_addr` accepts an address whose tag varint the end of its bytes cuts off: the byte
`0x80` promises another byte that never comes, and `read_varint` counts the one byte it read. The
address reads as tag 0 with no data, which `encode_addr` writes as another string, so two
addresses decode to the same tag and data, whatever the hash. -/
theorem decodeAddr_accepts_truncated_tag :
    decodeAddr cnFastHash
        (encode ([0x80] ++ (cnFastHash [0x80]).data.toList.take addrChecksumSize)) =
      some (0, []) ∧
    decodeAddr cnFastHash (encodeAddr cnFastHash 0 []) = some (0, []) ∧
    encodeAddr cnFastHash 0 [] ≠
      encode ([0x80] ++ (cnFastHash [0x80]).data.toList.take addrChecksumSize) := by
  refine ⟨?_, decodeAddr_encodeAddr cnFastHash 0 [], fun same => ?_⟩
  · rw [decodeAddr_encode_checksum cnFastHash _ (List.cons_ne_nil _ _)]
    decide
  · -- The two strings encode bytes that differ in the first, the tag's.
    have bytes := congrArg List.head? (encode_injective same)
    have zeroTag : getVarintData 0 = [0] := rfl
    simp [zeroTag] at bytes

end Address

end Tools.Base58
