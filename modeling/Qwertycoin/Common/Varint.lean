import Qwertycoin.Lib.Varint

/-!
`Tools::write_varint` and `Tools::read_varint` of `Common/Varint.h`, the varint in front of a
Base58 address. The writer is the LEB128 writer of `Varint.encode`. The reader refuses a byte that
would overflow the integer and a last byte of zero after the first, as `Varint.decode` does, and on
the writer's bytes it returns their count (`readVarint_getVarintData`). At the end of its input,
though, it returns the count of bytes read so far, also inside a varint whose last byte never came.
-/

namespace Tools

/-- `get_varint_data`: the bytes `write_varint` emits for `v`. -/
def getVarintData (v : UInt64) : List UInt8 := Varint.encode v.toNat

/-- The loop of `read_varint` for a `bits`-bit integer at bit `shift`, after `read` bytes, with `i`
holding the bits read so far: the count of bytes read (`-1` on overflow, `-2` on a non-canonical
byte), and the integer. -/
def readVarintLoop (bits : Nat) : (shift read i : Nat) → List UInt8 → Int × Nat
  -- End of input: the bytes read so far count, whatever the last one said.
  | _, read, i, [] => (read, i)
  | shift, read, i, byte :: rest =>
    if bits ≤ shift + 7 ∧ 2 ^ (bits - shift) ≤ byte.toNat then (-1, i)
    else if byte.toNat = 0 ∧ shift ≠ 0 then (-2, i)
    else
      -- The new bits lie above those of `i`, so or-ing them in adds them.
      let i := i + byte.toNat % 128 * 2 ^ shift
      if byte.toNat < 128 then (read + 1, i)
      else readVarintLoop bits (shift + 7) (read + 1) i rest

/-- `read_varint` into a `uint64_t`: the count of bytes read, or a negative error, and the
integer. -/
def readVarint (bytes : List UInt8) : Int × UInt64 :=
  let (read, i) := readVarintLoop 64 0 0 0 bytes
  (read, UInt64.ofNat i)

/-- Where `Varint.decodeFrom` reads a value, `read_varint`'s loop reads the same value and counts
the bytes it took. -/
theorem readVarintLoop_of_decodeFrom {bits : Nat} (wide : 7 ≤ bits) :
    ∀ (bytes : List UInt8) (shift read i value : Nat) (rest : List UInt8),
      Varint.decodeFrom bits shift i bytes = some (value, rest) →
      readVarintLoop bits shift read i bytes =
        (((read + (bytes.length - rest.length) : Nat) : Int), value) ∧ rest.length < bytes.length
  | [], _, _, _, _, _, decoded => by simp [Varint.decodeFrom] at decoded
  | byte :: bytes, shift, read, i, value, rest, decoded => by
    rw [Varint.decodeFrom] at decoded
    -- The two readers test overflow alike, once `bits` has room for a byte.
    have sameOverflow : (bits - 7 ≤ shift ∧ 2 ^ (bits - shift) ≤ byte.toNat) ↔
        (bits ≤ shift + 7 ∧ 2 ^ (bits - shift) ≤ byte.toNat) := by
      constructor <;> rintro ⟨near, big⟩ <;> exact ⟨by omega, big⟩
    split at decoded
    · cases decoded
    · rename_i noOverflow
      simp only [readVarintLoop]
      rw [if_neg (fun beyond => noOverflow (sameOverflow.mpr beyond))]
      by_cases last : byte.toNat < 128
      · -- The last byte: both stop here, unless it is a spurious zero.
        rw [if_pos last] at decoded
        split at decoded
        · cases decoded
        · rename_i canonical
          simp only [Option.some.injEq, Prod.mk.injEq] at decoded
          obtain ⟨rfl, rfl⟩ := decoded
          rw [if_neg canonical, if_pos last]
          simp
      · -- A continued byte is not zero, and both go on seven bits up.
        rw [if_neg last] at decoded
        have continued : ¬ (byte.toNat = 0 ∧ shift ≠ 0) := fun both => last (by have zero := both.1; omega)
        obtain ⟨run, shorter⟩ :=
          readVarintLoop_of_decodeFrom wide bytes (shift + 7) (read + 1) _ value rest decoded
        rw [if_neg continued, if_neg last, run]
        simp only [List.length_cons, Prod.mk.injEq, and_true]
        constructor
        · push_cast
          omega
        · omega

/-- `read_varint` reads back the tag `get_varint_data` writes, and counts its bytes, whatever
follows it. -/
theorem readVarint_getVarintData (v : UInt64) (rest : List UInt8) :
    readVarint (getVarintData v ++ rest) = (((getVarintData v).length : Int), v) := by
  have decoded := Varint.decode_encode (by decide : 7 ≤ 64) (UInt64.toNat_lt v) rest
  obtain ⟨run, -⟩ := readVarintLoop_of_decodeFrom (by decide) _ 0 0 0 v.toNat rest decoded
  simp only [readVarint, getVarintData, run, List.length_append, Nat.add_sub_cancel,
    Nat.zero_add, UInt64.ofNat_toNat]

end Tools
