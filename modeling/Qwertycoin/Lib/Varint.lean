import Mathlib

/-!
Variable-length integers in base 128 (LEB128): seven bits a byte, lowest first, the high bit set on
every byte but the last. The writer emits the shortest such form. The reader of a `width`-bit
integer refuses a byte that would set a bit at or above `width`, and a last byte of zero after the
first, so that it accepts exactly what the writer emits for integers below `2 ^ width`:
`decode_encode` reads the writer's bytes back, and `encode_of_decode` shows that whatever the
reader accepts is the writer's form of the value read.
-/

namespace Varint

/-- The writer's loop, for at most `fuel` more rounds: while the value has more than seven bits,
emit its low seven with the high bit set and shift them out. -/
def encodeFuel : (fuel : Nat) → Nat → List UInt8
  | 0, value => [UInt8.ofNat value]
  | fuel + 1, value =>
    if 128 ≤ value then UInt8.ofNat (value % 128 + 128) :: encodeFuel fuel (value / 128)
    else [UInt8.ofNat value]

/-- The bytes the writer emits for `value`. Each round divides the value by 128, so `value` rounds
are always enough. -/
def encode (value : Nat) : List UInt8 := encodeFuel value value

/-- The reader's loop at bit `shift`, `temp` holding the bits read so far, all below `shift`. -/
def decodeFrom (width : Nat) : (shift temp : Nat) → List UInt8 → Option (Nat × List UInt8)
  | _, _, [] => none
  | shift, temp, piece :: rest =>
    -- A byte that would set a bit at or above `width` overflows.
    if width - 7 ≤ shift ∧ 2 ^ (width - shift) ≤ piece.toNat then none
    else
      -- The new bits lie above those of `temp`, so or-ing them in adds them.
      let temp := temp + piece.toNat % 128 * 2 ^ shift
      if piece.toNat < 128 then
        -- A last byte of zero after the first would spell the value in too many bytes.
        if piece.toNat = 0 ∧ shift ≠ 0 then none else some (temp, rest)
      else decodeFrom width (shift + 7) temp rest

/-- The reader of a `width`-bit integer: the value and the bytes after it. -/
def decode (width : Nat) (bytes : List UInt8) : Option (Nat × List UInt8) :=
  decodeFrom width 0 0 bytes

section Encode

/-- Any fuel at least the value gives the same bytes. -/
theorem encodeFuel_eq_encode : ∀ fuel value, value ≤ fuel → encodeFuel fuel value = encode value
  | 0, value, small => by
    have : value = 0 := by omega
    subst this
    rfl
  | fuel + 1, value, small => by
    unfold encode
    by_cases big : 128 ≤ value
    · -- Both loops emit the same byte and go on with the quotient, which has fuel to spare.
      obtain ⟨value', rfl⟩ : ∃ value', value = value' + 1 := ⟨value - 1, by omega⟩
      have quotient : (value' + 1) / 128 ≤ value' := by omega
      rw [encodeFuel, encodeFuel, if_pos big, if_pos big,
        encodeFuel_eq_encode fuel _ (by omega), encodeFuel_eq_encode value' _ quotient]
    · cases value with
      | zero => rfl
      | succ value' => rw [encodeFuel, encodeFuel, if_neg big, if_neg big]

/-- One round of the writer. -/
theorem encode_eq (value : Nat) :
    encode value = if 128 ≤ value then UInt8.ofNat (value % 128 + 128) :: encode (value / 128)
      else [UInt8.ofNat value] := by
  cases value with
  | zero => rfl
  | succ value' =>
    -- One round of fuel is spent, and what is left still covers the quotient.
    show encodeFuel (value' + 1) (value' + 1) = _
    rw [encodeFuel]
    split
    · rw [encodeFuel_eq_encode value' _ (by omega)]
    · rfl

theorem encode_ne_nil (value : Nat) : encode value ≠ [] := by
  rw [encode_eq]
  split <;> simp

/-- Seven bits a byte: a value below `128 ^ (k + 1)` takes at most `k + 1` bytes. -/
theorem length_encode_le (k : Nat) :
    ∀ value, value < 128 ^ (k + 1) → (encode value).length ≤ k + 1 := by
  -- One more byte for each further factor of 128.
  induction k with
  | zero =>
    intro value fits
    rw [encode_eq, if_neg (by omega)]
    rfl
  | succ k ih =>
    intro value fits
    rw [encode_eq]
    split
    · have quotient : value / 128 < 128 ^ (k + 1) := by
        rw [Nat.div_lt_iff_lt_mul (by norm_num), ← Nat.pow_succ]
        exact fits
      rw [List.length_cons]
      exact Nat.succ_le_succ (ih _ quotient)
    · simp

end Encode

section Arithmetic

/-- A byte below 128 is itself as a natural number below 128. -/
theorem ofNat_toNat_small (piece : UInt8) : UInt8.ofNat piece.toNat = piece := by
  simp

/-- The low seven bits with the high bit set make the byte back when its high bit was set. -/
theorem ofNat_continued (piece : UInt8) (high : 128 ≤ piece.toNat) :
    UInt8.ofNat (piece.toNat % 128 + 128) = piece := by
  have bound := piece.toNat_lt
  have : piece.toNat % 128 + 128 = piece.toNat := by omega
  rw [this]
  simp

theorem toNat_ofNat_lt {value : Nat} (small : value < 256) : (UInt8.ofNat value).toNat = value := by
  simp [Nat.mod_eq_of_lt small]

/-- Below `2 ^ width` and above `2 ^ shift` by a factor of 128, a value leaves room for seven more
bits above `shift`. -/
theorem add_seven_lt_width {value shift width : Nat} (big : 128 ≤ value)
    (fits : value * 2 ^ shift < 2 ^ width) : shift + 7 < width := by
  have grown : 2 ^ (shift + 7) < 2 ^ width := by
    calc 2 ^ (shift + 7) = 128 * 2 ^ shift := by rw [Nat.pow_add]; ring
      _ ≤ value * 2 ^ shift := Nat.mul_le_mul_right _ big
      _ < 2 ^ width := fits
  exact (Nat.pow_lt_pow_iff_right (by norm_num)).mp grown

/-- A value whose multiple by `2 ^ shift` lies below `2 ^ width` lies below `2 ^ (width - shift)`. -/
theorem lt_pow_sub {value shift width : Nat} (within : shift ≤ width)
    (fits : value * 2 ^ shift < 2 ^ width) : value < 2 ^ (width - shift) := by
  have split : 2 ^ width = 2 ^ (width - shift) * 2 ^ shift := by
    rw [← Nat.pow_add, Nat.sub_add_cancel within]
  rw [split] at fits
  exact Nat.lt_of_mul_lt_mul_right fits

/-- Splitting off the low seven bits at `shift`. -/
theorem mod_add_div_shift (value shift : Nat) :
    value % 128 * 2 ^ shift + value / 128 * 2 ^ (shift + 7) = value * 2 ^ shift := by
  have digits := Nat.mod_add_div value 128
  calc value % 128 * 2 ^ shift + value / 128 * 2 ^ (shift + 7)
      = (value % 128 + 128 * (value / 128)) * 2 ^ shift := by rw [Nat.pow_add]; ring
    _ = value * 2 ^ shift := by rw [digits]

end Arithmetic

section RoundTrip

variable {width : Nat}

/-- From bit `shift` on, the reader reads the writer's bytes of `value` back. The value must fit
above `shift`, and must not be zero after the first byte. -/
theorem decodeFrom_encode (wide : 7 ≤ width) (rest : List UInt8) :
    ∀ value shift temp, temp < 2 ^ shift → (shift ≠ 0 → 0 < value) →
      value * 2 ^ shift < 2 ^ width →
      decodeFrom width shift temp (encode value ++ rest) = some (temp + value * 2 ^ shift, rest) := by
  intro value
  induction value using Nat.strongRecOn with
  | ind value ih =>
    intro shift temp below nonzero fits
    rw [encode_eq]
    by_cases big : 128 ≤ value
    · -- A continued byte: there are bits left above this one, so it cannot overflow.
      have room := add_seven_lt_width big fits
      have piece : (UInt8.ofNat (value % 128 + 128)).toNat = value % 128 + 128 :=
        toNat_ofNat_lt (by omega)
      rw [if_pos big, List.cons_append, decodeFrom, piece, if_neg (by omega)]
      simp only [show ¬ value % 128 + 128 < 128 by omega, if_false, Nat.add_mod_right,
        Nat.mod_mod]
      -- The quotient carries on seven bits up.
      have quotientFits : value / 128 * 2 ^ (shift + 7) < 2 ^ width := by
        have := mod_add_div_shift value shift
        omega
      have tempFits : temp + value % 128 * 2 ^ shift < 2 ^ (shift + 7) := by
        have : value % 128 * 2 ^ shift ≤ 127 * 2 ^ shift := Nat.mul_le_mul_right _ (by omega)
        rw [Nat.pow_add]
        omega
      rw [ih (value / 128) (by omega) (shift + 7) _ tempFits (fun _ => by omega) quotientFits]
      have := mod_add_div_shift value shift
      congr 2
      omega
    · -- The last byte: it fits below `width` and is not a spurious zero.
      have piece : (UInt8.ofNat value).toNat = value := toNat_ofNat_lt (by omega)
      rw [if_neg big, List.singleton_append, decodeFrom, piece]
      have noOverflow : ¬ (width - 7 ≤ shift ∧ 2 ^ (width - shift) ≤ value) := by
        rintro ⟨high, tooBig⟩
        by_cases within : shift ≤ width
        · exact absurd (lt_pow_sub within fits) (by omega)
        · -- Beyond `width` only zero fits, and zero is refused after the first byte.
          have zero : value = 0 := by
            by_contra positive
            have : 2 ^ width < value * 2 ^ shift :=
              calc 2 ^ width < 2 ^ shift := Nat.pow_lt_pow_right (by norm_num) (by omega)
                _ ≤ value * 2 ^ shift := Nat.le_mul_of_pos_left _ (by omega)
            omega
          exact absurd (nonzero (by omega)) (by omega)
      rw [if_neg noOverflow, if_pos (by omega), if_neg (by omega), Nat.mod_eq_of_lt (by omega)]

/-- The reader reads back what the writer wrote for every value below `2 ^ width`, whatever follows
it. -/
theorem decode_encode (wide : 7 ≤ width) {value : Nat} (fits : value < 2 ^ width)
    (rest : List UInt8) : decode width (encode value ++ rest) = some (value, rest) := by
  have run := decodeFrom_encode wide rest value 0 0 (by norm_num) (by omega) (by simpa using fits)
  simpa [decode] using run

/-- What the reader accepts from bit `shift` on is the writer's form of a value that is not zero
after the first byte, and the whole number read fits in `width` bits. -/
theorem encode_of_decodeFrom :
    ∀ (input : List UInt8) (shift temp value : Nat) (rest : List UInt8),
      temp < 2 ^ shift → decodeFrom width shift temp input = some (value, rest) →
      value < 2 ^ width ∧ ∃ high, value = temp + high * 2 ^ shift ∧
        input = encode high ++ rest ∧ (shift ≠ 0 → 0 < high)
  | [], _, _, _, _, _, read => by simp [decodeFrom] at read
  | piece :: bytes, shift, temp, value, rest, below, read => by
    rw [decodeFrom] at read
    split at read
    · cases read
    · rename_i noOverflow
      have byteBound := piece.toNat_lt
      by_cases last : piece.toNat < 128
      · -- The last byte: the value is `temp` with this byte on top.
        rw [if_pos last] at read
        split at read
        · cases read
        · rename_i canonical
          simp only [Option.some.injEq, Prod.mk.injEq] at read
          obtain ⟨rfl, rfl⟩ := read
          have fits : temp + piece.toNat % 128 * 2 ^ shift < 2 ^ width := by
            rw [Nat.mod_eq_of_lt last]
            by_cases high : width - 7 ≤ shift
            · -- Near the top, the overflow test bounds this byte.
              have small : piece.toNat < 2 ^ (width - shift) := by omega
              by_cases within : shift ≤ width
              · have split : 2 ^ width = 2 ^ (width - shift) * 2 ^ shift := by
                  rw [← Nat.pow_add, Nat.sub_add_cancel within]
                have : piece.toNat * 2 ^ shift + 2 ^ shift ≤ 2 ^ (width - shift) * 2 ^ shift := by
                  have := Nat.mul_le_mul_right (2 ^ shift) small
                  rw [Nat.succ_mul] at this
                  exact this
                omega
              · have : width - shift = 0 := by omega
                rw [this] at small
                have zero : piece.toNat = 0 := by omega
                exact absurd ⟨zero, by omega⟩ canonical
            · -- Lower down, the byte's seven bits stay below `width`.
              have room : 2 ^ (shift + 7) ≤ 2 ^ width := Nat.pow_le_pow_right (by norm_num) (by omega)
              have : piece.toNat * 2 ^ shift ≤ 127 * 2 ^ shift := Nat.mul_le_mul_right _ (by omega)
              rw [Nat.pow_add] at room
              omega
          refine ⟨fits, piece.toNat, by rw [Nat.mod_eq_of_lt last], ?_, fun moved => ?_⟩
          · rw [encode_eq, if_neg (by omega), ofNat_toNat_small]
            rfl
          · by_contra zero
            exact canonical ⟨by omega, moved⟩
      · -- A continued byte: the rest of the number is read seven bits up.
        rw [if_neg last] at read
        have tempFits : temp + piece.toNat % 128 * 2 ^ shift < 2 ^ (shift + 7) := by
          have : piece.toNat % 128 * 2 ^ shift ≤ 127 * 2 ^ shift :=
            Nat.mul_le_mul_right _ (by omega)
          rw [Nat.pow_add]
          omega
        obtain ⟨fits, high, total, spelled, nonzero⟩ :=
          encode_of_decodeFrom bytes (shift + 7) _ value rest tempFits read
        have positive := nonzero (by omega)
        refine ⟨fits, piece.toNat % 128 + 128 * high, ?_, ?_, fun _ => by omega⟩
        · rw [total, Nat.pow_add]
          ring
        · -- This byte is the writer's first byte of the combined value.
          have combined : 128 ≤ piece.toNat % 128 + 128 * high := by omega
          have low : (piece.toNat % 128 + 128 * high) % 128 = piece.toNat % 128 := by omega
          have quotient : (piece.toNat % 128 + 128 * high) / 128 = high := by omega
          rw [encode_eq (piece.toNat % 128 + 128 * high), if_pos combined, List.cons_append, low,
            quotient, ← spelled, ofNat_continued piece (by omega)]

/-- Whatever the reader accepts is the writer's form of the value read, and that value fits in
`width` bits. -/
theorem encode_of_decode {input : List UInt8} {value : Nat} {rest : List UInt8}
    (read : decode width input = some (value, rest)) :
    value < 2 ^ width ∧ input = encode value ++ rest := by
  obtain ⟨fits, high, total, spelled, _⟩ :=
    encode_of_decodeFrom input 0 0 value rest (by norm_num) read
  have : value = high := by simpa using total
  subst this
  exact ⟨fits, spelled⟩

end RoundTrip

end Varint
