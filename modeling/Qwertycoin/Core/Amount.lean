import Mathlib
import Qwertycoin.Core.Currency
import Qwertycoin.Lib.IndexedList

/-!
Amounts as users read and type them. `Currency::formatAmount` writes an amount of atomic units as a
decimal with `numberOfDecimalPlaces` places; `Currency::parseAmount` reads a typed decimal back,
dropping surplus zeros off the fraction, taking the point out, padding the fraction to the number
of places and leaving the overflow check to the stream extraction of `Common::fromString`.

`parseAmount_eq_some_iff` says which texts are read and as what: the texts of digits with at most
one point and at most `numberOfDecimalPlaces` places once the fraction's trailing zeros go
(`AmountText`), valued below `2^64`, as soon as there is at least one place. With no places at all
a text such as `.0`, whose only digits are zeros after the point, is refused
(`parseAmount_refuses_fraction_of_zeros`). `parseAmount_formatAmount` reads every written amount
back.
-/

namespace CryptoNote

/-- `std::isspace` in the classic locale: the characters `boost::algorithm::trim` strips. -/
def isSpace (c : Char) : Bool :=
  c == ' ' || c == '\t' || c == '\n' || c == '\x0b' || c == '\x0c' || c == '\r'

/-- `boost::algorithm::trim`: the blanks off the end, then off the front. -/
def trim (s : List Char) : List Char :=
  (s.reverse.dropWhile isSpace).reverse.dropWhile isSpace

/-- Digits are not blanks. -/
theorem isSpace_of_isDigit {c : Char} (digit : c.isDigit) : isSpace c = false := by
  simp only [Char.isDigit, Bool.and_eq_true, decide_eq_true_eq] at digit
  simp only [isSpace, Bool.or_eq_false_iff, beq_eq_false_iff_ne]
  -- Each blank lies below `'0'`.
  refine ⟨⟨⟨⟨⟨?_, ?_⟩, ?_⟩, ?_⟩, ?_⟩, ?_⟩ <;> rintro rfl <;> simp at digit

/-- Trimming a text without blanks leaves it as it is. -/
theorem trim_of_no_space {s : List Char} (noSpace : ∀ c ∈ s, isSpace c = false) : trim s = s := by
  have keep : ∀ l : List Char, (∀ c ∈ l, isSpace c = false) → l.dropWhile isSpace = l :=
    fun l none => List.dropWhile_eq_self_iff.mpr fun nonempty => by
      rw [none _ (List.getElem_mem nonempty)]
      decide
  rw [trim, keep s.reverse (by simpa using noSpace), List.reverse_reverse, keep s noSpace]

/-- Zeros appended to a text of digits scale its value. -/
theorem ofDigitChars_append_zeros (s : List Char) (m : Nat) :
    Nat.ofDigitChars 10 (s ++ List.replicate m '0') 0 = Nat.ofDigitChars 10 s 0 * 10 ^ m := by
  rw [Nat.ofDigitChars_append, Nat.ofDigitChars_replicate_zero, Nat.mul_comm]

namespace Common

/-- `Common::fromString<uint64_t>`: `istringstream >> value` reads the leading decimal digits, and
fails when there is none or when their value does not fit in 64 bits. The blanks and the sign it
would also take in front never reach it from `parseAmount`, which passes it digits only. -/
def fromString (text : List Char) : Option UInt64 :=
  let digits := text.takeWhile Char.isDigit
  if digits.isEmpty then none
  else if Nat.ofDigitChars 10 digits 0 < 2 ^ 64 then some (UInt64.ofNat (Nat.ofDigitChars 10 digits 0))
  else none

/-- On a nonempty text of digits the extraction reads them all. -/
theorem fromString_of_digits {text : List Char} (nonempty : text ≠ [])
    (digits : ∀ c ∈ text, c.isDigit) :
    fromString text =
      if Nat.ofDigitChars 10 text 0 < 2 ^ 64 then some (UInt64.ofNat (Nat.ofDigitChars 10 text 0))
      else none := by
  rw [fromString, List.takeWhile_eq_self_iff.mpr digits, if_neg (by simpa using nonempty)]

end Common

namespace Currency

variable (currency : Currency)

/-- `Currency::formatAmount(uint64_t)`: `std::to_string` of the amount, padded with zeros in front
to one more digit than the number of places, and a point in front of the last
`numberOfDecimalPlaces` digits. -/
def formatAmount (amount : UInt64) : List Char :=
  let s := Nat.toDigits 10 amount.toNat
  let s :=
    if s.length < currency.numberOfDecimalPlaces + 1 then
      List.replicate (currency.numberOfDecimalPlaces + 1 - s.length) '0' ++ s
    else s
  s.take (s.length - currency.numberOfDecimalPlaces) ++
    '.' :: s.drop (s.length - currency.numberOfDecimalPlaces)

/-- The loop of `parseAmount` that drops zeros off the end of the text while the fraction has more
digits than the number of places. -/
def dropFractionZeros (strAmount : List Char) : (fractionSize : Nat) → List Char × Nat
  | 0 => (strAmount, 0)
  | fractionSize + 1 =>
    if currency.numberOfDecimalPlaces < fractionSize + 1 ∧ strAmount.getLast? = some '0' then
      dropFractionZeros strAmount.dropLast fractionSize
    else (strAmount, fractionSize + 1)

/-- The end of `parseAmount`, once the point is out: a nonempty text of digits, padded with zeros
to the number of places and read as a `uint64_t`. -/
def readPadded (strAmount : List Char) (fractionSize : Nat) : Option UInt64 :=
  if strAmount.isEmpty then none
  else if !strAmount.all Char.isDigit then none
  else
    let strAmount :=
      if fractionSize < currency.numberOfDecimalPlaces then
        strAmount ++ List.replicate (currency.numberOfDecimalPlaces - fractionSize) '0'
      else strAmount
    Common.fromString strAmount

/-- `Currency::parseAmount(str, amount)`: `none` where the source returns `false`. -/
def parseAmount (str : List Char) : Option UInt64 :=
  let strAmount := trim str
  match strAmount.idxOf? '.' with
  | some pointIndex =>
    let (strAmount, fractionSize) :=
      currency.dropFractionZeros strAmount (strAmount.length - pointIndex - 1)
    if currency.numberOfDecimalPlaces < fractionSize then none
    else currency.readPadded (strAmount.eraseIdx pointIndex) fractionSize
  | none => currency.readPadded strAmount 0

/-! ### The loop and the end of `parseAmount` -/

/-- The loop drops zeros off the fraction and nothing else: it returns the text up to some `k`
digits of the fraction, and all it dropped are zeros. -/
theorem dropFractionZeros_spec (head post : List Char) :
    ∃ k ≤ post.length,
      currency.dropFractionZeros (head ++ post) post.length = (head ++ post.take k, k) ∧
        ∀ c ∈ post.drop k, c = '0' := by
  -- The loop looks at the last digit, so the induction takes the fraction apart from its end.
  induction post using List.reverseRecOn with
  | nil => exact ⟨0, Nat.le_refl _, by simp [dropFractionZeros], by simp⟩
  | append_singleton init last ih =>
    rw [List.length_append, List.length_singleton, dropFractionZeros]
    by_cases dropped : currency.numberOfDecimalPlaces < init.length + 1 ∧
        (head ++ (init ++ [last])).getLast? = some '0'
    · -- The last digit is a zero and goes; the loop carries on with the rest.
      have zero : last = '0' := by simpa using dropped.2
      obtain ⟨k, bound, result, zeros⟩ := ih
      rw [if_pos dropped, ← List.append_assoc, List.dropLast_concat, result]
      refine ⟨k, by omega, by rw [List.take_append_of_le_length bound], fun c member => ?_⟩
      rw [List.drop_append_of_le_length bound, List.mem_append, List.mem_singleton] at member
      rcases member with earlier | rfl
      · exact zeros c earlier
      · exact zero
    · rw [if_neg dropped]
      exact ⟨init.length + 1, Nat.le_refl _, by rw [List.take_of_length_le (by simp)], by simp⟩

/-- When every digit past the number of places is a zero, the loop cuts the fraction down to the
number of places, or leaves it when it is no longer. -/
theorem dropFractionZeros_of_zeros (head post : List Char)
    (zeros : ∀ c ∈ post.drop currency.numberOfDecimalPlaces, c = '0') :
    currency.dropFractionZeros (head ++ post) post.length =
      (head ++ post.take (min post.length currency.numberOfDecimalPlaces),
        min post.length currency.numberOfDecimalPlaces) := by
  induction post using List.reverseRecOn with
  | nil => simp [dropFractionZeros]
  | append_singleton init last ih =>
    rw [List.length_append, List.length_singleton, dropFractionZeros]
    by_cases long : currency.numberOfDecimalPlaces < init.length + 1
    · -- The last digit lies past the places, so it is a zero and goes.
      have zero : last = '0' := zeros last (by
        rw [List.drop_append_of_le_length (by omega)]
        exact List.mem_append_right _ (List.mem_singleton_self _))
      have rest : ∀ c ∈ init.drop currency.numberOfDecimalPlaces, c = '0' := fun c member =>
        zeros c (by
          rw [List.drop_append_of_le_length (by omega)]
          exact List.mem_append_left _ member)
      rw [if_pos ⟨long, by simp [zero]⟩, ← List.append_assoc, List.dropLast_concat, ih rest,
        Nat.min_eq_right (by omega), Nat.min_eq_right (by omega),
        List.take_append_of_le_length (by omega)]
    · rw [if_neg fun both => long both.1, Nat.min_eq_left (by omega),
        List.take_of_length_le (by simp)]

/-- The end of `parseAmount` reads a nonempty text of digits, padded to the places, whenever its
value fits in 64 bits. -/
theorem readPadded_eq_some_iff (strAmount : List Char) (fractionSize : Nat) (amount : UInt64) :
    currency.readPadded strAmount fractionSize = some amount ↔
      strAmount ≠ [] ∧ (∀ c ∈ strAmount, c.isDigit) ∧
        Nat.ofDigitChars 10 strAmount 0 * 10 ^ (currency.numberOfDecimalPlaces - fractionSize) <
          2 ^ 64 ∧
        amount.toNat =
          Nat.ofDigitChars 10 strAmount 0 * 10 ^ (currency.numberOfDecimalPlaces - fractionSize) := by
  unfold readPadded
  by_cases empty : strAmount = []
  · simp [empty]
  by_cases digits : ∀ c ∈ strAmount, c.isDigit
  · -- Padding appends as many zeros as places are missing, which scales the value.
    have padded : (if fractionSize < currency.numberOfDecimalPlaces then
          strAmount ++ List.replicate (currency.numberOfDecimalPlaces - fractionSize) '0'
        else strAmount) =
        strAmount ++ List.replicate (currency.numberOfDecimalPlaces - fractionSize) '0' := by
      split
      · rfl
      · rw [Nat.sub_eq_zero_of_le (by omega), List.replicate_zero, List.append_nil]
    have paddedDigits : ∀ c ∈ strAmount ++
        List.replicate (currency.numberOfDecimalPlaces - fractionSize) '0', c.isDigit := by
      intro c member
      rcases List.mem_append.mp member with own | zero
      · exact digits c own
      · rw [List.eq_of_mem_replicate zero]
        rfl
    rw [if_neg (by simpa using empty), if_neg (by simpa using digits), padded,
      Common.fromString_of_digits (by simp [empty]) paddedDigits, ofDigitChars_append_zeros]
    split
    · rename_i fits
      simp only [Option.some.injEq, ne_eq, empty, not_false_eq_true, true_and]
      constructor
      · rintro rfl
        exact ⟨digits, fits, by rw [UInt64.toNat_ofNat', Nat.mod_eq_of_lt fits]⟩
      · rintro ⟨-, -, same⟩
        rw [← same, UInt64.ofNat_toNat]
    · rename_i tooLarge
      simp only [reduceCtorEq, false_iff]
      exact fun ⟨_, _, fits, _⟩ => tooLarge fits
  · simp [empty, digits]

/-- A text with no point is read as digits alone. -/
theorem parseAmount_of_not_mem {str : List Char} (absent : '.' ∉ trim str) :
    currency.parseAmount str = currency.readPadded (trim str) 0 := by
  rw [parseAmount, List.idxOf?_eq_none_iff.mpr absent]

/-- A text with a point is read without it, once the loop has cut the fraction down to `k`
digits, and refused when they are still more than the places. -/
theorem parseAmount_of_loop {str whole post : List Char} {k : Nat}
    (split : trim str = whole ++ '.' :: post) (absent : '.' ∉ whole)
    (loop : currency.dropFractionZeros (whole ++ ['.'] ++ post) post.length =
      (whole ++ ['.'] ++ post.take k, k)) :
    currency.parseAmount str =
      if currency.numberOfDecimalPlaces < k then none
      else currency.readPadded (whole ++ post.take k) k := by
  have size : (whole ++ '.' :: post).length - whole.length - 1 = post.length := by
    simp only [List.length_append, List.length_cons]
    omega
  simp only [List.append_assoc, List.singleton_append] at loop
  rw [parseAmount, split, List.idxOf?_append_cons post absent]
  dsimp only
  rw [size, loop, List.eraseIdx_append_of_length_le (Nat.le_refl _), Nat.sub_self,
    List.eraseIdx_cons_zero]

end Currency

/-- A text of an amount with `places` decimal places, and its value in units of `10^-places`:
digits alone, or digits around one point with at least one digit in all and at most `places`
digits after the point once its trailing zeros go. -/
inductive AmountText (places : Nat) : List Char → Nat → Prop
  | whole {digits : List Char} : digits ≠ [] → (∀ c ∈ digits, c.isDigit) →
      AmountText places digits (Nat.ofDigitChars 10 digits 0 * 10 ^ places)
  | point {whole fraction zeros : List Char} : (∀ c ∈ whole ++ fraction, c.isDigit) →
      (∀ c ∈ zeros, c = '0') → whole ++ fraction ++ zeros ≠ [] → fraction.length ≤ places →
      AmountText places (whole ++ '.' :: (fraction ++ zeros))
        (Nat.ofDigitChars 10 (whole ++ fraction) 0 * 10 ^ (places - fraction.length))

namespace Currency

variable (currency : Currency)

/-- With at least one decimal place, `parseAmount` reads exactly the amount texts whose value fits
in 64 bits, and reads each as its value. -/
theorem parseAmount_eq_some_iff (positive : 0 < currency.numberOfDecimalPlaces) (str : List Char)
    (amount : UInt64) :
    currency.parseAmount str = some amount ↔
      ∃ value, AmountText currency.numberOfDecimalPlaces (trim str) value ∧ value < 2 ^ 64 ∧
        amount.toNat = value := by
  constructor
  · intro parsed
    cases found : (trim str).idxOf? '.' with
    | none =>
      -- No point: the text is the digits of the whole amount.
      rw [parseAmount_of_not_mem currency (List.idxOf?_eq_none_iff.mp found),
        readPadded_eq_some_iff, Nat.sub_zero] at parsed
      obtain ⟨nonempty, digits, fits, value⟩ := parsed
      exact ⟨_, .whole nonempty digits, fits, value⟩
    | some pointIndex =>
      -- A point: what the loop kept of the fraction are the places, the rest are zeros.
      obtain ⟨split, absent⟩ := List.eq_append_cons_of_idxOf? found
      set whole := (trim str).take pointIndex
      set post := (trim str).drop (pointIndex + 1)
      obtain ⟨k, bound, loop, zeros⟩ := currency.dropFractionZeros_spec (whole ++ ['.']) post
      rw [parseAmount_of_loop currency split absent loop] at parsed
      split at parsed
      · contradiction
      rename_i short
      rw [readPadded_eq_some_iff] at parsed
      obtain ⟨nonempty, digits, fits, value⟩ := parsed
      have kept : (post.take k).length = k := List.length_take_of_le bound
      have someDigit : whole ++ post.take k ++ post.drop k ≠ [] := fun empty =>
        nonempty (List.append_eq_nil_iff.mp empty).1
      have text := @AmountText.point currency.numberOfDecimalPlaces whole (post.take k)
        (post.drop k) digits zeros someDigit (by omega)
      rw [List.take_append_drop, ← split, kept] at text
      exact ⟨_, text, fits, value⟩
  · rintro ⟨value, text, fits, same⟩
    generalize named : trim str = written at text
    cases text with
    | whole nonempty digits =>
      have absent : '.' ∉ written := fun member => absurd (digits '.' member) (by decide)
      rw [parseAmount_of_not_mem currency (by rw [named]; exact absent), named, readPadded_eq_some_iff,
        Nat.sub_zero]
      exact ⟨nonempty, digits, fits, same⟩
    | @point whole fraction zeros digits allZeros nonempty short =>
      -- The loop cuts the fraction down to the places or leaves it, and keeps at least the
      -- digits that are not trailing zeros.
      have absent : '.' ∉ whole := fun member =>
        absurd (digits '.' (List.mem_append_left _ member)) (by decide)
      have beyond : ∀ c ∈ (fraction ++ zeros).drop currency.numberOfDecimalPlaces, c = '0' := by
        intro c member
        rw [List.drop_append, List.drop_eq_nil_of_le short, List.nil_append] at member
        exact allZeros c (List.mem_of_mem_drop member)
      have loop := currency.dropFractionZeros_of_zeros (whole ++ ['.']) (fraction ++ zeros) beyond
      set k := min (fraction ++ zeros).length currency.numberOfDecimalPlaces with kDef
      have lower : fraction.length ≤ k := by
        rw [kDef, List.length_append]
        omega
      have upper : k ≤ currency.numberOfDecimalPlaces := Nat.min_le_right _ _
      have zerosTaken : zeros.take (k - fraction.length) =
          List.replicate (k - fraction.length) '0' :=
        List.eq_replicate_iff.mpr ⟨by rw [List.length_take, kDef, List.length_append]; omega,
          fun c member => allZeros c (List.mem_of_mem_take member)⟩
      have padded : (fraction ++ zeros).take k =
          fraction ++ List.replicate (k - fraction.length) '0' := by
        rw [List.take_append, List.take_of_length_le lower, zerosTaken]
      rw [parseAmount_of_loop currency named absent loop, if_neg (by omega),
        readPadded_eq_some_iff, padded, ← List.append_assoc, ofDigitChars_append_zeros,
        Nat.mul_assoc, ← Nat.pow_add, show k - fraction.length +
          (currency.numberOfDecimalPlaces - k) =
          currency.numberOfDecimalPlaces - fraction.length by omega]
      refine ⟨fun empty => ?_, fun c member => ?_, fits, same⟩
      · -- With a place to fill, the loop keeps a digit unless there is none.
        rw [List.append_eq_nil_iff, List.append_eq_nil_iff, List.replicate_eq_nil_iff] at empty
        obtain ⟨⟨noWhole, noFraction⟩, noPadding⟩ := empty
        have noZeros : zeros.length = 0 := by
          rw [kDef, noFraction, List.nil_append, List.length_nil, Nat.sub_zero] at noPadding
          omega
        exact nonempty (by simp [noWhole, noFraction, List.length_eq_zero_iff.mp noZeros])
      · rcases List.mem_append.mp member with own | zero
        · exact digits c own
        · rw [List.eq_of_mem_replicate zero]
          rfl

/-- Blanks around the text and surplus zeros of the fraction are dropped. -/
example : defaultCurrency.parseAmount [' ', '1', '.', '5', '0', '0', '0', '0', '0', '0', '0', '0', '0',
    '\t'] = some 150000000 := by
  decide

/-- What `formatAmount` writes: digits, a point and exactly `numberOfDecimalPlaces` digits, at least
one in front of the point, worth the amount. -/
theorem formatAmount_eq (amount : UInt64) :
    ∃ whole fraction, currency.formatAmount amount = whole ++ '.' :: fraction ∧ whole ≠ [] ∧
      fraction.length = currency.numberOfDecimalPlaces ∧ (∀ c ∈ whole ++ fraction, c.isDigit) ∧
      Nat.ofDigitChars 10 (whole ++ fraction) 0 = amount.toNat := by
  set places := currency.numberOfDecimalPlaces
  set written := Nat.toDigits 10 amount.toNat
  -- Padding puts as many zeros in front as digits are missing, none when none are.
  set padded := List.replicate (places + 1 - written.length) '0' ++ written with paddedDef
  have padding : (if written.length < places + 1 then
        List.replicate (places + 1 - written.length) '0' ++ written else written) = padded := by
    split
    · rfl
    · rw [paddedDef, Nat.sub_eq_zero_of_le (by omega), List.replicate_zero, List.nil_append]
  have long : places + 1 ≤ padded.length := by
    rw [paddedDef, List.length_append, List.length_replicate]
    omega
  refine ⟨padded.take (padded.length - places), padded.drop (padded.length - places), ?_, ?_, ?_,
    ?_, ?_⟩
  · rw [formatAmount, padding]
  · rw [ne_eq, List.take_eq_nil_iff]
    rintro (none | empty)
    · omega
    · rw [empty, List.length_nil] at long
      omega
  · rw [List.length_drop]
    omega
  · intro c member
    rw [List.take_append_drop, paddedDef] at member
    rcases List.mem_append.mp member with zero | digit
    · rw [List.eq_of_mem_replicate zero]
      rfl
    · exact Nat.isDigit_of_mem_toDigits (by decide) (by decide) digit
  · rw [List.take_append_drop, paddedDef, Nat.ofDigitChars_append, Nat.ofDigitChars_replicate_zero,
      Nat.mul_zero, Nat.ofDigitChars_ten_toDigits]

/-- `parseAmount` reads back every amount `formatAmount` writes, whatever the number of places. -/
theorem parseAmount_formatAmount (amount : UInt64) :
    currency.parseAmount (currency.formatAmount amount) = some amount := by
  obtain ⟨whole, fraction, written, nonempty, places, digits, value⟩ :=
    currency.formatAmount_eq amount
  have noSpace : ∀ c ∈ currency.formatAmount amount, isSpace c = false := by
    intro c member
    rw [written, List.mem_append, List.mem_cons] at member
    rcases member with front | rfl | back
    · exact isSpace_of_isDigit (digits c (List.mem_append_left _ front))
    · rfl
    · exact isSpace_of_isDigit (digits c (List.mem_append_right _ back))
  have absent : '.' ∉ whole := fun member =>
    absurd (digits '.' (List.mem_append_left _ member)) (by decide)
  -- The fraction has exactly the places, so the loop leaves it whole.
  have loop := currency.dropFractionZeros_of_zeros (whole ++ ['.']) fraction
    (by simp [← places])
  have kept : min fraction.length currency.numberOfDecimalPlaces = currency.numberOfDecimalPlaces := by
    omega
  rw [parseAmount_of_loop currency ((trim_of_no_space noSpace).trans written) absent loop, kept,
    if_neg (Nat.lt_irrefl _), List.take_of_length_le (by omega), readPadded_eq_some_iff,
    Nat.sub_self, Nat.pow_zero, Nat.mul_one, value]
  exact ⟨fun empty => nonempty (List.append_eq_nil_iff.mp empty).1, digits, amount.toNat_lt, rfl⟩

end Currency

/-- With at least one decimal place, amount texts are read exactly: as their value, when it fits in
64 bits, and refused otherwise; and every currency reads back the amounts it writes. -/
theorem parse_amount_exact :
    ∀ currency : Currency,
      (0 < currency.numberOfDecimalPlaces → ∀ str amount, currency.parseAmount str = some amount ↔
        ∃ value, AmountText currency.numberOfDecimalPlaces (trim str) value ∧ value < 2 ^ 64 ∧
          amount.toNat = value) ∧
      ∀ amount, currency.parseAmount (currency.formatAmount amount) = some amount :=
  fun currency => ⟨currency.parseAmount_eq_some_iff, currency.parseAmount_formatAmount⟩

/-- The default currency has eight places, so its amount texts are read exactly. -/
theorem parse_amount_exact_on_default_currency :
    0 < defaultCurrency.numberOfDecimalPlaces ∧
      (∀ str amount, defaultCurrency.parseAmount str = some amount ↔
        ∃ value, AmountText defaultCurrency.numberOfDecimalPlaces (trim str) value ∧
          value < 2 ^ 64 ∧ amount.toNat = value) := by
  have positive : 0 < defaultCurrency.numberOfDecimalPlaces := by decide
  exact ⟨positive, (parse_amount_exact defaultCurrency).1 positive⟩

/-- With no decimal places, the text `.0` is an amount text worth nothing, yet `parseAmount`
refuses it: the loop drops its only digit, which leaves nothing to read. -/
theorem parseAmount_refuses_fraction_of_zeros :
    let currency : Currency := { defaultCurrency with numberOfDecimalPlaces := 0 }
    AmountText currency.numberOfDecimalPlaces (trim ['.', '0']) 0 ∧
      currency.parseAmount ['.', '0'] = none := by
  intro currency
  have text := @AmountText.point 0 [] [] ['0'] (by simp) (by simp) (by simp) (Nat.le_refl _)
  refine ⟨?_, by decide⟩
  rw [trim_of_no_space (by simp [isSpace])]
  simpa using text

end CryptoNote
