import Qwertycoin.Common.JsonValue

/-!
Printing and parsing of `JsonValue` are inverse on the values with no `REAL` whose strings and
keys are escaped (`fromString_toString`), and every value `fromString` returns has its strings
and keys escaped and its keys in order, so that printing a parsed value and parsing it again gives
the same value when it holds no `REAL` (`fromString_toString_fromString`).

The proof reads the text a value is written as token by token, with what follows the value left
over. A number is the one token whose end the reader finds by looking at the next character, so
what follows a value must not go on with digits or a dot (`Stops`).
-/

namespace Common

/-- What follows a value in written text: neither a digit nor a dot, which would go on with a
number. -/
def Stops (rest : List Char) : Prop := ∀ c ∈ rest.head?, c.isDigit = false ∧ c ≠ '.'

namespace JsonValue

variable {Real : Type}

mutual

/-- The fuel the reader spends on the text `write` gives for a value: one unit for each call of a
reader. -/
def size : JsonValue Real → Nat
  | .array elements => 2 + sizeElements elements
  | .object members => 2 + sizeMembers members
  | _ => 1

/-- The fuel the loop of `readArray` spends on the elements. -/
def sizeElements : List (JsonValue Real) → Nat
  | [] => 0
  | element :: more => 1 + element.size + sizeElements more

/-- The fuel the loop of `readObject` spends on the entries. -/
def sizeMembers : List (List Char × JsonValue Real) → Nat
  | [] => 0
  | (_, member) :: more => 1 + member.size + sizeMembers more

end

/-- What every value the reader returns has at each node: the strings and keys escaped, and the
keys in order. -/
def readable (node : JsonValue Real) : Bool := node.escapedTexts && node.sortedKeys

/-- What the round trip needs at each node: no `REAL`, and what the reader gives. -/
def printable (node : JsonValue Real) : Bool := !node.isReal && node.readable

end JsonValue

/-! ### Properties of every node -/

namespace JsonValue

variable {Real : Type} (p q : JsonValue Real → Bool)

theorem allElements_iff :
    ∀ elements : List (JsonValue Real), allElements p elements = true ↔ ∀ v ∈ elements, v.all p = true
  | [] => by simp [allElements]
  | element :: more => by simp [allElements, allElements_iff more]

theorem allMembers_iff : ∀ members : List (List Char × JsonValue Real),
    allMembers p members = true ↔ ∀ entry ∈ members, entry.2.all p = true
  | [] => by simp [allMembers]
  | (key, member) :: more => by simp [allMembers, allMembers_iff more]

mutual

/-- Two properties hold at every node when each does. -/
theorem all_and : ∀ v : JsonValue Real, v.all (fun node => p node && q node) = (v.all p && v.all q)
  | .array elements => by
    rw [all, all, all, allElements_and elements]
    cases p (.array elements) <;> cases q (.array elements) <;> simp
  | .object members => by
    rw [all, all, all, allMembers_and members]
    cases p (.object members) <;> cases q (.object members) <;> simp
  | .bool _ | .integer _ | .nil | .real _ | .string _ => rfl

theorem allElements_and : ∀ elements : List (JsonValue Real),
    allElements (fun node => p node && q node) elements = (allElements p elements && allElements q elements)
  | [] => rfl
  | element :: more => by
    rw [allElements, allElements, allElements, all_and element, allElements_and more]
    cases element.all p <;> cases element.all q <;> simp

theorem allMembers_and : ∀ members : List (List Char × JsonValue Real),
    allMembers (fun node => p node && q node) members = (allMembers p members && allMembers q members)
  | [] => rfl
  | (_, member) :: more => by
    rw [allMembers, allMembers, allMembers, all_and member, allMembers_and more]
    cases member.all p <;> cases member.all q <;> simp

end

end JsonValue

/-! ### Tokens -/

theorem isspace_of_isDigit {c : Char} (digit : c.isDigit = true) : isspace c = false := by
  have bounds := Char.isDigit_iff_toNat.mp digit
  have blank : (' ' : Char).toNat = 32 := rfl
  simp only [isspace, Bool.or_eq_false_iff, beq_eq_false_iff_ne, Bool.and_eq_false_iff,
    decide_eq_false_iff_not]
  refine ⟨fun same => ?_, Or.inr ?_⟩
  · rw [same] at bounds
    exact absurd bounds (by decide)
  · simp only [Char.reduceToNat] at bounds
    omega

theorem readNonWsChar_cons {c : Char} (notBlank : isspace c = false) (rest : List Char) :
    readNonWsChar (c :: rest) = some (c, rest) := by
  rw [readNonWsChar, notBlank, if_neg Bool.false_ne_true]

theorem readStringToken_quote (rest : List Char) : readStringToken (quote :: rest) = some ([], rest) := by
  cases rest <;> simp [readStringToken]

theorem readStringToken_escape (e : Char) (more : List Char) :
    readStringToken (backslash :: e :: more) =
      (readStringToken more).map fun (value, after) => (backslash :: e :: value, after) := by
  simp [readStringToken, show backslash ≠ quote by decide]

theorem readStringToken_plain {c : Char} (notQuote : c ≠ quote) (notBackslash : c ≠ backslash)
    (rest : List Char) :
    readStringToken (c :: rest) = (readStringToken rest).map fun (value, after) => (c :: value, after) := by
  cases rest <;> simp [readStringToken, notQuote, notBackslash]

theorem escaped_escape (e : Char) (more : List Char) : escaped (backslash :: e :: more) = escaped more := by
  simp [escaped]

theorem escaped_plain {c : Char} (notBackslash : c ≠ backslash) (rest : List Char) :
    escaped (c :: rest) = (decide (c ≠ quote) && escaped rest) := by
  cases rest <;> simp [escaped, notBackslash]

/-- An escaped text followed by a quote reads back as itself, with what follows the quote left. -/
theorem readStringToken_append :
    ∀ {s : List Char}, escaped s = true → ∀ rest, readStringToken (s ++ quote :: rest) = some (s, rest)
  | [], _, rest => readStringToken_quote rest
  | c :: more, fits, rest => by
    by_cases isBackslash : c = backslash
    · -- An escape: the backslash and the character after it go in as they are.
      subst isBackslash
      match more, fits with
      | [], fits => exact absurd fits (by decide)
      | e :: after, fits =>
        rw [escaped_escape] at fits
        rw [List.cons_append, List.cons_append, readStringToken_escape,
          readStringToken_append fits rest, Option.map_some]
    · -- Any other character: it is not a quote either, so it goes in alone.
      rw [escaped_plain isBackslash, Bool.and_eq_true, decide_eq_true_iff] at fits
      rw [List.cons_append, readStringToken_plain fits.1 isBackslash,
        readStringToken_append fits.2 rest, Option.map_some]

theorem readLiteral_append (literal rest : List Char) :
    readLiteral literal (literal ++ rest) = some rest := by
  simp [readLiteral]

/-- The number loop takes a run of digits and stops where the text goes on with neither a digit
nor a dot. -/
theorem readNumberChars_append {rest : List Char} (stops : Stops rest) :
    ∀ {digits : List Char}, (∀ d ∈ digits, d.isDigit = true) →
      readNumberChars (digits ++ rest) = (digits, rest)
  | [], _ => by
    match rest, stops with
    | [], _ => rfl
    | c :: after, stops =>
      obtain ⟨notDigit, notDot⟩ := stops c rfl
      rw [List.nil_append, readNumberChars, notDigit, Bool.false_or, decide_eq_false notDot]
      rfl
  | d :: more, digits => by
    rw [List.cons_append, readNumberChars, digits d List.mem_cons_self, Bool.true_or, if_pos rfl,
      readNumberChars_append stops fun e member => digits e (List.mem_cons_of_mem d member)]

/-! ### Integers -/

/-- The decimal digits of a positive number do not start with a zero. -/
theorem toDigits_ne_zero_cons {n : Nat} (pos : 0 < n) (more : List Char) :
    Nat.toDigits 10 n ≠ '0' :: more := by
  induction n using Nat.strong_induction_on generalizing more with
  | _ n ih =>
    by_cases small : n < 10
    · -- One digit, which is not zero.
      rw [Nat.toDigits_of_lt_base small]
      intro same
      exact absurd (Nat.digitChar_eq_zero.mp (List.cons.inj same).1) (by omega)
    · -- The first digits are those of `n / 10`, which is positive.
      rw [Nat.toDigits_of_base_le (by omega) (by omega)]
      obtain ⟨d, ds, front⟩ := List.exists_cons_of_ne_nil (@Nat.toDigits_ne_nil (n / 10) 10)
      rw [front, List.cons_append]
      intro same
      exact ih (n / 10) (by omega) (by omega) ds (by rw [front, (List.cons.inj same).1])

theorem isDigit_of_mem_toDigits {n : Nat} {d : Char} (member : d ∈ Nat.toDigits 10 n) :
    d.isDigit = true :=
  Nat.isDigit_of_mem_toDigits (by decide) (by decide) member

theorem ne_dot_of_isDigit {d : Char} (digit : d.isDigit = true) : d ≠ '.' := by
  rintro rfl
  exact absurd digit (by decide)

/-- What the reader makes of a minus, or of nothing, in front of the digits of `n`. -/
theorem parseInteger_toDigits (n : Nat) :
    parseInteger (Nat.toDigits 10 n) = Int64.ofIntClamp n ∧
      (0 < n → parseInteger ('-' :: Nat.toDigits 10 n) = Int64.ofIntClamp (-(n : Int))) := by
  obtain ⟨d, ds, front⟩ := List.exists_cons_of_ne_nil (@Nat.toDigits_ne_nil n 10)
  have notMinus : d ≠ '-' := by
    intro same
    have digit := isDigit_of_mem_toDigits (show d ∈ Nat.toDigits 10 n by rw [front]; exact List.mem_cons_self)
    rw [same] at digit
    exact absurd digit (by decide)
  refine ⟨?_, fun _ => ?_⟩
  · rw [front, parseInteger.eq_2 _ (by simp [notMinus]), ← front, Nat.ofDigitChars_ten_toDigits]
  · rw [parseInteger, if_neg Nat.toDigits_ne_nil, Nat.ofDigitChars_ten_toDigits]

section Read

variable {Real : Type} (parseReal : List Char → Real)

theorem readValue_number {c : Char} (start : c = '-' ∨ c.isDigit = true) (fuel : Nat)
    (rest : List Char) : readValue parseReal (fuel + 1) (c :: rest) = readNumber parseReal c rest := by
  rcases start with rfl | digit
  · rfl
  · -- A digit is neither blank nor the first character of an array or a literal.
    have notOpen : c ≠ '[' ∧ c ≠ 't' ∧ c ≠ 'f' := by
      refine ⟨?_, ?_, ?_⟩ <;> (rintro rfl; exact absurd digit (by decide))
    simp [readValue, readNonWsChar_cons (isspace_of_isDigit digit), notOpen, digit]

theorem readValue_array (fuel : Nat) (rest : List Char) :
    readValue parseReal (fuel + 1) ('[' :: rest) = readArray parseReal fuel rest := rfl

theorem readValue_object (fuel : Nat) (rest : List Char) :
    readValue parseReal (fuel + 1) ('{' :: rest) = readObject parseReal fuel rest := rfl

theorem readValue_string (fuel : Nat) (rest : List Char) :
    readValue parseReal (fuel + 1) (quote :: rest) = readString rest := rfl

/-- The array reader puts back the character after the bracket when it does not close the array. -/
theorem readArray_first {c : Char} (notBlank : isspace c = false) (notClose : c ≠ ']') (fuel : Nat)
    (rest : List Char) :
    readArray parseReal (fuel + 1) (c :: rest) = readElements parseReal fuel [] (c :: rest) := by
  simp [readArray, readNonWsChar_cons notBlank, notClose]

theorem readObject_quote (fuel : Nat) (rest : List Char) :
    readObject parseReal (fuel + 1) (quote :: rest) = readMembers parseReal fuel [] quote rest := rfl

/-- An integer as `operator<<` writes it reads back as itself. -/
theorem readValue_writeInteger (value : Int64) (fuel : Nat) {rest : List Char} (stops : Stops rest) :
    readValue parseReal (fuel + 1) (writeInteger value ++ rest) = some (.integer value, rest) := by
  have digits : ∀ d ∈ Nat.toDigits 10 value.toInt.natAbs, d.isDigit = true :=
    fun d member => isDigit_of_mem_toDigits member
  have noDot : (Nat.toDigits 10 value.toInt.natAbs).count '.' = 0 :=
    List.count_eq_zero.mpr fun member => ne_dot_of_isDigit (digits _ member) rfl
  obtain ⟨parsed, parsedNegative⟩ := parseInteger_toDigits value.toInt.natAbs
  unfold writeInteger
  split
  · -- Negative: a minus, then digits that do not start with a zero.
    rename_i negative
    have noZero : (Nat.toDigits 10 value.toInt.natAbs).head? ≠ some '0' := fun first => by
      obtain ⟨more, front⟩ := List.head?_eq_some_iff.mp first
      exact toDigits_ne_zero_cons (by omega) more front
    have magnitude : -(value.toInt.natAbs : Int) = value.toInt := by omega
    rw [List.cons_append, readValue_number parseReal (Or.inl rfl), readNumber,
      readNumberChars_append stops digits]
    simp only [noDot, gt_iff_lt, Nat.lt_irrefl, if_false, noZero, parsedNegative (by omega),
      magnitude, Int64.ofIntClamp_toInt]
    simp
  · -- Not negative: digits, starting with a zero only when there is no other.
    rename_i nonnegative
    obtain ⟨d, ds, front⟩ := List.exists_cons_of_ne_nil (@Nat.toDigits_ne_nil value.toInt.natAbs 10)
    have digit : d.isDigit = true := digits d (by rw [front]; exact List.mem_cons_self)
    have notMinus : d ≠ '-' := by
      rintro rfl
      exact absurd digit (by decide)
    have single : d = '0' → ds = [] := by
      rintro rfl
      by_cases zero : value.toInt.natAbs = 0
      · rw [zero, Nat.toDigits_zero] at front
        exact (List.cons.inj front).2.symm
      · exact absurd front (toDigits_ne_zero_cons (by omega) ds)
    have magnitude : (value.toInt.natAbs : Int) = value.toInt := by omega
    have dsDigits : ∀ e ∈ ds, e.isDigit = true :=
      fun e member => digits e (by rw [front]; exact List.mem_cons_of_mem d member)
    have dsNoDot : ds.count '.' = 0 := by rw [front, List.count_cons] at noDot; omega
    rw [front, List.cons_append, readValue_number parseReal (Or.inr digit), readNumber,
      readNumberChars_append stops dsDigits]
    rw [front] at parsed
    simp only [dsNoDot, gt_iff_lt, Nat.lt_irrefl, if_false, parsed, magnitude,
      Int64.ofIntClamp_toInt]
    by_cases zero : d = '0'
    · simp [single zero]
    · simp [zero, notMinus]

end Read

/-! ### The written text -/

section Written

variable {Real : Type} (formatFixed : Real → List Char)

open JsonValue in
mutual

/-- The reader needs no more fuel than twice the characters of the text, and one. -/
theorem size_le_length : ∀ v : JsonValue Real, v.size ≤ 2 * (write formatFixed v).length + 1
  | .array [] => by simp [size, sizeElements, write, writeElements]
  | .array (element :: more) => by
    have first := size_le_length element
    have later := sizeElements_le_length more
    simp only [size, sizeElements, write, writeElements, List.length_cons, List.length_append]
      at first later ⊢
    omega
  | .object [] => by simp [size, sizeMembers, write, writeMembers]
  | .object ((key, member) :: more) => by
    have first := size_le_length member
    have later := sizeMembers_le_length more
    simp only [size, sizeMembers, write, writeMembers, List.length_cons, List.length_append]
      at first later ⊢
    omega
  | .bool _ | .integer _ | .nil | .real _ | .string _ => by simp [size]

theorem sizeElements_le_length :
    ∀ elements : List (JsonValue Real),
      sizeElements elements ≤ 2 * (writeMoreElements formatFixed elements).length
  | [] => by simp [sizeElements]
  | element :: more => by
    have first := size_le_length element
    have later := sizeElements_le_length more
    simp only [sizeElements, writeMoreElements, List.length_cons, List.length_append] at later ⊢
    omega

theorem sizeMembers_le_length :
    ∀ members : List (List Char × JsonValue Real),
      sizeMembers members ≤ 2 * (writeMoreMembers formatFixed members).length
  | [] => by simp [sizeMembers]
  | (key, member) :: more => by
    have first := size_le_length member
    have later := sizeMembers_le_length more
    simp only [sizeMembers, writeMoreMembers, List.length_cons, List.length_append] at later ⊢
    omega

end

/-- A value with no `REAL` is written starting with a character that is not blank and closes
nothing. -/
theorem write_eq_cons : ∀ {v : JsonValue Real}, v.isReal = false →
    ∃ c more, write formatFixed v = c :: more ∧ isspace c = false ∧ c ≠ ']' ∧ c ≠ '}'
  | .array _, _ => ⟨_, _, rfl, rfl, by decide, by decide⟩
  | .object _, _ => ⟨_, _, rfl, rfl, by decide, by decide⟩
  | .bool true, _ => ⟨_, _, rfl, rfl, by decide, by decide⟩
  | .bool false, _ => ⟨_, _, rfl, rfl, by decide, by decide⟩
  | .nil, _ => ⟨_, _, rfl, rfl, by decide, by decide⟩
  | .string _, _ => ⟨_, _, rfl, rfl, by decide, by decide⟩
  | .integer value, _ => by
    unfold write writeInteger
    split
    · exact ⟨_, _, rfl, rfl, by decide, by decide⟩
    · -- The first of the digits.
      obtain ⟨d, ds, front⟩ := List.exists_cons_of_ne_nil (@Nat.toDigits_ne_nil value.toInt.natAbs 10)
      have digit := isDigit_of_mem_toDigits (show d ∈ Nat.toDigits 10 value.toInt.natAbs by
        rw [front]; exact List.mem_cons_self)
      refine ⟨d, ds, front, isspace_of_isDigit digit, ?_, ?_⟩ <;>
        (rintro rfl; exact absurd digit (by decide))

end Written

/-! ### Reading back what was written -/

section RoundTrip

variable {Real : Type} (parseReal : List Char → Real) (formatFixed : Real → List Char)

theorem stops_of_head {c : Char} (notDigit : c.isDigit = false) (notDot : c ≠ '.')
    (rest : List Char) : Stops (c :: rest) := by
  intro d first
  cases first
  exact ⟨notDigit, notDot⟩

/-- The text after a value in an array goes on with a comma or the closing bracket. -/
theorem stops_moreElements (more : List (JsonValue Real)) (rest : List Char) :
    Stops (writeMoreElements formatFixed more ++ ']' :: rest) := by
  cases more <;> exact stops_of_head (by decide) (by decide) _

/-- The text after a value in an object goes on with a comma or the closing brace. -/
theorem stops_moreMembers (more : List (List Char × JsonValue Real)) (rest : List Char) :
    Stops (writeMoreMembers formatFixed more ++ '}' :: rest) := by
  cases more <;> exact stops_of_head (by decide) (by decide) _

open JsonValue in
mutual

/-- A value with no `REAL`, its strings and keys escaped and its keys in order, reads back from
the text `operator<<` writes, with what follows left over. -/
theorem readValue_write : ∀ (v : JsonValue Real) (fuel : Nat) (rest : List Char), v.size ≤ fuel →
    v.all printable = true → Stops rest →
      readValue parseReal fuel (write formatFixed v ++ rest) = some (v, rest)
  | .array [], fuel, rest, enough, _, _ => by
    obtain ⟨k, rfl⟩ : ∃ k, fuel = k + 2 := ⟨fuel - 2, by simp [size] at enough; omega⟩
    rfl
  | .array (element :: more), fuel, rest, enough, fits, _ => by
    obtain ⟨k, rfl⟩ : ∃ k, fuel = k + 2 := ⟨fuel - 2, by simp [size] at enough; omega⟩
    simp only [all, Bool.and_eq_true] at fits
    -- The array reader puts the first character of the first element back and runs its loop.
    obtain ⟨c, text, written, notBlank, notClose, -⟩ :=
      write_eq_cons formatFixed (show element.isReal = false by
        simp only [allElements, Bool.and_eq_true] at fits
        have node := fits.2.1
        cases element <;> simp_all [all, printable, readable, isReal])
    have loop := readElements_write (element :: more) [] k (List.cons_ne_nil _ _)
      (by simp only [size] at enough; omega) fits.2 rest
    rw [writeElements, written, List.nil_append] at loop
    simp only [write, writeElements, written, List.cons_append, List.append_assoc,
      List.nil_append] at loop ⊢
    rw [readValue_array, readArray_first parseReal notBlank notClose, loop]
  | .object [], fuel, rest, enough, _, _ => by
    obtain ⟨k, rfl⟩ : ∃ k, fuel = k + 2 := ⟨fuel - 2, by simp [size] at enough; omega⟩
    rfl
  | .object ((key, member) :: more), fuel, rest, enough, fits, _ => by
    obtain ⟨k, rfl⟩ : ∃ k, fuel = k + 2 := ⟨fuel - 2, by simp [size] at enough; omega⟩
    simp only [all, printable, readable, escapedTexts, sortedKeys, isReal, Bool.not_false,
      Bool.true_and, Bool.and_eq_true, List.all_eq_true, decide_eq_true_eq] at fits
    -- The object reader finds the quote of the first key and runs its loop on the rest.
    have loop := readMembers_write ((key, member) :: more) [] k (List.cons_ne_nil _ _)
      (by simp only [size] at enough; omega) fits.2 fits.1.1 fits.1.2 rest
    simp only [write, writeMembers, List.cons_append, List.append_assoc, List.tail_cons,
      List.nil_append] at loop ⊢
    rw [readValue_object, readObject_quote, loop]
  | .bool true, fuel, rest, enough, _, _ => by
    obtain ⟨k, rfl⟩ : ∃ k, fuel = k + 1 := ⟨fuel - 1, by simp [size] at enough; omega⟩
    rfl
  | .bool false, fuel, rest, enough, _, _ => by
    obtain ⟨k, rfl⟩ : ∃ k, fuel = k + 1 := ⟨fuel - 1, by simp [size] at enough; omega⟩
    rfl
  | .nil, fuel, rest, enough, _, _ => by
    obtain ⟨k, rfl⟩ : ∃ k, fuel = k + 1 := ⟨fuel - 1, by simp [size] at enough; omega⟩
    rfl
  | .integer value, fuel, rest, enough, _, stops => by
    obtain ⟨k, rfl⟩ : ∃ k, fuel = k + 1 := ⟨fuel - 1, by simp [size] at enough; omega⟩
    exact readValue_writeInteger parseReal value k stops
  | .string value, fuel, rest, enough, fits, _ => by
    obtain ⟨k, rfl⟩ : ∃ k, fuel = k + 1 := ⟨fuel - 1, by simp [size] at enough; omega⟩
    simp only [all, printable, readable, escapedTexts, sortedKeys, isReal, Bool.not_false,
      Bool.true_and, Bool.and_true] at fits
    simp only [write, List.cons_append, List.append_assoc, List.nil_append]
    rw [readValue_string, readString, readStringToken_append fits rest, Option.map_some]
  | .real _, _, _, _, fits, _ => by simp [all, printable, readable, isReal] at fits

theorem readElements_write : ∀ (elements acc : List (JsonValue Real)) (fuel : Nat), elements ≠ [] →
    sizeElements elements ≤ fuel → allElements printable elements = true →
    ∀ rest, readElements parseReal fuel acc (writeElements formatFixed elements ++ ']' :: rest) =
      some (.array (acc ++ elements), rest)
  | [], _, _, nonempty, _, _, _ => absurd rfl nonempty
  | element :: more, acc, fuel, _, enough, fits, rest => by
    obtain ⟨k, rfl⟩ : ∃ k, fuel = k + 1 := ⟨fuel - 1, by simp [sizeElements] at enough; omega⟩
    simp only [allElements, Bool.and_eq_true] at fits
    have first := readValue_write element k (writeMoreElements formatFixed more ++ ']' :: rest)
      (by simp only [sizeElements] at enough; omega) fits.1 (stops_moreElements formatFixed more rest)
    rw [writeElements, List.append_assoc, readElements, first]
    cases more with
    | nil =>
      -- The closing bracket ends the loop.
      simp [readNonWsChar, isspace, writeMoreElements]
    | cons next later =>
      -- A comma, and the loop goes on with the next element.
      have loop := readElements_write (next :: later) (acc ++ [element]) k (List.cons_ne_nil _ _)
        (by simp only [sizeElements] at enough ⊢; omega) fits.2 rest
      simp only [writeElements, List.append_assoc] at loop
      simp [readNonWsChar, isspace, writeMoreElements, loop]

theorem readMembers_write : ∀ (members acc : List (List Char × JsonValue Real)) (fuel : Nat),
    members ≠ [] → sizeMembers members ≤ fuel → allMembers printable members = true →
    (∀ entry ∈ members, escaped entry.1 = true) → OrderedMap.Sorted (acc ++ members) →
    ∀ rest, readMembers parseReal fuel acc quote ((writeMembers formatFixed members).tail ++ '}' :: rest) =
      some (.object (acc ++ members), rest)
  | [], _, _, nonempty, _, _, _, _, _ => absurd rfl nonempty
  | (key, member) :: more, acc, fuel, _, enough, fits, keys, sorted, rest => by
    obtain ⟨k, rfl⟩ : ∃ k, fuel = k + 1 := ⟨fuel - 1, by simp [sizeMembers] at enough; omega⟩
    simp only [allMembers, Bool.and_eq_true] at fits
    have first := readValue_write member k (writeMoreMembers formatFixed more ++ '}' :: rest)
      (by simp only [sizeMembers] at enough; omega) fits.1 (stops_moreMembers formatFixed more rest)
    have keyEscaped : escaped key = true := keys (key, member) List.mem_cons_self
    -- The keys before are below this one, so the entry goes at the end of the map.
    have atEnd : OrderedMap.insert key member acc = acc ++ [(key, member)] :=
      OrderedMap.insert_of_lt member fun entry old =>
        (List.pairwise_append.mp sorted).2.2 entry old (key, member) List.mem_cons_self
    simp only [writeMembers, List.cons_append, List.append_assoc, List.tail_cons]
    rw [readMembers, if_neg (not_not.mpr rfl), readStringToken_append keyEscaped]
    simp only [Option.bind_eq_bind, Option.bind_some, readNonWsChar_cons (show isspace ':' = false by decide),
      ne_eq, not_true_eq_false, if_false, first, atEnd]
    cases more with
    | nil =>
      -- The closing brace ends the loop.
      simp [readNonWsChar, isspace, writeMoreMembers]
    | cons next later =>
      -- A comma and the quote of the next key, and the loop goes on.
      have loop := readMembers_write (next :: later) (acc ++ [(key, member)]) k (List.cons_ne_nil _ _)
        (by simp only [sizeMembers] at enough ⊢; omega) fits.2
        (fun entry old => keys entry (List.mem_cons_of_mem _ old))
        (by rw [List.append_assoc, List.singleton_append]; exact sorted) rest
      obtain ⟨nextKey, nextMember⟩ := next
      simp only [writeMembers, List.cons_append, List.append_assoc, List.tail_cons,
        List.nil_append] at loop
      simp only [writeMoreMembers, List.cons_append, List.append_assoc,
        readNonWsChar_cons (show isspace ',' = false by decide),
        readNonWsChar_cons (show isspace quote = false by decide), Option.bind_some,
        if_neg (show ',' ≠ '}' by decide), not_true_eq_false, if_false, loop]

end

end RoundTrip

/-! ### What the reader returns -/

section Readable

variable {Real : Type} (parseReal : List Char → Real)

open JsonValue

/-- A reader returns only values whose strings and keys are escaped and whose keys are in order,
and takes at least one character. -/
def ReadsWell (read : List Char → Option (JsonValue Real × List Char)) : Prop :=
  ∀ ⦃input : List Char⦄ ⦃v : JsonValue Real⦄ ⦃rest : List Char⦄, read input = some (v, rest) →
    v.all readable = true ∧ rest.length < input.length

theorem length_lt_of_readNonWsChar :
    ∀ {input rest : List Char} {c : Char}, readNonWsChar input = some (c, rest) →
      rest.length < input.length
  | [], _, _, read => by simp [readNonWsChar] at read
  | d :: more, rest, c, read => by
    rw [readNonWsChar] at read
    split at read
    · exact Nat.lt_succ_of_lt (length_lt_of_readNonWsChar read)
    · simp only [Option.some.injEq, Prod.mk.injEq] at read
      rw [← read.2]
      exact Nat.lt_succ_self _

/-- A string token is escaped, since the reader keeps each backslash together with the character
after it and stops at any other quote; and the closing quote is taken. -/
theorem readStringToken_reads :
    ∀ {input value rest : List Char}, readStringToken input = some (value, rest) →
      escaped value = true ∧ rest.length < input.length
  | [], _, _, read => by simp [readStringToken] at read
  | [c], value, rest, read => by
    by_cases isQuote : c = quote
    · subst isQuote
      rw [readStringToken_quote] at read
      cases read
      exact ⟨rfl, Nat.lt_succ_self _⟩
    · simp [readStringToken, isQuote] at read
  | c :: e :: after, value, rest, read => by
    by_cases isQuote : c = quote
    · subst isQuote
      rw [readStringToken_quote] at read
      cases read
      exact ⟨rfl, Nat.lt_succ_self _⟩
    · by_cases isBackslash : c = backslash
      · -- An escape: both characters go in, and the token goes on after them.
        subst isBackslash
        rw [readStringToken_escape] at read
        obtain ⟨⟨inner, later⟩, found, same⟩ := Option.map_eq_some_iff.mp read
        simp only [Prod.mk.injEq] at same
        obtain ⟨rfl, rfl⟩ := same
        obtain ⟨innerEscaped, shorter⟩ := readStringToken_reads found
        rw [escaped_escape]
        exact ⟨innerEscaped, by simp only [List.length_cons]; omega⟩
      · rw [readStringToken_plain isQuote isBackslash] at read
        obtain ⟨⟨inner, later⟩, found, same⟩ := Option.map_eq_some_iff.mp read
        simp only [Prod.mk.injEq] at same
        obtain ⟨rfl, rfl⟩ := same
        obtain ⟨innerEscaped, shorter⟩ := readStringToken_reads found
        rw [escaped_plain isBackslash, innerEscaped]
        exact ⟨by simp [isQuote], by simp only [List.length_cons] at shorter ⊢; omega⟩

theorem readString_reads : ReadsWell (@readString Real) := by
  intro input v rest read
  obtain ⟨⟨value, after⟩, found, same⟩ := Option.map_eq_some_iff.mp read
  simp only [Prod.mk.injEq] at same
  obtain ⟨rfl, rfl⟩ := same
  obtain ⟨fits, shorter⟩ := readStringToken_reads found
  exact ⟨by simp [all, readable, escapedTexts, sortedKeys, fits], shorter⟩

/-- A literal or a number: a value with nothing inside it, and no more text than was there. -/
def ReadsLeaf (read : List Char → Option (JsonValue Real × List Char)) : Prop :=
  ∀ ⦃input : List Char⦄ ⦃v : JsonValue Real⦄ ⦃rest : List Char⦄, read input = some (v, rest) →
    v.all readable = true ∧ rest.length ≤ input.length

theorem readLiteral_reads {literal : List Char} {v : JsonValue Real} (leaf : v.all readable = true) :
    ReadsLeaf fun input => (readLiteral literal input).map fun rest => (v, rest) := by
  intro input w rest read
  obtain ⟨after, found, same⟩ := Option.map_eq_some_iff.mp read
  simp only [Prod.mk.injEq] at same
  obtain ⟨rfl, rfl⟩ := same
  unfold readLiteral at found
  split at found
  · simp only [Option.some.injEq] at found
    rw [← found]
    exact ⟨leaf, by rw [List.length_drop]; omega⟩
  · cases found

theorem length_readNumberChars : ∀ input : List Char, (readNumberChars input).2.length ≤ input.length
  | [] => le_refl _
  | c :: rest => by
    rw [readNumberChars]
    split
    · exact Nat.le_succ_of_le (length_readNumberChars rest)
    · exact le_refl _

theorem readNumber_reads (c : Char) : ReadsLeaf (readNumber parseReal c) := by
  intro input v rest read
  have shorter := length_readNumberChars input
  unfold readNumber at read
  generalize readNumberChars input = taken at read shorter
  obtain ⟨digits, after⟩ := taken
  dsimp only at read shorter
  -- A `REAL` or an `INTEGER`, each with nothing inside it.
  split_ifs at read <;>
    (simp only [Option.some.injEq, Prod.mk.injEq] at read; rw [← read.1, ← read.2]; exact ⟨rfl, shorter⟩)

/-- An element read after the elements so far keeps the array readable. -/
theorem all_readable_concat {acc : List (JsonValue Real)} (accFits : (array acc).all readable = true)
    {element : JsonValue Real} (fits : element.all readable = true) :
    (array (acc ++ [element])).all readable = true := by
  simp only [all, readable, escapedTexts, sortedKeys, Bool.and_self, Bool.true_and,
    allElements_iff] at accFits ⊢
  intro w member
  rcases List.mem_append.mp member with old | new
  · exact accFits w old
  · rw [List.mem_singleton.mp new]
    exact fits

/-- An entry linked in with an escaped key and a readable value keeps the map readable. -/
theorem all_readable_insert {acc : List (List Char × JsonValue Real)}
    (accFits : (object acc).all readable = true) {name : List Char} (nameEscaped : escaped name = true)
    {member : JsonValue Real} (fits : member.all readable = true) :
    (object (OrderedMap.insert name member acc)).all readable = true := by
  simp only [all, readable, escapedTexts, sortedKeys, Bool.and_eq_true, List.all_eq_true,
    decide_eq_true_eq, allMembers_iff] at accFits ⊢
  obtain ⟨⟨keys, sorted⟩, entries⟩ := accFits
  refine ⟨⟨fun entry old => ?_, OrderedMap.sorted_insert name member sorted⟩, fun entry old => ?_⟩
  · rcases OrderedMap.mem_insert old with new | before
    · rw [new]
      exact nameEscaped
    · exact keys entry before
  · rcases OrderedMap.mem_insert old with new | before
    · rw [new]
      exact fits
    · exact entries entry before

variable {n : Nat}

theorem readValue_reads_step (array : ReadsWell (readArray parseReal n))
    (object : ReadsWell (readObject parseReal n)) : ReadsWell (readValue parseReal (n + 1)) := by
  intro input v rest read
  simp only [readValue, Option.bind_eq_bind, Option.bind_eq_some_iff] at read
  obtain ⟨⟨c, after⟩, first, read⟩ := read
  dsimp only at read
  have taken := length_lt_of_readNonWsChar first
  -- One case for each reader the first character chooses; the first character is taken.
  have leaf : ∀ {read : List Char → Option (JsonValue Real × List Char)}, ReadsLeaf read →
      read after = some (v, rest) → v.all readable = true ∧ rest.length < input.length :=
    fun leafRead found => (leafRead found).imp_right fun shorter => by omega
  have inner : ∀ {read : List Char → Option (JsonValue Real × List Char)}, ReadsWell read →
      read after = some (v, rest) → v.all readable = true ∧ rest.length < input.length :=
    fun innerRead found => (innerRead found).imp_right fun shorter => by omega
  split_ifs at read
  · exact inner array read
  · exact leaf (readLiteral_reads rfl) read
  · exact leaf (readLiteral_reads rfl) read
  · exact leaf (readNumber_reads parseReal c) read
  · exact leaf (readLiteral_reads rfl) read
  · exact inner object read
  · exact inner readString_reads read

theorem readArray_reads_step
    (elements : ∀ acc, (JsonValue.array acc).all readable = true →
      ReadsWell (readElements parseReal n acc)) :
    ReadsWell (readArray parseReal (n + 1)) := by
  intro input v rest read
  simp only [readArray, Option.bind_eq_bind, Option.bind_eq_some_iff] at read
  obtain ⟨⟨c, after⟩, first, read⟩ := read
  dsimp only at read
  have taken := length_lt_of_readNonWsChar first
  split_ifs at read
  · simp only [Option.some.injEq, Prod.mk.injEq] at read
    rw [← read.1, ← read.2]
    exact ⟨rfl, taken⟩
  · -- The character put back is read again by the loop.
    obtain ⟨fits, shorter⟩ := elements [] rfl read
    exact ⟨fits, by simp only [List.length_cons] at shorter; omega⟩

theorem readElements_reads_step (value : ReadsWell (readValue parseReal n))
    (elements : ∀ acc, (JsonValue.array acc).all readable = true →
      ReadsWell (readElements parseReal n acc)) :
    ∀ acc, (JsonValue.array acc).all readable = true →
      ReadsWell (readElements parseReal (n + 1) acc) := by
  intro acc accFits input v rest read
  simp only [readElements, Option.bind_eq_bind, Option.bind_eq_some_iff] at read
  obtain ⟨⟨element, after⟩, found, ⟨c, later⟩, next, read⟩ := read
  dsimp only at next read
  obtain ⟨elementFits, elementTaken⟩ := value found
  have separatorTaken := length_lt_of_readNonWsChar next
  have grown := all_readable_concat accFits elementFits
  split_ifs at read
  · simp only [Option.some.injEq, Prod.mk.injEq] at read
    rw [← read.1, ← read.2]
    exact ⟨grown, by omega⟩
  · obtain ⟨fits, shorter⟩ := elements _ grown read
    exact ⟨fits, by omega⟩

theorem readObject_reads_step
    (members : ∀ acc c, (JsonValue.object acc).all readable = true →
      ReadsWell (readMembers parseReal n acc c)) :
    ReadsWell (readObject parseReal (n + 1)) := by
  intro input v rest read
  simp only [readObject, Option.bind_eq_bind, Option.bind_eq_some_iff] at read
  obtain ⟨⟨c, after⟩, first, read⟩ := read
  dsimp only at read
  have taken := length_lt_of_readNonWsChar first
  split_ifs at read
  · simp only [Option.some.injEq, Prod.mk.injEq] at read
    rw [← read.1, ← read.2]
    exact ⟨rfl, taken⟩
  · obtain ⟨fits, shorter⟩ := members [] c rfl read
    exact ⟨fits, by omega⟩

theorem readMembers_reads_step (value : ReadsWell (readValue parseReal n))
    (members : ∀ acc c, (JsonValue.object acc).all readable = true →
      ReadsWell (readMembers parseReal n acc c)) :
    ∀ acc c, (JsonValue.object acc).all readable = true →
      ReadsWell (readMembers parseReal (n + 1) acc c) := by
  intro acc c accFits input v rest read
  rw [readMembers] at read
  split_ifs at read
  simp only [Option.bind_eq_bind, Option.bind_eq_some_iff] at read
  obtain ⟨⟨name, afterName⟩, nameRead, ⟨colon, afterColon⟩, colonRead, read⟩ := read
  dsimp only at colonRead read
  obtain ⟨nameEscaped, nameTaken⟩ := readStringToken_reads nameRead
  have colonTaken := length_lt_of_readNonWsChar colonRead
  split_ifs at read
  simp only [Option.bind_eq_some_iff] at read
  obtain ⟨⟨member, afterMember⟩, memberRead, ⟨next, afterNext⟩, nextRead, read⟩ := read
  dsimp only at nextRead read
  obtain ⟨memberFits, memberTaken⟩ := value memberRead
  have nextTaken := length_lt_of_readNonWsChar nextRead
  -- The entry just read is linked in before the loop decides how to go on.
  have grown := all_readable_insert accFits nameEscaped memberFits
  split_ifs at read
  · simp only [Option.some.injEq, Prod.mk.injEq] at read
    rw [← read.1, ← read.2]
    exact ⟨grown, by omega⟩
  · simp only [Option.bind_eq_some_iff] at read
    obtain ⟨⟨quoteChar, afterComma⟩, quoteRead, read⟩ := read
    dsimp only at read
    have quoteTaken := length_lt_of_readNonWsChar quoteRead
    obtain ⟨fits, shorter⟩ := members _ _ grown read
    exact ⟨fits, by omega⟩

/-- Every reader, at every fuel, returns only readable values, and takes some of the text. -/
theorem readers_read_well : ∀ n : Nat,
    ReadsWell (readValue parseReal n) ∧ ReadsWell (readArray parseReal n) ∧
      (∀ acc, (JsonValue.array acc).all readable = true →
        ReadsWell (readElements parseReal n acc)) ∧
      ReadsWell (readObject parseReal n) ∧
      (∀ acc c, (JsonValue.object acc).all readable = true →
        ReadsWell (readMembers parseReal n acc c))
  | 0 => by
    refine ⟨fun _ _ _ read => ?_, fun _ _ _ read => ?_, fun _ _ _ _ _ read => ?_,
      fun _ _ _ read => ?_, fun _ _ _ _ _ _ read => ?_⟩ <;>
    simp [readValue, readArray, readElements, readObject, readMembers] at read
  | n + 1 => by
    obtain ⟨value, array, elements, object, members⟩ := readers_read_well n
    exact ⟨readValue_reads_step parseReal array object, readArray_reads_step parseReal elements,
      readElements_reads_step parseReal value elements, readObject_reads_step parseReal members,
      readMembers_reads_step parseReal value members⟩

end Readable

/-! ### The round trip -/

section Laws

variable {Real : Type} (parseReal : List Char → Real) (formatFixed : Real → List Char)

open JsonValue

theorem all_printable (v : JsonValue Real) :
    v.all printable = (v.all (fun node => !node.isReal) && v.all readable) :=
  all_and _ _ v

theorem all_readable (v : JsonValue Real) :
    v.all readable = (v.all escapedTexts && v.all sortedKeys) :=
  all_and _ _ v

/-- A value with no `REAL`, its strings and keys escaped and its keys in order, reads back from
the text `toString` gives: the reader has three units of fuel for each character, and needs two. -/
theorem fromString_toString {v : JsonValue Real} (fits : v.all printable = true) :
    fromString parseReal (toString formatFixed v) = some v := by
  have enough := size_le_length formatFixed v
  have read := readValue_write parseReal formatFixed v (3 * (write formatFixed v).length + 1) []
    (by omega) fits (fun c first => by cases first)
  rw [List.append_nil] at read
  rw [fromString, toString, read, Option.map_some]

/-- `JsonValue::fromString` inverts `JsonValue::toString` on the values with no `REAL` whose
strings and keys are escaped (the keys of every `std::map` are in order), and printing a value
`fromString` returned, with no `REAL` in it, and parsing again gives the same value. -/
theorem json_text_round_trip :
    (∀ v : JsonValue Real, v.all sortedKeys = true → v.all escapedTexts = true →
      v.all (fun node => !node.isReal) = true →
        fromString parseReal (toString formatFixed v) = some v) ∧
    (∀ (text : List Char) (v : JsonValue Real), fromString parseReal text = some v →
      v.all (fun node => !node.isReal) = true →
        fromString parseReal (toString formatFixed v) = some v) := by
  constructor
  · intro v sorted escapedAll realFree
    apply fromString_toString
    rw [all_printable, all_readable, realFree, escapedAll, sorted]
    rfl
  · -- What the reader returned is readable, so only the `REAL`s stand in the way.
    intro text v parsed realFree
    obtain ⟨⟨w, rest⟩, read, same⟩ := Option.map_eq_some_iff.mp parsed
    cases same
    apply fromString_toString
    rw [all_printable, realFree, ((readers_read_well parseReal _).1 read).1]
    rfl

end Laws

/-- A nested value: an object whose two keys come in order, holding an array of a negative
integer, `null`, `true` and a string with an escaped quote, and an empty object. -/
def nestedSample : JsonValue Unit :=
  .object [(['a'], .array [.integer (-42), .nil, .bool true, .string [backslash, quote, 'x']]),
    (['b'], .object [])]

theorem json_text_round_trip_on_nested_value :
    fromString (fun _ => ()) (toString (fun _ => []) nestedSample) = some nestedSample :=
  (json_text_round_trip (fun _ => ()) (fun _ => [])).1 nestedSample (by decide) (by decide)
    (by decide)

end Common
