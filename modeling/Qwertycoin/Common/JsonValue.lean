import Qwertycoin.Lib.OrderedMap
import Mathlib

/-!
`Common::JsonValue` and its text form (`JsonValue.cpp`). `write` is `operator<<`: strings and keys
go out between double quotes as they are, with no escaping, objects in the key order of their
`std::map`. `readValue` is `operator>>` over the characters of the stream: it skips blanks before
each token, keeps a backslash and the character after it as they are inside a string, and
refuses a number with a leading zero. A throw, and a stream left failed, are `none`.

The reader recurses through arrays and objects; its `fuel` counts the calls, and `fromString`
gives it three units for each character of the text, more than any text can use up.

A `REAL` holds a value of the type `Real`, the code's `double`; the stream conversions of a
`double` to and from text are the parameters `parseReal` and `formatFixed`.
-/

namespace Common

/-- `JsonValue`, one constructor for each `JsonValue::Type`. An `OBJECT` holds the entries of its
`std::map` in key order. -/
inductive JsonValue (Real : Type) where
  | array (elements : List (JsonValue Real))
  | bool (value : Bool)
  | integer (value : Int64)
  | nil
  | object (members : List (List Char × JsonValue Real))
  | real (value : Real)
  | string (value : List Char)

/-- The double quote that opens and closes strings and keys. -/
def quote : Char := Char.ofNat 34

/-- The backslash that makes the character after it part of a string. -/
def backslash : Char := Char.ofNat 92

/-- `isspace` in the C locale: blank, tab, line feed, vertical tab, form feed, carriage return. -/
def isspace (c : Char) : Bool := c == ' ' || (9 ≤ c.toNat && c.toNat ≤ 13)

/-! ### Writing -/

section Write

variable {Real : Type} (formatFixed : Real → List Char)

/-- `out << valueInteger` for an `int64_t`: its decimal digits, behind a minus when negative. -/
def writeInteger (value : Int64) : List Char :=
  if value.toInt < 0 then '-' :: Nat.toDigits 10 value.toInt.natAbs
  else Nat.toDigits 10 value.toInt.natAbs

/-- The loop that strips the zeros `std::fixed` leaves at the end of a `REAL`, keeping the digit
after the point; over the text reversed, so that its end is the head. -/
def stripZerosReversed : List Char → List Char
  | '0' :: d :: rest => if d = '.' then '0' :: d :: rest else stripZerosReversed (d :: rest)
  | text => text

/-- A `REAL` as `operator<<` writes it: eleven decimals, then the zeros at the end stripped. -/
def writeReal (value : Real) : List Char :=
  (stripZerosReversed (formatFixed value).reverse).reverse

mutual

/-- `operator<<(std::ostream &, const JsonValue &)`. -/
def write : JsonValue Real → List Char
  | .array elements => '[' :: writeElements elements ++ [']']
  | .bool value => if value then ['t', 'r', 'u', 'e'] else ['f', 'a', 'l', 's', 'e']
  | .integer value => writeInteger value
  | .nil => ['n', 'u', 'l', 'l']
  | .object members => '{' :: writeMembers members ++ ['}']
  | .real value => writeReal formatFixed value
  | .string value => quote :: value ++ [quote]

/-- The elements of an array: the first one, then `writeMoreElements`. -/
def writeElements : List (JsonValue Real) → List Char
  | [] => []
  | element :: more => write element ++ writeMoreElements more

/-- The loop over the elements after the first: each behind a comma. -/
def writeMoreElements : List (JsonValue Real) → List Char
  | [] => []
  | element :: more => ',' :: write element ++ writeMoreElements more

/-- The entries of an object in key order: the first one, then `writeMoreMembers`. -/
def writeMembers : List (List Char × JsonValue Real) → List Char
  | [] => []
  | (key, member) :: more => quote :: key ++ quote :: ':' :: write member ++ writeMoreMembers more

/-- The loop over the entries after the first: each behind a comma. -/
def writeMoreMembers : List (List Char × JsonValue Real) → List Char
  | [] => []
  | (key, member) :: more =>
    ',' :: quote :: key ++ quote :: ':' :: write member ++ writeMoreMembers more

end

/-- `JsonValue::toString`. -/
def toString (value : JsonValue Real) : List Char := write formatFixed value

end Write

/-! ### Reading -/

/-- `readNonWsChar`: characters are read until one is not blank; `readChar` throws at the end of
the stream. -/
def readNonWsChar : List Char → Option (Char × List Char)
  | [] => none
  | c :: rest => if isspace c then readNonWsChar rest else some (c, rest)

/-- `readStringToken`, after the opening quote: the characters up to the first quote that no
backslash takes, with each backslash and the character after it kept as they are. -/
def readStringToken : List Char → Option (List Char × List Char)
  | [] => none
  | c :: rest =>
    if c = quote then some ([], rest)
    else if c = backslash then
      match rest with
      | [] => none
      | escaped :: more =>
        (readStringToken more).map fun (value, after) => (c :: escaped :: value, after)
    else (readStringToken rest).map fun (value, after) => (c :: value, after)

/-- `in.read(data, n)` and the test that `data` is the rest of a literal: fewer characters than
the literal fail the stream, other ones throw. -/
def readLiteral (literal input : List Char) : Option (List Char) :=
  if input.take literal.length = literal then some (input.drop literal.length) else none

/-- The loop of `readNumber`: the digits and dots it peeks at one by one, and what follows them. -/
def readNumberChars : List Char → List Char × List Char
  | [] => ([], [])
  | c :: rest =>
    if c.isDigit || c = '.' then
      let (text, after) := readNumberChars rest
      (c :: text, after)
    else ([], c :: rest)

/-- `std::istringstream(text) >> value` for an `int64_t`, on a minus or a digit followed by
digits: the value, clamped to the range when it overflows, and `0` when no digit follows the
minus. -/
def parseInteger : List Char → Int64
  | '-' :: digits =>
    if digits = [] then 0 else Int64.ofIntClamp (-(Nat.ofDigitChars 10 digits 0 : Int))
  | digits => Int64.ofIntClamp (Nat.ofDigitChars 10 digits 0)

section Read

variable {Real : Type} (parseReal : List Char → Real)

/-- `readTrue`, after the `t`. -/
def readTrue (input : List Char) : Option (JsonValue Real × List Char) :=
  (readLiteral ['r', 'u', 'e'] input).map fun rest => (.bool true, rest)

/-- `readFalse`, after the `f`. -/
def readFalse (input : List Char) : Option (JsonValue Real × List Char) :=
  (readLiteral ['a', 'l', 's', 'e'] input).map fun rest => (.bool false, rest)

/-- `readNull`, after the `n`. -/
def readNull (input : List Char) : Option (JsonValue Real × List Char) :=
  (readLiteral ['u', 'l', 'l'] input).map fun rest => (.nil, rest)

/-- `readNumber` from its first character `c`, a minus or a digit. With a dot it is a `REAL`; an
`e` after it always throws, since the exponent branch tests the `e` itself for a digit. Without a
dot it is an `INTEGER`, refused when it has a leading zero. -/
def readNumber (c : Char) (input : List Char) : Option (JsonValue Real × List Char) :=
  let (digits, rest) := readNumberChars input
  let dots := digits.count '.'
  if dots > 0 then
    if dots > 1 then none
    else if rest.head? = some 'e' then none
    else some (.real (parseReal (c :: digits)), rest)
  else if digits ≠ [] && (c = '0' || (c = '-' && digits.head? = some '0')) then none
  else some (.integer (parseInteger (c :: digits)), rest)

/-- `readString`, after the opening quote. -/
def readString (input : List Char) : Option (JsonValue Real × List Char) :=
  (readStringToken input).map fun (value, rest) => (.string value, rest)

mutual

/-- `operator>>(std::istream &, JsonValue &)`: the first character that is not blank chooses the
reader. -/
def readValue : Nat → List Char → Option (JsonValue Real × List Char)
  | 0, _ => none
  | fuel + 1, input => do
    let (c, rest) ← readNonWsChar input
    if c = '[' then readArray fuel rest
    else if c = 't' then readTrue rest
    else if c = 'f' then readFalse rest
    else if c = '-' || c.isDigit then readNumber parseReal c rest
    else if c = 'n' then readNull rest
    else if c = '{' then readObject fuel rest
    else if c = quote then readString rest
    else none

/-- `readArray`, after the `[`: the character read is put back unless it closes the array. -/
def readArray : Nat → List Char → Option (JsonValue Real × List Char)
  | 0, _ => none
  | fuel + 1, input => do
    let (c, rest) ← readNonWsChar input
    if c = ']' then some (.array [], rest)
    else readElements fuel [] (c :: rest)

/-- The loop of `readArray`: `value` holds the elements read so far. -/
def readElements :
    Nat → List (JsonValue Real) → List Char → Option (JsonValue Real × List Char)
  | 0, _, _ => none
  | fuel + 1, value, input => do
    let (element, rest) ← readValue fuel input
    let (c, rest) ← readNonWsChar rest
    if c = ']' then some (.array (value ++ [element]), rest)
    else if c = ',' then readElements fuel (value ++ [element]) rest
    else none

/-- `readObject`, after the `{`. -/
def readObject : Nat → List Char → Option (JsonValue Real × List Char)
  | 0, _ => none
  | fuel + 1, input => do
    let (c, rest) ← readNonWsChar input
    if c = '}' then some (.object [], rest)
    else readMembers fuel [] c rest

/-- The loop of `readObject`: `value` is the map read so far and `c` the character that must open
the next key. A key read twice keeps the last value, as `in >> value[name]` does. -/
def readMembers : Nat → List (List Char × JsonValue Real) → Char → List Char →
    Option (JsonValue Real × List Char)
  | 0, _, _, _ => none
  | fuel + 1, value, c, input =>
    if c ≠ quote then none
    else do
      let (name, rest) ← readStringToken input
      let (c, rest) ← readNonWsChar rest
      if c ≠ ':' then none
      else do
        let (member, rest) ← readValue fuel rest
        let value := OrderedMap.insert name member value
        let (c, rest) ← readNonWsChar rest
        if c = '}' then some (.object value, rest)
        else if c ≠ ',' then none
        else do
          let (c, rest) ← readNonWsChar rest
          readMembers fuel value c rest

end

/-- `JsonValue::fromString`: the value the text starts with; what follows it is not looked at. -/
def fromString (source : List Char) : Option (JsonValue Real) :=
  (readValue parseReal (3 * source.length + 1) source).map Prod.fst

end Read

/-! ### The values the round trip is about -/

/-- A text the reader takes back as it is between quotes: single characters other than backslash
and double quote, and escapes of two characters, a backslash and any character after it. -/
def escaped : List Char → Bool
  | [] => true
  | c :: rest =>
    if c = backslash then
      match rest with
      | [] => false
      | _ :: more => escaped more
    else c ≠ quote && escaped rest

namespace JsonValue

variable {Real : Type}

mutual

/-- Every value inside `v`, `v` itself included, passes `p`. -/
def all (p : JsonValue Real → Bool) : JsonValue Real → Bool
  | .array elements => p (.array elements) && allElements p elements
  | .object members => p (.object members) && allMembers p members
  | v => p v

/-- Every value inside the elements passes `p`. -/
def allElements (p : JsonValue Real → Bool) : List (JsonValue Real) → Bool
  | [] => true
  | element :: more => element.all p && allElements p more

/-- Every value inside the entries passes `p`. -/
def allMembers (p : JsonValue Real → Bool) : List (List Char × JsonValue Real) → Bool
  | [] => true
  | (_, member) :: more => member.all p && allMembers p more

end

/-- The node is a `REAL`. -/
def isReal : JsonValue Real → Bool
  | .real _ => true
  | _ => false

/-- The node's string, or the keys of its entries, are escaped. -/
def escapedTexts : JsonValue Real → Bool
  | .string value => escaped value
  | .object members => members.all fun entry => escaped entry.1
  | _ => true

/-- The node's keys increase, as those of a `std::map` do. -/
def sortedKeys : JsonValue Real → Bool
  | .object members => decide (OrderedMap.Sorted members)
  | _ => true

end JsonValue

end Common
