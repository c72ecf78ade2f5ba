import Qwertycoin.Common.FileMappedVector.Operations

/-!
The vector's interface as calls, run one after another on an opened vector: the vector holds, after
every call that returns, what the calls make of its model, and a crash at any point leaves files that
open as one of the models passed through.
-/

namespace Common.FileMappedVector

open ByteFile

/-- A call of the vector's interface that changes it. -/
inductive Call (valueSize : Nat) where
  | pushBack (value : Vector UInt8 valueSize)
  | popBack
  | clear
  | insert (position : Nat) (values : List (Vector UInt8 valueSize))
  | erase (first last : Nat)
  | reserve (n : Nat)
  | shrinkToFit
  | resizePrefix (n : Nat)
  | resizeSuffix (n : Nat)

namespace Call

variable {valueSize : Nat}

/-- The call on the vector, `token` naming the new files it creates. -/
def run (token : List Char) : Call valueSize → Op Unit
  | pushBack value => FileMappedVector.pushBack valueSize token value.toList
  | popBack => FileMappedVector.popBack
  | clear => FileMappedVector.clear
  | insert position values =>
    FileMappedVector.insert valueSize token position (values.map Vector.toList)
  | erase first last => FileMappedVector.erase valueSize token first last
  | reserve n => FileMappedVector.reserve valueSize token n
  | shrinkToFit => FileMappedVector.shrinkToFit valueSize token
  | resizePrefix n => FileMappedVector.resizePrefix valueSize token n
  | resizeSuffix n => FileMappedVector.resizeSuffix valueSize token n

/-- The call on the model. -/
def apply (m : Model valueSize) : Call valueSize → Model valueSize
  | pushBack value => m.pushBack value
  | popBack => m.popBack
  | clear => m.clear
  | insert position values => m.insert position values
  | erase first last => m.erase first (last - first)
  | reserve n => m.reserve n
  | shrinkToFit => m.shrinkToFit
  | resizePrefix n => m.resizePrefix n
  | resizeSuffix n => m.resizeSuffix n

/-- The models a crash during the call may find: the one before it and the one after it, and for a
`push_back` with no room left the one `reserve` makes on the way. -/
def passes (m : Model valueSize) : Call valueSize → List (Model valueSize)
  | pushBack value =>
    if m.capacity = m.elements.length then [m, m.reserve m.nextCapacity, m.pushBack value]
    else [m, m.pushBack value]
  | c => [m, c.apply m]

/-- What the interface asks of a call: an element to pop, a position inside the vector to insert at,
and a range inside it to erase. -/
def Allowed (m : Model valueSize) : Call valueSize → Prop
  | popBack => m.elements ≠ []
  | insert position _ => position ≤ m.elements.length
  | erase first last => first ≤ last ∧ last ≤ m.elements.length
  | _ => True

instance decidableAllowed (m : Model valueSize) (c : Call valueSize) : Decidable (c.Allowed m) := by
  cases c <;> unfold Allowed <;> infer_instance

/-- An allowed call, whose model needs a file of fewer than `2 ^ 64` bytes, takes the vector from
its model to the model the call makes. -/
theorem ends (positive : 0 < valueSize) (token : List Char) {d : Disk} {v : FileMappedVector}
    {m : Model valueSize} (represents : Represents valueSize (d, v) m) (c : Call valueSize)
    (allowed : c.Allowed m) (small : (c.apply m).fileSize < 2 ^ 64) :
    Ends valueSize (c.run token) (tmpPath v.path token) (d, v) m (c.apply m) (c.passes m) := by
  -- each call is one operation of the vector
  cases c with
  | pushBack value => exact pushBack_ends positive token represents value small
  | popBack => exact popBack_ends positive token represents allowed
  | clear => exact clear_ends positive token represents
  | insert position values => exact insert_ends positive token represents allowed values small
  | erase first last => exact erase_ends positive token represents allowed.1 allowed.2
  | reserve n => exact reserve_ends positive token represents n small
  | shrinkToFit => exact shrinkToFit_ends positive token represents
  | resizePrefix n => exact resizePrefix_ends positive token represents n small
  | resizeSuffix n => exact resizeSuffix_ends positive token represents n small

/-- The calls one after another on the vector, the `k`-th with the token `tokens k`, as each
`unique_path` draws its own. -/
def runAll (tokens : Nat → List Char) : List (Call valueSize) → Op Unit
  | [] => pure ()
  | c :: calls => do
    c.run (tokens 0)
    runAll (fun k => tokens (k + 1)) calls

/-- The calls one after another on the model. -/
def applyAll (m : Model valueSize) (calls : List (Call valueSize)) : Model valueSize :=
  calls.foldl apply m

/-- The models a crash during the calls may find. -/
def passesAll : Model valueSize → List (Call valueSize) → List (Model valueSize)
  | m, [] => [m]
  | m, c :: calls => c.passes m ++ passesAll (c.apply m) calls

/-- Every call is allowed on the model the calls before it make, and the model it makes needs a file
of fewer than `2 ^ 64` bytes. -/
def Valid : Model valueSize → List (Call valueSize) → Prop
  | _, [] => True
  | m, c :: calls => c.Allowed m ∧ (c.apply m).fileSize < 2 ^ 64 ∧ Valid (c.apply m) calls

variable (valueSize)

/-- How the calls run from a state `s` holding `m` end: they return with the vector holding what
they all make of `m`, or the call after the first `k` throws, with the vector holding what those `k`
make of `m`, which it does only when a file is in the place of its new file, named by `tokens k`, or
the model it makes needs a file of
`2 ^ 63` bytes or more or one the system refuses; and a crash during them finds one of the models passed through. -/
def RunEnds (x : Op Unit) (tokens : Nat → List Char) (s : Disk × FileMappedVector)
    (m : Model valueSize) (calls : List (Call valueSize)) : Prop :=
  ∃ s', Leaves valueSize (passesAll m calls) s s' ∧
    ((x.run s = .ok () s' ∧ Represents valueSize s' (applyAll m calls)) ∨
      ∃ k < calls.length, (∃ e, x.run s = .error e s') ∧
        Represents valueSize s' (applyAll m (calls.take k)) ∧
        (s.1.files (tmpPath s.2.path (tokens k)) = none →
          2 ^ 63 ≤ (applyAll m (calls.take (k + 1))).fileSize ∨
          (s.1.refuses (applyAll m (calls.take (k + 1))).fileSize).isSome))

variable {valueSize}

/-- A vector of one-byte elements with no room, as `create` leaves it with capacity 0. -/
def roomless : Disk × FileMappedVector :=
  (⟨fun path => if path = ['v'] then some (createdFile 1 0 0 0) else none, [], fun _ => none⟩,
    ⟨['v'], ['v'], 0, 0⟩)

end Call

end Common.FileMappedVector
