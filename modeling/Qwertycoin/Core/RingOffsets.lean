import Qwertycoin.Core.Types

/-! Ring offsets: the relative encoding of a key input's ring and the check that admits it. -/

namespace CryptoNote

/-- The running sums after a given offset, each taken in 32 bits as `res[i] += res[i - 1]` does. -/
def accumulateOffsets (previous : UInt32) : List UInt32 → List UInt32
  | [] => []
  | offset :: rest => (offset + previous) :: accumulateOffsets (offset + previous) rest

/-- `relative_output_offsets_to_absolute`: the first offset is absolute, each later one is added
to the absolute offset before it, in `uint32_t`. -/
def relativeOutputOffsetsToAbsolute : List UInt32 → List UInt32
  | [] => []
  | first :: rest => first :: accumulateOffsets first rest

/-- The per-input loop of `core::check_tx_inputs_keyimages_diff`, with the key images seen so far.
`inValidDomain` is the curve check `scalarmultKey(keyImage, L) == I`. -/
def checkKeyInputsDiff (inValidDomain : KeyImage → Bool) (seen : List KeyImage) :
    List TransactionInput → Bool
  | [] => true
  | .key input :: rest =>
    -- A repeated image, an empty ring, an image off the curve's subgroup, or a zero relative
    -- offset after the first position each reject the whole transaction.
    !seen.contains input.keyImage && !input.outputIndexes.isEmpty && inValidDomain input.keyImage
      && !(input.outputIndexes.drop 1).contains 0
      && checkKeyInputsDiff inValidDomain (input.keyImage :: seen) rest
  | _ :: rest => checkKeyInputsDiff inValidDomain seen rest

/-- `core::check_tx_inputs_keyimages_diff`. -/
def checkTxInputsKeyimagesDiff (inValidDomain : KeyImage → Bool) (tx : Transaction) : Bool :=
  checkKeyInputsDiff inValidDomain [] tx.inputs

/-- The offsets the check admits: nothing after the first position is zero. -/
def OffsetsNonzeroAfterFirst (offsets : List UInt32) : Prop :=
  ∀ offset ∈ offsets.drop 1, offset ≠ 0

/-- The loop of `absolute_output_offsets_to_relative`: each offset less the one before it, in
32 bits. -/
def differences (previous : UInt32) : List UInt32 → List UInt32
  | [] => []
  | offset :: rest => (offset - previous) :: differences offset rest

/-- `absolute_output_offsets_to_relative`: the offsets sorted, then each one after the first less
the one before it. The loop runs from the back, so every subtraction reads an offset it has not
rewritten yet. -/
def absoluteOutputOffsetsToRelative (off : List UInt32) : List UInt32 :=
  match off.mergeSort fun a b => decide (a ≤ b) with
  | [] => []
  | first :: rest => first :: differences first rest

/-- The differences of a strictly increasing list are all nonzero. -/
theorem differences_ne_zero :
    ∀ {previous : UInt32} {rest : List UInt32}, (previous :: rest).Pairwise (· < ·) →
      ∀ offset ∈ differences previous rest, offset ≠ 0
  | _, [], _, _, member => by cases member
  | previous, next :: rest, increasing, offset, member => by
    rw [differences, List.mem_cons] at member
    rcases member with rfl | later
    · -- `next` is above `previous`, so their difference is not zero.
      have above := List.rel_of_pairwise_cons increasing List.mem_cons_self
      intro zero
      have exact := UInt32.toNat_sub_of_le _ _ (UInt32.le_of_lt above)
      rw [zero, UInt32.toNat_zero] at exact
      have := UInt32.lt_iff_toNat_lt.mp above
      omega
    · exact differences_ne_zero (List.pairwise_cons.mp increasing).2 offset later

/-- The relative offsets of a strictly increasing ring have no zero after the first position, as
`check_tx_inputs_keyimages_diff` requires. -/
theorem absoluteOutputOffsetsToRelative_nonzero {off : List UInt32}
    (increasing : off.Pairwise (· < ·)) :
    OffsetsNonzeroAfterFirst (absoluteOutputOffsetsToRelative off) := by
  -- Sorting leaves an increasing list as it is.
  have sorted : off.mergeSort (fun a b => decide (a ≤ b)) = off :=
    List.mergeSort_of_pairwise (increasing.imp fun less => decide_eq_true (UInt32.le_of_lt less))
  unfold absoluteOutputOffsetsToRelative
  rw [sorted]
  cases off with
  | nil => intro offset member; cases member
  | cons first rest =>
    intro offset member
    exact differences_ne_zero increasing offset (by simpa using member)

/--
A ring whose offsets pass `2^32` in their running sum is let through, and its absolute
offsets come back to an index already used.

Only zero offsets are refused, so the wrap of the `uint32_t` sum goes unnoticed.
-/
theorem checkTxInputsKeyimagesDiff_admits_repeated_index (inValidDomain : KeyImage → Bool)
    (tx : Transaction) (amount : UInt64) (image : KeyImage)
    (ring : tx.inputs = [.key ⟨amount, [5, 0xFFFFFFFF, 1], image⟩])
    (valid : inValidDomain image = true) :
    checkTxInputsKeyimagesDiff inValidDomain tx = true ∧
      relativeOutputOffsetsToAbsolute [5, 0xFFFFFFFF, 1] = [5, 4, 5] := by
  refine ⟨?_, by decide⟩
  simp [checkTxInputsKeyimagesDiff, checkKeyInputsDiff, ring, valid]

/-- The wrapping ring is admitted for a key image the curve check accepts. -/
theorem checkTxInputsKeyimagesDiff_admits_repeated_index_example :
    checkTxInputsKeyimagesDiff (fun _ => true)
        { version := 1, unlockTime := 0, extra := [], signatures := [], outputs := [],
          inputs := [.key ⟨1000, [5, 0xFFFFFFFF, 1], ⟨Vector.replicate 32 7⟩⟩] } = true ∧
      relativeOutputOffsetsToAbsolute [5, 0xFFFFFFFF, 1] = [5, 4, 5] :=
  checkTxInputsKeyimagesDiff_admits_repeated_index (fun _ => true) _ 1000
    ⟨Vector.replicate 32 7⟩ rfl rfl

end CryptoNote
