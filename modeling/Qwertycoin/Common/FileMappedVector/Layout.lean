import Qwertycoin.Common.FileMappedVector.Steps

/-!
The layout of a vector's file (`layout`): the prefix, the capacity and the size as `uint64_t`, the
room for the elements, and the suffix. A store at the offset of one part replaces that part, and
the reads of the code give the parts back. The fill that `atomicUpdate` hands to `atomicUpdate0`
turns the zeros `create` leaves into the old prefix and suffix, cut or padded to their new sizes,
the new size, and the pieces it copies one after the other (`atomicUpdateFill_fills`).
-/

namespace Common.FileMappedVector

open ByteFile

/-- A vector's file from its parts: the prefix, the capacity and the size as `uint64_t`, the room
for the elements, and the suffix. -/
def layout (pre : List UInt8) (capacity size : Nat) (data suf : List UInt8) : List UInt8 :=
  pre ++ podBytes 8 capacity ++ podBytes 8 size ++ data ++ suf

section Layout

variable {pre data suf : List UInt8} {capacity size : Nat}

@[simp] theorem length_layout :
    (layout pre capacity size data suf).length =
      pre.length + metadataSize + data.length + suf.length := by
  simp [layout, metadataSize]
  omega

theorem createdFile_eq (valueSize initialCapacity prefixSize suffixSize : Nat) :
    createdFile valueSize initialCapacity prefixSize suffixSize =
      layout (List.replicate prefixSize 0) initialCapacity 0
        (List.replicate (initialCapacity * valueSize) 0) (List.replicate suffixSize 0) := by
  simp only [createdFile, layout, podBytes_zero, List.append_assoc, List.replicate_append_replicate,
    Nat.add_assoc]

/-- A write over the prefix. -/
theorem writeAt_layout_front {bytes : List UInt8} (inside : bytes.length ≤ pre.length) :
    writeAt (layout pre capacity size data suf) 0 bytes =
      layout (writeAt pre 0 bytes) capacity size data suf := by
  have : 0 + bytes.length ≤ pre.length := by omega
  rw [layout, writeAt_append_left _ (by simp only [List.length_append, length_podBytes]; omega),
    writeAt_append_left _ (by simp only [List.length_append, length_podBytes]; omega),
    writeAt_append_left _ (by simp only [List.length_append, length_podBytes]; omega),
    writeAt_append_left _ this, layout]

/-- A write of the size. -/
theorem writeAt_layout_size {pos : Nat} (at_size : pos = pre.length + 8) (size' : Nat) :
    writeAt (layout pre capacity size data suf) pos (podBytes 8 size') =
      layout pre capacity size' data suf := by
  rw [at_size, layout, writeAt_append_left _ (by simp only [List.length_append, length_podBytes]; omega),
    writeAt_append_left _ (by simp only [List.length_append, length_podBytes]; omega),
    writeAt_append_right _ (by simp), List.length_append, length_podBytes, Nat.sub_self,
    writeAt_zero]
  simp [layout]

/-- A write into the room for the elements. -/
theorem writeAt_layout_data {at_data pos : Nat} (at_pos : at_data = pre.length + metadataSize + pos)
    {bytes : List UInt8} (inside : pos + bytes.length ≤ data.length) :
    writeAt (layout pre capacity size data suf) at_data bytes =
      layout pre capacity size (writeAt data pos bytes) suf := by
  rw [at_pos, layout, writeAt_append_left _ (by simp [metadataSize]; omega),
    writeAt_append_right _ (by simp [metadataSize])]
  simp [layout, metadataSize]

/-- A write over the suffix. -/
theorem writeAt_layout_back {pos : Nat} (at_back : pos = pre.length + metadataSize + data.length)
    (bytes : List UInt8) :
    writeAt (layout pre capacity size data suf) pos bytes =
      layout pre capacity size data (writeAt suf 0 bytes) := by
  rw [at_back, layout, writeAt_append_right _ (by simp [metadataSize]; omega)]
  simp [layout, metadataSize]
  congr 1
  omega

end Layout

/-- Pieces of element bytes that follow one another from byte `start` of the elements: each one's
element index is where the one before it ends. -/
def Consecutive (valueSize : Nat) : Nat → List (Nat × List UInt8) → Prop
  | _, [] => True
  | start, (index, bytes) :: more =>
    index * valueSize = start ∧ Consecutive valueSize (start + bytes.length) more

section Fill

variable {d : Disk} {v : FileMappedVector} (valueSize : Nat) {tmp : List Char}
  {pre data suf : List UInt8} {capacity size : Nat}

/-- The prefix copy turns the new file's zeros in front into the old prefix, cut or padded. -/
theorem copyPrefix_run {file oldPre : List UInt8} (prefixOf : oldPre <+: file)
    (prefixLength : v.prefixSize = oldPre.length) {newPrefixSize : Nat}
    (found : d.files tmp = some (layout (List.replicate newPrefixSize 0) capacity size data suf))
    (newSuffixSize : Nat) :
    ∃ d', (copyPrefix file v ⟨tmp, tmp, newPrefixSize, newSuffixSize⟩).run (d, v) = .ok () (d', v) ∧
      d'.files tmp = some (layout (resize oldPre newPrefixSize) capacity size data suf) ∧
      OnlyAt tmp d d' := by
  unfold copyPrefix
  dsimp only
  split_ifs with both
  · -- the bytes copied are the old prefix, cut to the new one's size
    have copied : file.take (min v.prefixSize newPrefixSize) = oldPre.take newPrefixSize := by
      obtain ⟨rest, rfl⟩ := prefixOf
      rw [prefixLength, List.take_append_of_le_length (Nat.min_le_left _ _), List.take_eq_take_iff]
      omega
    have padded : oldPre.take newPrefixSize ++
        List.replicate (newPrefixSize - (oldPre.take newPrefixSize).length) 0 =
        resize oldPre newPrefixSize := by
      rw [resize, List.length_take]
      congr 2
      omega
    rw [copied, storeBytes_run found (by simp; omega), writeAt_layout_front (by simp),
      writeAt_replicate_zero, padded]
    exact ⟨_, rfl, Function.update_self .., OnlyAt.commit_update d _⟩
  · -- with either prefix empty the zeros already are the old prefix, cut or padded
    have zeros : resize oldPre newPrefixSize = List.replicate newPrefixSize 0 := by
      rcases not_and_or.mp both with noOld | noNew
      · have empty : oldPre = [] :=
          List.eq_nil_of_length_eq_zero (prefixLength ▸ not_not.mp noOld)
        simp [empty, resize]
      · simp [not_not.mp noNew, resize]
    exact ⟨d, rfl, zeros ▸ found, OnlyAt.refl d⟩

/-- The suffix copy turns the new file's zeros at the back into the old suffix, cut or padded. -/
theorem copySuffix_run {file oldSuf : List UInt8}
    (suffixOf : (file.drop (v.prefixSize + metadataSize +
      storedCapacity file v.prefixSize * valueSize)).take v.suffixSize = oldSuf)
    (suffixLength : v.suffixSize = oldSuf.length) {newPrefixSize newSuffixSize newCapacity : Nat}
    (prefixLength : pre.length = newPrefixSize) (dataLength : data.length = newCapacity * valueSize)
    (found : d.files tmp = some (layout pre capacity size data (List.replicate newSuffixSize 0))) :
    ∃ d', (copySuffix valueSize file v ⟨tmp, tmp, newPrefixSize, newSuffixSize⟩ newCapacity).run
      (d, v) = .ok () (d', v) ∧
      d'.files tmp = some (layout pre capacity size data (resize oldSuf newSuffixSize)) ∧
      OnlyAt tmp d d' := by
  unfold copySuffix
  dsimp only
  split_ifs with both
  · -- the bytes copied are the old suffix, cut to the new one's size
    have copied : (file.drop (v.prefixSize + metadataSize +
        storedCapacity file v.prefixSize * valueSize)).take (min v.suffixSize newSuffixSize) =
        oldSuf.take newSuffixSize := by
      rw [← suffixOf, List.take_take, Nat.min_comm]
    have padded : oldSuf.take newSuffixSize ++
        List.replicate (newSuffixSize - (oldSuf.take newSuffixSize).length) 0 =
        resize oldSuf newSuffixSize := by
      rw [resize, List.length_take]
      congr 2
      omega
    have at_back : newPrefixSize + metadataSize + newCapacity * valueSize =
        pre.length + metadataSize + data.length := by
      rw [prefixLength, dataLength]
    rw [copied, storeBytes_run found (by simp; omega), writeAt_layout_back at_back,
      writeAt_replicate_zero, padded]
    exact ⟨_, rfl, Function.update_self .., OnlyAt.commit_update d _⟩
  · -- with either suffix empty the zeros already are the old suffix, cut or padded
    have zeros : resize oldSuf newSuffixSize = List.replicate newSuffixSize 0 := by
      rcases not_and_or.mp both with noOld | noNew
      · have empty : oldSuf = [] :=
          List.eq_nil_of_length_eq_zero (suffixLength ▸ not_not.mp noOld)
        simp [empty, resize]
      · simp [not_not.mp noNew, resize]
    exact ⟨d, rfl, zeros ▸ found, OnlyAt.refl d⟩

/-- Storing pieces that follow one another fills the room for the elements from the front. -/
theorem storePieces_run (v : FileMappedVector) {newPrefixSize : Nat}
    (prefixLength : pre.length = newPrefixSize) :
    ∀ (pieces : List (Nat × List UInt8)) (d : Disk) {done : List UInt8} {room : Nat},
      Consecutive valueSize done.length pieces → (pieces.flatMap Prod.snd).length ≤ room →
      d.files tmp = some (layout pre capacity size (done ++ List.replicate room 0) suf) →
      ∃ d', (pieces.forM fun piece =>
          storeBytes tmp (newPrefixSize + metadataSize + piece.1 * valueSize) piece.2).run (d, v) =
        .ok () (d', v) ∧
        d'.files tmp = some (layout pre capacity size (done ++ pieces.flatMap Prod.snd ++
          List.replicate (room - (pieces.flatMap Prod.snd).length) 0) suf) ∧ OnlyAt tmp d d'
  | [], d, done, room, _, _, found => ⟨d, rfl, by simpa using found, OnlyAt.refl d⟩
  | (index, bytes) :: more, d, done, room, ⟨starts, consecutive⟩, fits, found => by
    simp only [List.flatMap_cons, List.length_append] at fits
    -- the piece goes right after what is done, over zeros
    have stored : writeAt (done ++ List.replicate room 0) done.length bytes =
        (done ++ bytes) ++ List.replicate (room - bytes.length) 0 := by
      rw [writeAt_append_right _ (le_refl _), Nat.sub_self, writeAt_replicate_zero,
        List.append_assoc]
    rw [List.forM_eq_forM, List.forM_cons, EStateM.run_bind]
    dsimp only
    rw [storeBytes_run found (by simp; omega),
      writeAt_layout_data (by rw [starts, prefixLength]) (by simp; omega), stored]
    dsimp only
    obtain ⟨d', run, filled, only⟩ := storePieces_run v prefixLength more
      (d.commit (Function.update d.files tmp _))
      (show Consecutive valueSize (done ++ bytes).length more by simpa using consecutive)
      (show (more.flatMap Prod.snd).length ≤ room - bytes.length by omega) (Function.update_self ..)
    refine ⟨d', run, ?_, (OnlyAt.commit_update d _).trans only⟩
    rw [filled, List.flatMap_cons, List.length_append, Nat.sub_sub, List.append_assoc done]

theorem mapped_run {file : List UInt8} (found : d.files v.filePath = some file) :
    mapped.run (d, v) = .ok file (d, v) := by
  simp only [mapped, EStateM.run_bind, EStateM.run_get, found, Option.getD_some]
  rfl

/-- The fill of `atomicUpdate` leaves in the new file the old prefix and suffix, cut or padded, the
new capacity and size, and the pieces one after the other, followed by zeros. -/
theorem atomicUpdateFill_fills {file oldPre oldSuf : List UInt8} (prefixOf : oldPre <+: file)
    (prefixLength : v.prefixSize = oldPre.length)
    (suffixOf : (file.drop (v.prefixSize + metadataSize +
      storedCapacity file v.prefixSize * valueSize)).take v.suffixSize = oldSuf)
    (suffixLength : v.suffixSize = oldSuf.length) {copies : List UInt8 → List (Nat × List UInt8)}
    (consecutive : Consecutive valueSize 0 (copies file))
    {newSize newCapacity newPrefixSize newSuffixSize : Nat}
    (fits : ((copies file).flatMap Prod.snd).length ≤ newCapacity * valueSize) :
    Fills (atomicUpdateFill valueSize newSize newCapacity copies
        ⟨tmp, tmp, newPrefixSize, newSuffixSize⟩) v file tmp
      (createdFile valueSize newCapacity newPrefixSize newSuffixSize)
      (layout (resize oldPre newPrefixSize) newCapacity newSize
        ((copies file).flatMap Prod.snd ++ List.replicate
          (newCapacity * valueSize - ((copies file).flatMap Prod.snd).length) 0)
        (resize oldSuf newSuffixSize)) := by
  intro d created source
  rw [createdFile_eq] at created
  obtain ⟨d1, run1, filled1, only1⟩ := copyPrefix_run prefixOf prefixLength created newSuffixSize
  have sized : writeAt (layout (resize oldPre newPrefixSize) newCapacity 0
      (List.replicate (newCapacity * valueSize) 0) (List.replicate newSuffixSize 0))
      (newPrefixSize + 8) (podBytes 8 newSize) =
      layout (resize oldPre newPrefixSize) newCapacity newSize
        ([] ++ List.replicate (newCapacity * valueSize) 0) (List.replicate newSuffixSize 0) := by
    rw [writeAt_layout_size (by rw [length_resize]), List.nil_append]
  have sizedFound : (d1.commit (Function.update d1.files tmp (some (layout
      (resize oldPre newPrefixSize) newCapacity newSize ([] ++ List.replicate (newCapacity * valueSize) 0)
      (List.replicate newSuffixSize 0))))).files tmp = some (layout (resize oldPre newPrefixSize)
      newCapacity newSize ([] ++ List.replicate (newCapacity * valueSize) 0)
      (List.replicate newSuffixSize 0)) :=
    Function.update_self ..
  obtain ⟨d3, run3, filled3, only3⟩ := storePieces_run valueSize v (length_resize oldPre newPrefixSize)
    (copies file) _ (by simpa using consecutive) fits sizedFound
  have dataLength : ([] ++ (copies file).flatMap Prod.snd ++ List.replicate
      (newCapacity * valueSize - ((copies file).flatMap Prod.snd).length) 0).length =
      newCapacity * valueSize := by
    simp only [List.nil_append, List.length_append, List.length_replicate]
    omega
  obtain ⟨d4, run4, filled4, only4⟩ := copySuffix_run valueSize suffixOf suffixLength
    (length_resize oldPre newPrefixSize) dataLength filled3
  refine ⟨d4, ?_, by simpa using filled4,
    only1.trans ((OnlyAt.commit_update d1 _).trans (only3.trans only4))⟩
  simp only [atomicUpdateFill, EStateM.run_bind, mapped_run source, EStateM.run_get]
  rw [run1]
  dsimp only
  rw [storeBytes_run filled1 (by simp [metadataSize]; omega), sized]
  dsimp only
  rw [run3]
  exact run4

end Fill

section Read

variable {pre data suf : List UInt8} {capacity size : Nat}

/-- The file from the room for the elements on. -/
theorem drop_layout {pos : Nat} (at_data : pos = pre.length + metadataSize) :
    (layout pre capacity size data suf).drop pos = data ++ suf := by
  have front : (pre ++ podBytes 8 capacity ++ podBytes 8 size).length = pos := by
    simp [at_data, metadataSize]
  rw [layout, List.append_assoc _ data, List.drop_left' front]

theorem storedCapacity_layout (small : capacity < 2 ^ 64) :
    storedCapacity (layout pre capacity size data suf) pre.length = capacity := by
  rw [storedCapacity, layout, List.append_assoc, List.append_assoc, List.append_assoc,
    List.drop_left, List.take_left' (length_podBytes 8 capacity), littleEndian_podBytes]
  exact Nat.mod_eq_of_lt small

theorem storedSize_layout (small : size < 2 ^ 64) :
    storedSize (layout pre capacity size data suf) pre.length = size := by
  have front : (pre ++ podBytes 8 capacity).length = pre.length + 8 := by simp
  rw [storedSize, layout, List.append_assoc _ (podBytes 8 size), List.append_assoc _ _ suf,
    List.drop_left' front, List.append_assoc, List.take_left' (length_podBytes 8 size),
    littleEndian_podBytes]
  exact Nat.mod_eq_of_lt small

variable (valueSize : Nat)

theorem elementBytes_layout {first last : Nat} (ordered : first ≤ last)
    (inside : last * valueSize ≤ data.length) :
    elementBytes valueSize (layout pre capacity size data suf) pre.length first last =
      (data.drop (first * valueSize)).take ((last - first) * valueSize) := by
  have past : first * valueSize ≤ data.length :=
    (Nat.mul_le_mul_right valueSize ordered).trans inside
  have within : (last - first) * valueSize ≤ (data.drop (first * valueSize)).length := by
    rw [List.length_drop, Nat.sub_mul]
    omega
  rw [elementBytes, ← List.drop_drop, drop_layout rfl, List.drop_append_of_le_length past,
    List.take_append_of_le_length within]

/-- The suffix lies after the room for the capacity's elements. -/
theorem suffix_layout (dataLength : data.length = capacity * valueSize)
    (small : capacity < 2 ^ 64) :
    ((layout pre capacity size data suf).drop (pre.length + metadataSize +
      storedCapacity (layout pre capacity size data suf) pre.length * valueSize)).take
        suf.length = suf := by
  rw [storedCapacity_layout small, ← dataLength, ← List.drop_drop, drop_layout rfl,
    List.drop_left, List.take_length]

end Read

section Open

variable {d : Disk} {v : FileMappedVector} (valueSize : Nat)

theorem openFile_run {path : List Char} {file : List UInt8} (found : d.files path = some file)
    (nonempty : file ≠ []) : (openFile path).run (d, v) = .ok file (d, v) := by
  simp only [openFile, EStateM.run_bind, EStateM.run_get, found, if_neg nonempty]
  rfl

/-- Opening a file laid out for a vector whose size does not pass its capacity, and whose file is
shorter than `2 ^ 63` bytes, finds its prefix size and its suffix. -/
theorem openPath_run {path : List Char} {pre data suf : List UInt8} {capacity size : Nat}
    (found : d.files path = some (layout pre capacity size data suf)) (fits : size ≤ capacity)
    (dataLength : data.length = capacity * valueSize)
    (small : pre.length + metadataSize + capacity * valueSize + suf.length < 2 ^ 63)
    (capacitySmall : capacity < 2 ^ 64) :
    (openPath valueSize path pre.length).run (d, v) =
      .ok ⟨path, path, pre.length, suf.length⟩ (d, v) := by
  have sizeSmall : size < 2 ^ 64 := by omega
  have length : (layout pre capacity size data suf).length =
      pre.length + metadataSize + capacity * valueSize + suf.length := by
    rw [length_layout, dataLength]
  have nonempty : layout pre capacity size data suf ≠ [] := by
    intro empty
    have := congrArg List.length empty
    simp [metadataSize] at this
  have required : (pre.length + metadataSize + capacity * valueSize) % 2 ^ 64 =
      pre.length + metadataSize + capacity * valueSize := Nat.mod_eq_of_lt (by omega)
  have notShort : ¬(pre.length + metadataSize + capacity * valueSize + suf.length <
      (pre.length + metadataSize) % 2 ^ 64) := by
    rw [Nat.mod_eq_of_lt (by omega)]
    omega
  simp only [openPath, EStateM.run_bind, openFile_run found nonempty, storedSize_layout sizeSmall,
    storedCapacity_layout capacitySmall, required, length, notShort, if_false, gt_iff_lt,
    Nat.not_lt.mpr fits]
  rw [if_neg (by omega), Nat.add_sub_cancel_left]
  rfl

theorem restoreBak_run_of_found (d : Disk) (v : FileMappedVector) {path : List Char}
    {file : List UInt8} (found : d.files path = some file) :
    ∃ d', (restoreBak path).run (d, v) = .ok true (d', v) ∧ d'.files path = some file ∧
      OnlyAt (bakPath path) d d' := by
  obtain ⟨d', removed, -, only⟩ := removeIfExists_run d v (bakPath path)
  refine ⟨d', ?_, (only.files_eq _ (bakPath_ne path).symm).trans found, only⟩
  simp only [restoreBak, EStateM.run_bind, fileExists_run, found, Option.isSome_some, if_true,
    removed]
  rfl

theorem restoreBak_run_of_bak (d : Disk) (v : FileMappedVector) {path : List Char} {file : List UInt8}
    (absent : d.files path = none) (found : d.files (bakPath path) = some file) :
    (restoreBak path).run (d, v) = .ok true
      (d.commit (Function.update (Function.update d.files (bakPath path) none) path (some file)), v) := by
  simp only [restoreBak, EStateM.run_bind, fileExists_run, absent, found, Option.isSome_none,
    Option.isSome_some, Bool.false_eq_true, if_false, if_true, renameFile_run found]
  rfl

/-- `open` in a mode that opens an existing file, after `restoreBak` found one: the vector is what
`open(path, prefixSize)` gives. -/
theorem open_run {path : List Char} {mode : FileMappedVectorOpenMode}
    (opens : mode ≠ .create) {prefixSize : Nat} {d' : Disk} {w : FileMappedVector}
    (restored : (restoreBak path).run (d, v) = .ok true (d', v))
    (opened : (openPath valueSize path prefixSize).run (d', v) = .ok w (d', v)) :
    («open» valueSize path mode prefixSize).run (d, v) = .ok () (d', w) := by
  simp only [«open», EStateM.run_bind, restored]
  cases mode with
  | «open» => rw [EStateM.run_bind, opened]; rfl
  | create => exact absurd rfl opens
  | openOrCreate =>
    show (if True then _ else _ : Op Unit).run (d', v) = _
    rw [if_pos trivial, EStateM.run_bind, opened]
    rfl

end Open

end Common.FileMappedVector
