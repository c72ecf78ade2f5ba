import Qwertycoin.Common.FileMappedVector.Layout

namespace Common.FileMappedVector

open ByteFile

/-- What a file-mapped vector holds: its prefix, its elements of `valueSize` bytes each, its
capacity and its suffix, never more elements than the capacity. -/
@[ext]
structure Model (valueSize : Nat) where
  prefixBytes : List UInt8
  elements : List (Vector UInt8 valueSize)
  capacity : Nat
  suffixBytes : List UInt8
  size_le_capacity : elements.length ≤ capacity

/-- Elements as byte lists all have the element size. -/
theorem length_of_mem_map_toList {valueSize : Nat} {records : List (Vector UInt8 valueSize)} :
    ∀ record ∈ records.map Vector.toList, record.length = valueSize := by
  intro record member
  obtain ⟨element, -, rfl⟩ := List.mem_map.mp member
  exact element.length_toList

/-- Elements of `valueSize` bytes each, one after the other, take `valueSize` bytes each. -/
theorem length_flatten_map_toList {valueSize : Nat} (records : List (Vector UInt8 valueSize)) :
    (records.map Vector.toList).flatten.length = records.length * valueSize := by
  simp [List.length_flatten, Function.comp_def, List.map_const']

namespace Model

variable {valueSize : Nat} (m : Model valueSize)

/-- The elements' bytes, one after the other. -/
def bytes : List UInt8 := (m.elements.map Vector.toList).flatten

/-- The length of the vector's file. -/
def fileSize : Nat :=
  m.prefixBytes.length + metadataSize + m.capacity * valueSize + m.suffixBytes.length

/-- The vector's file, with `spare` in the room past the last element. -/
def file (spare : List UInt8) : List UInt8 :=
  layout m.prefixBytes m.capacity m.elements.length (m.bytes ++ spare) m.suffixBytes

/-- `nextCapacity()`. -/
def nextCapacity : Nat := m.capacity + m.capacity / 2 + 1

theorem length_bytes : m.bytes.length = m.elements.length * valueSize :=
  length_flatten_map_toList m.elements

theorem length_file (spare : List UInt8)
    (spareLength : spare.length = (m.capacity - m.elements.length) * valueSize) :
    (m.file spare).length = m.fileSize := by
  have := m.size_le_capacity
  have room : m.elements.length * valueSize + (m.capacity - m.elements.length) * valueSize =
      m.capacity * valueSize := by
    rw [← Nat.add_mul, Nat.add_sub_cancel' this]
  simp only [file, length_layout, List.length_append, length_bytes, spareLength, room, fileSize]

/-- The bytes of the elements from `first` up to `last`, read from the model's file as `std::copy`
reads them. -/
theorem elementBytes_file (spare : List UInt8) {first last : Nat} (ordered : first ≤ last)
    (inRange : last ≤ m.elements.length) :
    elementBytes valueSize (m.file spare) m.prefixBytes.length first last =
      (((m.elements.drop first).take (last - first)).map Vector.toList).flatten := by
  have past : first * valueSize ≤ m.bytes.length := by
    rw [length_bytes]
    exact Nat.mul_le_mul_right _ (ordered.trans inRange)
  have within : (last - first) * valueSize ≤ (m.bytes.drop (first * valueSize)).length := by
    rw [List.length_drop, length_bytes, Nat.sub_mul]
    exact Nat.sub_le_sub_right (Nat.mul_le_mul_right _ inRange) _
  have inside : last * valueSize ≤ (m.bytes ++ spare).length := by
    rw [List.length_append, length_bytes]
    exact (Nat.mul_le_mul_right _ inRange).trans (Nat.le_add_right _ _)
  -- the pieces of the flattened elements are the elements cut at the same places
  rw [file, elementBytes_layout valueSize ordered inside, List.drop_append_of_le_length past,
    List.take_append_of_le_length within, bytes, Nat.mul_comm first,
    drop_flatten_of_width length_of_mem_map_toList, ← List.map_drop, Nat.mul_comm,
    take_flatten_of_width length_of_mem_map_toList, List.map_take]

/-! ### The operations on the model -/

/-- `push_back`: the value after the last element, the capacity grown to `nextCapacity` when
there is no room. -/
def pushBack (value : Vector UInt8 valueSize) : Model valueSize where
  prefixBytes := m.prefixBytes
  elements := m.elements ++ [value]
  capacity := if m.capacity = m.elements.length then m.nextCapacity else m.capacity
  suffixBytes := m.suffixBytes
  size_le_capacity := by
    have := m.size_le_capacity
    split <;> simp only [List.length_append, List.length_singleton, nextCapacity] <;> omega

/-- `pop_back`: the last element goes. -/
def popBack : Model valueSize :=
  { m with
    elements := m.elements.dropLast
    size_le_capacity := by
      have := m.size_le_capacity
      simp only [List.length_dropLast]
      omega }

/-- `clear`: no elements. -/
def clear : Model valueSize :=
  { m with elements := [], size_le_capacity := Nat.zero_le _ }

/-- `insert(position, first, last)`: the values go in at the position, and the capacity grows to
`nextCapacity`, or to the new size when that is more, if the new size passes it. -/
def insert (position : Nat) (values : List (Vector UInt8 valueSize)) : Model valueSize where
  prefixBytes := m.prefixBytes
  elements := m.elements.take position ++ values ++ m.elements.drop position
  capacity := if m.elements.length + values.length > m.capacity then
      max m.nextCapacity (m.elements.length + values.length)
    else m.capacity
  suffixBytes := m.suffixBytes
  size_le_capacity := by
    have := m.size_le_capacity
    simp only [List.length_append, List.length_take, List.length_drop]
    split <;> omega

/-- `erase(first, last)`, with `count` the elements from `first` on that go. -/
def erase (first count : Nat) : Model valueSize :=
  { m with
    elements := m.elements.take first ++ m.elements.drop (first + count)
    size_le_capacity := by
      have := m.size_le_capacity
      simp only [List.length_append, List.length_take, List.length_drop]
      omega }

/-- `reserve(n)`: the capacity grows to `n` when that is more. -/
def reserve (n : Nat) : Model valueSize :=
  { m with
    capacity := max m.capacity n
    size_le_capacity := m.size_le_capacity.trans (Nat.le_max_left _ _) }

/-- `shrink_to_fit()`: the capacity comes down to the size. -/
def shrinkToFit : Model valueSize :=
  { m with capacity := m.elements.length, size_le_capacity := le_refl _ }

/-- `resizePrefix(n)`: the prefix cut, or padded with zeros, to `n` bytes. -/
def resizePrefix (n : Nat) : Model valueSize :=
  { m with prefixBytes := resize m.prefixBytes n }

/-- `resizeSuffix(n)`: the suffix cut, or padded with zeros, to `n` bytes. -/
def resizeSuffix (n : Nat) : Model valueSize :=
  { m with suffixBytes := resize m.suffixBytes n }

end Model

section Refinement

variable (valueSize : Nat)

/-- The vector and the disk hold the model: the vector maps the file at its own path, its prefix
and suffix sizes are the model's, the file is laid out for the model with anything in the room past
the last element, and it is shorter than `2 ^ 63` bytes, as every file `create` makes is. -/
structure Represents (s : Disk × FileMappedVector) (m : Model valueSize) : Prop where
  mapped : s.2.filePath = s.2.path
  prefixSize_eq : s.2.prefixSize = m.prefixBytes.length
  suffixSize_eq : s.2.suffixSize = m.suffixBytes.length
  stored : ∃ spare : List UInt8, spare.length = (m.capacity - m.elements.length) * valueSize ∧
    s.1.files s.2.path = some (m.file spare)
  fits : m.fileSize < 2 ^ 63

/-- Opening the files with `open(path, mode, prefixSize)`, in a mode that opens an existing file
and with the model's prefix size, gives a vector holding the model, whatever object it opens and
whatever files the system refuses. -/
def Opens (files : List Char → Option (List UInt8)) (path : List Char) (m : Model valueSize) :
    Prop :=
  ∀ mode ≠ FileMappedVectorOpenMode.create, ∀ v : FileMappedVector, ∀ refuses, ∃ s,
    («open» valueSize path mode m.prefixBytes.length).run (⟨files, [], refuses⟩, v) = .ok () s ∧
      Represents valueSize s m

namespace Represents

variable {valueSize} {d : Disk} {v : FileMappedVector} {m : Model valueSize}

/-- The file the vector maps is laid out for the model. -/
theorem mapped_file (represents : Represents valueSize (d, v) m) :
    ∃ spare : List UInt8, spare.length = (m.capacity - m.elements.length) * valueSize ∧
      d.files v.filePath = some (m.file spare) := by
  obtain ⟨spare, spareLength, stored⟩ := represents.stored
  exact ⟨spare, spareLength, represents.mapped ▸ stored⟩

/-- With elements of at least one byte, the capacity fits the `uint64_t` it is stored in. -/
theorem capacity_lt (represents : Represents valueSize (d, v) m) (positive : 0 < valueSize) :
    m.capacity < 2 ^ 63 := by
  have := represents.fits
  have : m.capacity ≤ m.capacity * valueSize := Nat.le_mul_of_pos_right _ positive
  simp only [Model.fileSize] at *
  omega

theorem capacity_run (represents : Represents valueSize (d, v) m) (positive : 0 < valueSize) :
    capacity.run (d, v) = .ok m.capacity (d, v) := by
  obtain ⟨spare, -, found⟩ := represents.mapped_file
  have small : m.capacity < 2 ^ 64 := (represents.capacity_lt positive).trans (by norm_num)
  have prefixSize : v.prefixSize = m.prefixBytes.length := represents.prefixSize_eq
  simp only [capacity, EStateM.run_bind, mapped_run found, EStateM.run_get, prefixSize,
    Model.file, storedCapacity_layout small]
  rfl

theorem size_run (represents : Represents valueSize (d, v) m) (positive : 0 < valueSize) :
    size.run (d, v) = .ok m.elements.length (d, v) := by
  obtain ⟨spare, -, found⟩ := represents.mapped_file
  have small : m.elements.length < 2 ^ 64 :=
    (m.size_le_capacity.trans_lt (represents.capacity_lt positive)).trans (by norm_num)
  have prefixSize : v.prefixSize = m.prefixBytes.length := represents.prefixSize_eq
  simp only [size, EStateM.run_bind, mapped_run found, EStateM.run_get, prefixSize, Model.file,
    storedSize_layout small]
  rfl

end Represents

theorem length_bytes_append {m : Model valueSize} {spare : List UInt8}
    (spareLength : spare.length = (m.capacity - m.elements.length) * valueSize) :
    (m.bytes ++ spare).length = m.capacity * valueSize := by
  have := m.size_le_capacity
  rw [List.length_append, m.length_bytes, spareLength, ← Nat.add_mul, Nat.add_sub_cancel' this]

/-- Files with the model's file at the path, or with no file there and the model's file at
`.bak`, open as the model. -/
theorem opens_of_stored {files : List Char → Option (List UInt8)} {path : List Char}
    {m : Model valueSize} (positive : 0 < valueSize) (fits : m.fileSize < 2 ^ 63)
    {spare : List UInt8} (spareLength : spare.length = (m.capacity - m.elements.length) * valueSize)
    (found : files path = some (m.file spare) ∨
      (files path = none ∧ files (bakPath path) = some (m.file spare))) :
    Opens valueSize files path m := by
  intro mode opens v refuses
  have capacitySmall : m.capacity < 2 ^ 64 := by
    have : m.capacity ≤ m.capacity * valueSize := Nat.le_mul_of_pos_right _ positive
    simp only [Model.fileSize] at fits
    omega
  -- after `restoreBak` the model's file is at the path, and `open(path, prefixSize)` reads it
  have opened : ∀ d' : Disk, d'.files path = some (m.file spare) →
      (openPath valueSize path m.prefixBytes.length).run (d', v) =
        .ok ⟨path, path, m.prefixBytes.length, m.suffixBytes.length⟩ (d', v) := fun d' stored =>
    openPath_run valueSize stored m.size_le_capacity (length_bytes_append valueSize spareLength) fits
      capacitySmall
  have represents : ∀ d' : Disk, d'.files path = some (m.file spare) →
      Represents valueSize (d', ⟨path, path, m.prefixBytes.length, m.suffixBytes.length⟩) m :=
    fun d' stored => ⟨rfl, rfl, rfl, ⟨spare, spareLength, stored⟩, fits⟩
  rcases found with atPath | ⟨absent, atBak⟩
  · obtain ⟨d', restored, stored, -⟩ :=
      restoreBak_run_of_found ⟨files, [], refuses⟩ v atPath
    exact ⟨_, open_run valueSize opens restored (opened d' stored), represents d' stored⟩
  · have stored : (Disk.commit ⟨files, [], refuses⟩ (Function.update (Function.update files (bakPath path)
        none) path (some (m.file spare)))).files path = some (m.file spare) := Function.update_self ..
    exact ⟨_, open_run valueSize opens (restoreBak_run_of_bak ⟨files, [], refuses⟩ v absent atBak)
      (opened _ stored), represents _ stored⟩

/-- What a crash during an update from `m` to `m'` leaves opens as `m` or as `m'`. -/
theorem survives_opens {files : List Char → Option (List UInt8)} {path : List Char}
    {m m' : Model valueSize} (positive : 0 < valueSize) (fits : m.fileSize < 2 ^ 63)
    (fits' : m'.fileSize < 2 ^ 63) {spare spare' : List UInt8}
    (spareLength : spare.length = (m.capacity - m.elements.length) * valueSize)
    (spareLength' : spare'.length = (m'.capacity - m'.elements.length) * valueSize)
    (survives : Survives path (m.file spare) (m'.file spare') files) :
    Opens valueSize files path m ∨ Opens valueSize files path m' := by
  rcases survives with old | moved | new
  · exact Or.inl (opens_of_stored valueSize positive fits spareLength (Or.inl old))
  · exact Or.inl (opens_of_stored valueSize positive fits spareLength (Or.inr moved))
  · exact Or.inr (opens_of_stored valueSize positive fits' spareLength' (Or.inl new))

/-- What a call leaves, from a state `s`: the vector keeps its path, no file appears in the place of
a new file beside it, the system refuses the same files, and every state of the files that a crash during the call leaves opens as one of the models `passes`. -/
structure Leaves (passes : List (Model valueSize))
    (s s' : Disk × FileMappedVector) : Prop where
  path_eq : s'.2.path = s.2.path
  tmps_free : ∀ token, s.1.files (tmpPath s.2.path token) = none →
    s'.1.files (tmpPath s.2.path token) = none
  refuses_eq : s'.1.refuses = s.1.refuses
  crashes : ∃ more, s'.1.crashes = s.1.crashes ++ more ∧
    ∀ f ∈ more, ∃ mid ∈ passes, Opens valueSize f s.2.path mid

/-- A call from a state `s` holding `m`, with `m'` what it makes of the model: it returns with the
vector holding `m'`, or throws with the vector still holding `m`, and throws only when there is a
file at `tmp`, or `m'` needs a file of `2 ^ 63` bytes or more or one the system refuses. -/
def Ends (x : Op Unit) (tmp : List Char) (s : Disk × FileMappedVector) (m m' : Model valueSize)
    (passes : List (Model valueSize)) : Prop :=
  ∃ s', Leaves valueSize passes s s' ∧
    ((x.run s = .ok () s' ∧ Represents valueSize s' m') ∨
      ((∃ e, x.run s = .error e s') ∧ Represents valueSize s' m ∧
        (s.1.files tmp = none → 2 ^ 63 ≤ m'.fileSize ∨ (s.1.refuses m'.fileSize).isSome)))

variable {valueSize}

theorem Leaves.refl (passes : List (Model valueSize)) (s : Disk × FileMappedVector) :
    Leaves valueSize passes s s :=
  ⟨rfl, fun _ => id, rfl, [], by simp, by simp⟩

/-- A step that leaves the place of its own new file free and the places of all other new files as
they were leaves free every such place that was. -/
theorem tmpPath_free_of_frame {d d' : Disk} {path token : List Char}
    (tmpFree : d'.files (tmpPath path token) = none)
    (others : ∀ other, other ≠ token → d'.files (tmpPath path other) = d.files (tmpPath path other))
    (other : List Char) (absent : d.files (tmpPath path other) = none) :
    d'.files (tmpPath path other) = none := by
  by_cases same : other = token
  · rw [same]
    exact tmpFree
  · rw [others other same]
    exact absent

section Update

variable {d : Disk} {v : FileMappedVector} {m m' : Model valueSize} {token : List Char}
  {newSize newCapacity newPrefixSize newSuffixSize : Nat}
  {copies : List UInt8 → List (Nat × List UInt8)}

/-- An update through a new file, whose pieces copied from the vector's file are the elements of
`m'` one after the other, and whose prefix, suffix, capacity and size are those of `m'`, takes the
vector from `m` to `m'`. -/
theorem atomicUpdate_ends (positive : 0 < valueSize) (represents : Represents valueSize (d, v) m)
    (prefixEq : m'.prefixBytes = resize m.prefixBytes newPrefixSize)
    (suffixEq : m'.suffixBytes = resize m.suffixBytes newSuffixSize)
    (capacityEq : m'.capacity = newCapacity) (sizeEq : m'.elements.length = newSize)
    (copied : ∀ spare : List UInt8, spare.length = (m.capacity - m.elements.length) * valueSize →
      Consecutive valueSize 0 (copies (m.file spare)) ∧
        (copies (m.file spare)).flatMap Prod.snd = m'.bytes)
    (small : m'.fileSize < 2 ^ 64) :
    Ends valueSize
      (atomicUpdate valueSize token newSize newCapacity newPrefixSize newSuffixSize copies)
      (tmpPath v.path token) (d, v) m m' [m, m'] := by
  obtain ⟨spare, spareLength, found⟩ := represents.stored
  obtain ⟨consecutive, pieces⟩ := copied spare spareLength
  have mapped : v.filePath = v.path := represents.mapped
  have prefixSize : v.prefixSize = m.prefixBytes.length := represents.prefixSize_eq
  have suffixSize : v.suffixSize = m.suffixBytes.length := represents.suffixSize_eq
  have capacitySmall : m.capacity < 2 ^ 64 :=
    (represents.capacity_lt positive).trans (by norm_num)
  -- the old prefix and suffix, as the copies read them from the vector's file
  have prefixOf : m.prefixBytes <+: m.file spare := by
    rw [Model.file, layout, List.append_assoc, List.append_assoc, List.append_assoc]
    exact List.prefix_append _ _
  have suffixOf : ((m.file spare).drop (v.prefixSize + metadataSize +
      storedCapacity (m.file spare) v.prefixSize * valueSize)).take v.suffixSize =
      m.suffixBytes := by
    rw [prefixSize, suffixSize]
    exact suffix_layout valueSize (length_bytes_append valueSize spareLength) capacitySmall
  have fits : ((copies (m.file spare)).flatMap Prod.snd).length ≤ newCapacity * valueSize := by
    rw [pieces, m'.length_bytes, ← capacityEq]
    exact Nat.mul_le_mul_right _ m'.size_le_capacity
  -- the new file is the file of `m'`, with zeros past its last element
  have newFile : layout (resize m.prefixBytes newPrefixSize) newCapacity newSize
      ((copies (m.file spare)).flatMap Prod.snd ++ List.replicate
        (newCapacity * valueSize - ((copies (m.file spare)).flatMap Prod.snd).length) 0)
      (resize m.suffixBytes newSuffixSize) =
      m'.file (List.replicate (newCapacity * valueSize - m'.bytes.length) 0) := by
    rw [pieces, Model.file, prefixEq, suffixEq, capacityEq, sizeEq]
  have spareLength' :
      (List.replicate (newCapacity * valueSize - m'.bytes.length) (0 : UInt8)).length =
      (m'.capacity - m'.elements.length) * valueSize := by
    rw [List.length_replicate, m'.length_bytes, capacityEq, Nat.sub_mul]
  have fileSize : newPrefixSize + metadataSize + newCapacity * valueSize + newSuffixSize =
      m'.fileSize := by
    simp only [Model.fileSize, prefixEq, suffixEq, capacityEq, length_resize]
  have fills : Fills (atomicUpdateFill valueSize newSize newCapacity copies
      ⟨tmpPath v.path token, tmpPath v.path token, newPrefixSize, newSuffixSize⟩) v (m.file spare)
      (tmpPath v.path token) (createdFile valueSize newCapacity newPrefixSize newSuffixSize)
      (m'.file (List.replicate (newCapacity * valueSize - m'.bytes.length) 0)) :=
    newFile ▸ atomicUpdateFill_fills valueSize prefixOf prefixSize suffixOf suffixSize consecutive
      fits
  by_cases free : d.files (tmpPath v.path token) = none ∧ m'.fileSize < 2 ^ 63 ∧
    d.refuses m'.fileSize = none
  · -- the update runs to its end and leaves the new file at the vector's path
    obtain ⟨d', run, stored, tmpFree, refuses, others, more, crashes, survive⟩ :=
      atomicUpdate0_run valueSize mapped found free.1 (fileSize ▸ free.2.1) (fileSize ▸ free.2.2)
        fills
    refine ⟨(d', ⟨v.path, v.path, newPrefixSize, newSuffixSize⟩),
      ⟨rfl, tmpPath_free_of_frame tmpFree fun other differs => others _ (tmpPath_ne v.path other)
        (tmpPath_ne_bakPath v.path other) (tmpPath_ne_tmpPath differs), refuses, more, crashes,
        fun f member => ?_⟩, Or.inl ⟨run, ?_⟩⟩
    · rcases survives_opens valueSize positive represents.fits free.2.1 spareLength spareLength'
        (survive f member) with before | after
      · exact ⟨m, by simp, before⟩
      · exact ⟨m', by simp, after⟩
    · refine ⟨rfl, ?_, ?_, ⟨_, spareLength', stored⟩, free.2.1⟩
      · simp only [prefixEq, length_resize]
      · simp only [suffixEq, length_resize]
  · -- `create` fails on the new file, which goes again, and the vector's file stays
    have fails : (d.files (tmpPath v.path token)).isSome ∨
        2 ^ 63 ≤ (newPrefixSize + metadataSize + newCapacity * valueSize + newSuffixSize) %
          2 ^ 64 ∨
        (newPrefixSize + metadataSize + newCapacity * valueSize + newSuffixSize) % 2 ^ 64 = 0 ∨
        (d.refuses ((newPrefixSize + metadataSize + newCapacity * valueSize + newSuffixSize) %
          2 ^ 64)).isSome := by
      rw [fileSize, Nat.mod_eq_of_lt small]
      rcases not_and_or.mp free with taken | rest
      · exact Or.inl (Option.ne_none_iff_isSome.mp taken)
      rcases not_and_or.mp rest with large | refused
      · exact Or.inr (Or.inl (not_lt.mp large))
      · exact Or.inr (Or.inr (Or.inr (Option.ne_none_iff_isSome.mp refused)))
    obtain ⟨e, d', throws, stored, tmpFree, refuses, others, more, crashes, kept⟩ :=
      atomicUpdate0_run_of_fails valueSize mapped found fails
    refine ⟨(d', v), ⟨rfl, tmpPath_free_of_frame tmpFree fun other differs =>
        others _ (tmpPath_ne_bakPath v.path other) (tmpPath_ne_tmpPath differs), refuses, more,
        crashes, fun f member => ⟨m, by simp, ?_⟩⟩, Or.inr ⟨⟨e, throws⟩, ⟨mapped, prefixSize,
        suffixSize, ⟨spare, spareLength, stored⟩, represents.fits⟩, fun absent => ?_⟩⟩
    · exact opens_of_stored valueSize positive represents.fits spareLength (Or.inl (kept f member))
    · rcases Nat.lt_or_ge m'.fileSize (2 ^ 63) with fit | large
      · exact Or.inr (Option.ne_none_iff_isSome.mp fun accepted => free ⟨absent, fit, accepted⟩)
      · exact Or.inl large

end Update

end Refinement

end Common.FileMappedVector
