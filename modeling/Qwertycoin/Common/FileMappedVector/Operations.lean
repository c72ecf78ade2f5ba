import Qwertycoin.Common.FileMappedVector.Refinement

/-!
Each operation of `FileMappedVector`, run on a vector that holds a model, takes it to the model the
operation makes of it. `push_back`, `pop_back` and `clear` store into the file in place; the others
copy into a new file through `atomicUpdate`, and throw, leaving the vector as it was, only when a file
is in the new file's place or the new file would have `2 ^ 63` bytes or more.
-/

namespace Common.FileMappedVector

open ByteFile

variable {valueSize : Nat}

namespace Leaves

variable {passes passes' : List (Model valueSize)}
  {s s' s'' : Disk × FileMappedVector}

/-- One call after another leaves what the two leave, the crashes of both. -/
theorem trans (first : Leaves valueSize passes s s')
    (second : Leaves valueSize passes' s' s'') :
    Leaves valueSize (passes ++ passes') s s'' := by
  obtain ⟨more, crashes, opens⟩ := first.crashes
  obtain ⟨more', crashes', opens'⟩ := second.crashes
  -- the second call starts where the first left the vector's path
  have tmps : ∀ token, s.1.files (tmpPath s.2.path token) = none →
      s''.1.files (tmpPath s.2.path token) = none := by
    intro token free
    have later := second.tmps_free token
    rw [first.path_eq] at later
    exact later (first.tmps_free token free)
  refine ⟨second.path_eq.trans first.path_eq, tmps,
    second.refuses_eq.trans first.refuses_eq, more ++ more',
    by rw [crashes', crashes, List.append_assoc], fun f member => ?_⟩
  rcases List.mem_append.mp member with early | late
  · obtain ⟨mid, passed, opened⟩ := opens f early
    exact ⟨mid, List.mem_append_left _ passed, opened⟩
  · obtain ⟨mid, passed, opened⟩ := opens' f late
    exact ⟨mid, List.mem_append_right _ passed, first.path_eq ▸ opened⟩

theorem mono (leaves : Leaves valueSize passes s s') (subset : passes ⊆ passes') :
    Leaves valueSize passes' s s' := by
  obtain ⟨more, crashes, opens⟩ := leaves.crashes
  refine ⟨leaves.path_eq, leaves.tmps_free, leaves.refuses_eq, more, crashes, fun f member => ?_⟩
  obtain ⟨mid, passed, opened⟩ := opens f member
  exact ⟨mid, subset passed, opened⟩

end Leaves

namespace Model

variable (m : Model valueSize)

/-- Without its last element the model's bytes are the old ones without the last element's. -/
theorem bytes_popBack (nonempty : m.elements ≠ []) :
    m.popBack.bytes ++ (m.elements.getLast nonempty).toList = m.bytes := by
  conv_rhs => rw [bytes, ← List.dropLast_concat_getLast nonempty]
  simp [bytes, popBack]

theorem bytes_pushBack (value : Vector UInt8 valueSize) :
    (m.pushBack value).bytes = m.bytes ++ value.toList := by
  simp [bytes, pushBack]

theorem capacity_pushBack_of_lt (room : m.elements.length < m.capacity)
    (value : Vector UInt8 valueSize) : (m.pushBack value).capacity = m.capacity :=
  if_neg (Nat.ne_of_gt room)

theorem reserve_of_le {n : Nat} (le : n ≤ m.capacity) : m.reserve n = m :=
  Model.ext rfl rfl (max_eq_left le) rfl

/-- With no room left, `push_back` is `reserve(nextCapacity())` and then the push into the room. -/
theorem pushBack_of_full (full : m.capacity = m.elements.length) (value : Vector UInt8 valueSize) :
    m.pushBack value = (m.reserve m.nextCapacity).pushBack value := by
  have grows : m.capacity < m.nextCapacity := by
    simp only [nextCapacity]
    omega
  refine Model.ext rfl rfl ?_ rfl
  simp only [pushBack, reserve, if_pos full, max_eq_right grows.le]
  rw [if_neg (by rw [← full]; exact Nat.ne_of_gt grows)]

end Model

section InPlace

variable {d : Disk} {v : FileMappedVector} {m : Model valueSize}

/-- A store into the vector's file, mapped from `file`, that leaves it laid out for `m'`, a model
with the prefix and suffix sizes and the file size of `m`, takes the vector to `m'`; a crash after it
finds `m'`. -/
theorem storeBytes_represents (positive : 0 < valueSize)
    (represents : Represents valueSize (d, v) m) (m' : Model valueSize)
    (prefixLength : m'.prefixBytes.length = m.prefixBytes.length)
    (suffixLength : m'.suffixBytes.length = m.suffixBytes.length)
    (fileSize : m'.fileSize = m.fileSize) {file : List UInt8}
    (found : d.files v.filePath = some file) {pos : Nat} {bytes : List UInt8}
    (inside : pos + bytes.length ≤ file.length) {spare' : List UInt8}
    (spareLength' : spare'.length = (m'.capacity - m'.elements.length) * valueSize)
    (written : writeAt file pos bytes = m'.file spare') :
    ∃ d', (storeBytes v.filePath pos bytes).run (d, v) = .ok () (d', v) ∧
      d'.files v.filePath = some (m'.file spare') ∧ Represents valueSize (d', v) m' ∧
      Leaves valueSize [m'] (d, v) (d', v) := by
  have mapped : v.filePath = v.path := represents.mapped
  have fits : m'.fileSize < 2 ^ 63 := fileSize ▸ represents.fits
  have storedAt : Function.update d.files v.filePath (some (writeAt file pos bytes)) v.path =
      some (m'.file spare') := by
    rw [mapped, Function.update_self, written]
  refine ⟨_, storeBytes_run found inside, mapped ▸ storedAt,
    ⟨mapped, ?_, ?_, ⟨spare', spareLength', storedAt⟩, fits⟩,
    ⟨rfl, fun token free => ?_, rfl, [_], rfl, fun f member => ⟨m', by simp, ?_⟩⟩⟩
  · exact represents.prefixSize_eq.trans prefixLength.symm
  · exact represents.suffixSize_eq.trans suffixLength.symm
  · -- the store touches the vector's file only
    show Function.update d.files v.filePath _ (tmpPath v.path token) = none
    rw [mapped, Function.update_of_ne (tmpPath_ne v.path token)]
    exact free
  · rw [List.mem_singleton.mp member]
    exact opens_of_stored valueSize positive fits spareLength' (Or.inl storedAt)

/-- A store into the vector's file is inside it when it ends by the first element. -/
theorem Represents.length_mapped (represents : Represents valueSize (d, v) m) {spare : List UInt8}
    (spareLength : spare.length = (m.capacity - m.elements.length) * valueSize) :
    (m.file spare).length = v.prefixSize + metadataSize + m.capacity * valueSize +
      m.suffixBytes.length := by
  rw [m.length_file spare spareLength, Model.fileSize, represents.prefixSize_eq]

/-- `clear()` takes the vector to no elements, in place. -/
theorem clear_ends (positive : 0 < valueSize) (token : List Char)
    (represents : Represents valueSize (d, v) m) :
    Ends valueSize clear (tmpPath v.path token) (d, v) m m.clear [m, m.clear] := by
  obtain ⟨spare, spareLength, found⟩ := represents.mapped_file
  -- the elements' bytes become room past the last element
  have written : writeAt (m.file spare) (v.prefixSize + 8) (podBytes 8 0) =
      m.clear.file (m.bytes ++ spare) := by
    rw [represents.prefixSize_eq, Model.file, writeAt_layout_size rfl]
    rfl
  have spareLength' : (m.bytes ++ spare).length = (m.clear.capacity - m.clear.elements.length) *
      valueSize := by
    rw [length_bytes_append valueSize spareLength]
    rfl
  have inside : v.prefixSize + 8 + (podBytes 8 0).length ≤ (m.file spare).length := by
    rw [represents.length_mapped spareLength, length_podBytes, metadataSize]
    omega
  obtain ⟨d', run, -, represents', leaves⟩ := storeBytes_represents positive represents
    m.clear rfl rfl rfl found inside spareLength' written
  refine ⟨(d', v), leaves.mono (by simp), Or.inl ⟨?_, represents'⟩⟩
  simp only [clear, EStateM.run_bind, EStateM.run_get]
  exact run

/-- `pop_back()`, with an element to take, takes the vector to the model without its last element,
in place. -/
theorem popBack_ends (positive : 0 < valueSize) (token : List Char)
    (represents : Represents valueSize (d, v) m) (nonempty : m.elements ≠ []) :
    Ends valueSize popBack (tmpPath v.path token) (d, v) m m.popBack [m, m.popBack] := by
  obtain ⟨spare, spareLength, found⟩ := represents.mapped_file
  have := m.size_le_capacity
  have count : m.elements.length ≠ 0 := fun empty => nonempty (List.eq_nil_of_length_eq_zero empty)
  have small := represents.capacity_lt positive
  -- `size() - 1` in `uint64_t` does not wrap, there being an element
  have lowered : (m.elements.length + 2 ^ 64 - 1) % 2 ^ 64 = m.popBack.elements.length := by
    simp only [Model.popBack, List.length_dropLast]
    omega
  -- the last element's bytes become room past the new last one
  have written : writeAt (m.file spare) (v.prefixSize + 8)
      (podBytes 8 ((m.elements.length + 2 ^ 64 - 1) % 2 ^ 64)) =
      m.popBack.file ((m.elements.getLast nonempty).toList ++ spare) := by
    rw [lowered, represents.prefixSize_eq, Model.file, writeAt_layout_size rfl, Model.file,
      ← List.append_assoc, m.bytes_popBack nonempty]
    rfl
  have spareLength' : ((m.elements.getLast nonempty).toList ++ spare).length =
      (m.popBack.capacity - m.popBack.elements.length) * valueSize := by
    simp only [List.length_append, Vector.length_toList, spareLength, Model.popBack,
      List.length_dropLast]
    rw [show m.capacity - (m.elements.length - 1) = m.capacity - m.elements.length + 1 by omega,
      Nat.add_one_mul, Nat.add_comm]
  have inside : v.prefixSize + 8 + (podBytes 8 ((m.elements.length + 2 ^ 64 - 1) % 2 ^ 64)).length ≤
      (m.file spare).length := by
    rw [represents.length_mapped spareLength, length_podBytes, metadataSize]
    omega
  obtain ⟨d', run, -, represents', leaves⟩ := storeBytes_represents positive represents
    m.popBack rfl rfl rfl found inside spareLength' written
  refine ⟨(d', v), leaves.mono (by simp), Or.inl ⟨?_, represents'⟩⟩
  rw [popBack, EStateM.run_bind, EStateM.run_get]
  dsimp only
  rw [EStateM.run_bind, represents.size_run positive]
  exact run

/-- The end of `push_back(value)`, with room for the value: it goes past the last element, and then
the size goes up by one, each store in place. -/
theorem storeBack_ends (positive : 0 < valueSize)
    (represents : Represents valueSize (d, v) m) (room : m.elements.length < m.capacity)
    (value : Vector UInt8 valueSize) :
    ∃ d', (storeBack valueSize value.toList).run (d, v) = .ok () (d', v) ∧
      Represents valueSize (d', v) (m.pushBack value) ∧
      Leaves valueSize [m, m.pushBack value] (d, v) (d', v) := by
  obtain ⟨spare, spareLength, found⟩ := represents.mapped_file
  have small := represents.capacity_lt positive
  have roomBytes : valueSize ≤ spare.length := by
    rw [spareLength]
    exact Nat.le_mul_of_pos_left _ (Nat.sub_pos_of_lt room)
  -- the value goes over the front of the room past the last element, the model unchanged
  have front : writeAt (m.bytes ++ spare) m.bytes.length value.toList =
      m.bytes ++ (value.toList ++ spare.drop valueSize) := by
    rw [writeAt_length (List.prefix_append _ _), Vector.length_toList, List.drop_length_add_append,
      List.append_assoc]
  have stored : writeAt (m.file spare)
      (v.prefixSize + metadataSize + m.elements.length * valueSize) value.toList =
      m.file (value.toList ++ spare.drop valueSize) := by
    have at_value : v.prefixSize + metadataSize + m.elements.length * valueSize =
        m.prefixBytes.length + metadataSize + m.bytes.length := by
      rw [represents.prefixSize_eq, m.length_bytes]
    rw [Model.file, writeAt_layout_data at_value
      (by simp only [List.length_append, Vector.length_toList, m.length_bytes]; omega), front]
    rfl
  have spareLength' : (value.toList ++ spare.drop valueSize).length =
      (m.capacity - m.elements.length) * valueSize := by
    simp only [List.length_append, Vector.length_toList, List.length_drop]
    omega
  have insideValue : v.prefixSize + metadataSize + m.elements.length * valueSize +
      value.toList.length ≤ (m.file spare).length := by
    rw [represents.length_mapped spareLength, Vector.length_toList]
    have : m.elements.length * valueSize + valueSize ≤ m.capacity * valueSize := by
      rw [← Nat.add_one_mul]
      exact Nat.mul_le_mul_right _ room
    omega
  obtain ⟨d1, run1, found1, represents1, leaves1⟩ := storeBytes_represents positive
    represents m rfl rfl rfl found insideValue spareLength' stored
  -- then the size goes up by one, and the value is the new last element
  have counted : writeAt (m.file (value.toList ++ spare.drop valueSize)) (v.prefixSize + 8)
      (podBytes 8 ((m.elements.length + 1) % 2 ^ 64)) =
      (m.pushBack value).file (spare.drop valueSize) := by
    rw [Nat.mod_eq_of_lt (by omega), represents.prefixSize_eq, Model.file,
      writeAt_layout_size rfl, Model.file, m.bytes_pushBack, m.capacity_pushBack_of_lt room,
      List.append_assoc]
    simp [Model.pushBack]
  have spareLength'' : (spare.drop valueSize).length =
      ((m.pushBack value).capacity - (m.pushBack value).elements.length) * valueSize := by
    rw [m.capacity_pushBack_of_lt room, List.length_drop, spareLength]
    simp only [Model.pushBack, List.length_append, List.length_singleton]
    rw [Nat.sub_add_eq, Nat.sub_one_mul]
  have insideSize : v.prefixSize + 8 + (podBytes 8 ((m.elements.length + 1) % 2 ^ 64)).length ≤
      (m.file (value.toList ++ spare.drop valueSize)).length := by
    rw [represents.length_mapped spareLength', length_podBytes, metadataSize]
    omega
  obtain ⟨d2, run2, -, represents2, leaves2⟩ := storeBytes_represents positive represents1
    (m.pushBack value) rfl rfl (by rw [Model.fileSize, m.capacity_pushBack_of_lt room]; rfl) found1
    insideSize spareLength'' counted
  refine ⟨d2, ?_, represents2, leaves1.trans leaves2⟩
  rw [storeBack, EStateM.run_bind, EStateM.run_get]
  dsimp only
  rw [EStateM.run_bind, represents.size_run positive]
  dsimp only
  rw [EStateM.run_bind, run1]
  exact run2

end InPlace

namespace Ends

variable {x y : Op Unit} {tmp : List Char} {s : Disk × FileMappedVector}
  {m m' : Model valueSize} {passes : List (Model valueSize)}

theorem congr (same : x.run s = y.run s) (ends : Ends valueSize y tmp s m m' passes) :
    Ends valueSize x tmp s m m' passes := by
  obtain ⟨s', leaves, result⟩ := ends
  exact ⟨s', leaves, same ▸ result⟩

/-- A call that changes nothing. -/
theorem unchanged (represents : Represents valueSize s m) (run : x.run s = .ok () s) :
    Ends valueSize x tmp s m m passes :=
  ⟨s, Leaves.refl passes s, Or.inl ⟨run, represents⟩⟩

end Ends

section Updates

variable {d : Disk} {v : FileMappedVector} {m : Model valueSize}

namespace Represents

theorem prefixBytes_eq_resize (represents : Represents valueSize (d, v) m) :
    m.prefixBytes = resize m.prefixBytes v.prefixSize := by
  rw [represents.prefixSize_eq, resize_length]

theorem suffixBytes_eq_resize (represents : Represents valueSize (d, v) m) :
    m.suffixBytes = resize m.suffixBytes v.suffixSize := by
  rw [represents.suffixSize_eq, resize_length]

theorem nextCapacity_run (represents : Represents valueSize (d, v) m) (positive : 0 < valueSize) :
    nextCapacity.run (d, v) = .ok m.nextCapacity (d, v) := by
  -- below `2 ^ 63`, `capacity + capacity / 2 + 1` does not wrap in `uint64_t`
  have small := represents.capacity_lt positive
  rw [nextCapacity, EStateM.run_bind, represents.capacity_run positive]
  show EStateM.Result.ok ((m.capacity + m.capacity / 2 + 1) % 2 ^ 64) (d, v) = _
  rw [Nat.mod_eq_of_lt (by omega)]
  rfl

end Represents

/-- The bytes `std::copy` reads of all the elements are the model's bytes. -/
theorem elementBytes_all (spare : List UInt8) :
    elementBytes valueSize (m.file spare) m.prefixBytes.length 0 m.elements.length = m.bytes := by
  rw [m.elementBytes_file spare (Nat.zero_le _) le_rfl, List.drop_zero, Nat.sub_zero,
    List.take_length]
  rfl

/-- An update that copies every element into a file with the prefix, suffix and capacity of `m'`, a
model with the elements of `m`, takes the vector from `m` to `m'`. -/
theorem copyAll_ends (positive : 0 < valueSize) (token : List Char)
    (represents : Represents valueSize (d, v) m) {m' : Model valueSize}
    {newCapacity newPrefixSize newSuffixSize : Nat} (same : m'.elements = m.elements)
    (prefixEq : m'.prefixBytes = resize m.prefixBytes newPrefixSize)
    (suffixEq : m'.suffixBytes = resize m.suffixBytes newSuffixSize)
    (capacityEq : m'.capacity = newCapacity) (small : m'.fileSize < 2 ^ 64) :
    Ends valueSize
      (atomicUpdate valueSize token m.elements.length newCapacity newPrefixSize newSuffixSize
        fun file => [(0, elementBytes valueSize file v.prefixSize 0 m.elements.length)])
      (tmpPath v.path token) (d, v) m m' [m, m'] := by
  -- one piece, at the first element, with the bytes of all of them
  refine atomicUpdate_ends positive represents prefixEq suffixEq capacityEq (by rw [same])
    (fun spare _ => ⟨⟨Nat.zero_mul _, trivial⟩, ?_⟩) small
  rw [represents.prefixSize_eq, elementBytes_all]
  simp only [List.flatMap_cons, List.flatMap_nil, List.append_nil, Model.bytes, same]

/-- `reserve(n)` takes the vector to the model with room for `n` elements. -/
theorem reserve_ends (positive : 0 < valueSize) (token : List Char)
    (represents : Represents valueSize (d, v) m) (n : Nat)
    (small : (m.reserve n).fileSize < 2 ^ 64) :
    Ends valueSize (reserve valueSize token n) (tmpPath v.path token) (d, v) m (m.reserve n)
      [m, m.reserve n] := by
  rcases Nat.lt_or_ge m.capacity n with grows | enough
  · -- a new file with room for `n` elements takes every element
    refine Ends.congr ?_ (copyAll_ends positive token represents rfl
      represents.prefixBytes_eq_resize represents.suffixBytes_eq_resize
      (max_eq_right grows.le : (m.reserve n).capacity = n) small)
    rw [reserve, EStateM.run_bind, EStateM.run_get]
    dsimp only
    rw [EStateM.run_bind, represents.capacity_run positive]
    dsimp only
    rw [if_pos grows, EStateM.run_bind, represents.size_run positive]
  · -- with room enough, nothing changes
    rw [m.reserve_of_le enough]
    refine Ends.unchanged represents ?_
    rw [reserve, EStateM.run_bind, EStateM.run_get]
    dsimp only
    rw [EStateM.run_bind, represents.capacity_run positive]
    dsimp only
    rw [if_neg (not_lt.mpr enough)]
    rfl

/-- `push_back(value)` takes the vector to the model with the value after the last element; with
no room left it goes through `reserve(nextCapacity())` first, and a crash may find the model that
leaves. -/
theorem pushBack_ends (positive : 0 < valueSize) (token : List Char)
    (represents : Represents valueSize (d, v) m) (value : Vector UInt8 valueSize)
    (small : (m.pushBack value).fileSize < 2 ^ 64) :
    Ends valueSize (pushBack valueSize token value.toList) (tmpPath v.path token) (d, v) m
      (m.pushBack value) (if m.capacity = m.elements.length then
        [m, m.reserve m.nextCapacity, m.pushBack value] else [m, m.pushBack value]) := by
  have unfolded : (pushBack valueSize token value.toList).run (d, v) =
      (if m.capacity = m.elements.length then
        (do reserve valueSize token m.nextCapacity; storeBack valueSize value.toList)
      else storeBack valueSize value.toList).run (d, v) := by
    rw [pushBack, EStateM.run_bind, represents.capacity_run positive]
    dsimp only
    rw [EStateM.run_bind, represents.size_run positive]
    dsimp only
    split_ifs
    · rw [EStateM.run_bind, represents.nextCapacity_run positive]
    · rfl
  refine Ends.congr unfolded ?_
  split_ifs with full
  · -- no room: `reserve(nextCapacity())`, then the push into the room it makes
    have grows : m.capacity < m.nextCapacity := by
      simp only [Model.nextCapacity]
      omega
    have sameFileSize : (m.reserve m.nextCapacity).fileSize = (m.pushBack value).fileSize := by
      simp only [Model.fileSize, Model.reserve, Model.pushBack, if_pos full,
        max_eq_right grows.le]
    obtain ⟨⟨d1, v1⟩, leaves1, result⟩ :=
      reserve_ends positive token represents m.nextCapacity (sameFileSize ▸ small)
    rcases result with ⟨run1, represents1⟩ | ⟨⟨e, throws⟩, represents1, large⟩
    · have room : (m.reserve m.nextCapacity).elements.length <
          (m.reserve m.nextCapacity).capacity := by
        show m.elements.length < max m.capacity m.nextCapacity
        omega
      obtain ⟨d2, run2, represents2, leaves2⟩ :=
        storeBack_ends positive represents1 room value
      rw [m.pushBack_of_full full]
      refine ⟨(d2, v1), (leaves1.trans leaves2).mono (by simp), Or.inl ⟨?_, represents2⟩⟩
      rw [EStateM.run_bind, run1]
      exact run2
    · -- `reserve` threw, and so does `push_back`
      refine ⟨(d1, v1), leaves1.mono (by simp), Or.inr ⟨⟨e, ?_⟩, represents1, fun free => ?_⟩⟩
      · rw [EStateM.run_bind, throws]
      · exact sameFileSize ▸ large free
  · -- room left: the push goes into it
    have room : m.elements.length < m.capacity :=
      lt_of_le_of_ne m.size_le_capacity (Ne.symm full)
    obtain ⟨d', run, represents', leaves⟩ := storeBack_ends positive represents room value
    exact ⟨(d', v), leaves, Or.inl ⟨run, represents'⟩⟩

/-- `shrink_to_fit()` takes the vector to the model with no room past the last element. -/
theorem shrinkToFit_ends (positive : 0 < valueSize) (token : List Char)
    (represents : Represents valueSize (d, v) m) :
    Ends valueSize (shrinkToFit valueSize token) (tmpPath v.path token) (d, v) m m.shrinkToFit
      [m, m.shrinkToFit] := by
  -- the new file is no larger than the vector's, which is below `2 ^ 63` bytes
  have small : m.shrinkToFit.fileSize < 2 ^ 64 := by
    have fits := represents.fits
    have : m.elements.length * valueSize ≤ m.capacity * valueSize :=
      Nat.mul_le_mul_right _ m.size_le_capacity
    simp only [Model.fileSize, Model.shrinkToFit] at fits ⊢
    omega
  have unfolded : (shrinkToFit valueSize token).run (d, v) =
      (if m.elements.length < m.capacity then
        atomicUpdate valueSize token m.elements.length m.elements.length v.prefixSize v.suffixSize
          fun file => [(0, elementBytes valueSize file v.prefixSize 0 m.elements.length)]
      else pure ()).run (d, v) := by
    -- the size and the capacity the source reads are the model's
    rw [shrinkToFit, EStateM.run_bind, EStateM.run_get]
    dsimp only
    rw [EStateM.run_bind, represents.size_run positive]
    dsimp only
    rw [EStateM.run_bind, represents.capacity_run positive]
  refine Ends.congr unfolded ?_
  split_ifs with shrinks
  · -- a new file with room for the elements only takes every element
    exact copyAll_ends positive token represents rfl represents.prefixBytes_eq_resize
      represents.suffixBytes_eq_resize rfl small
  · -- no room past the last element: nothing changes
    have full : m.shrinkToFit = m :=
      Model.ext rfl rfl (le_antisymm m.size_le_capacity (not_lt.mp shrinks)) rfl
    rw [full]
    exact Ends.unchanged represents rfl

/-- `resizePrefix(n)` takes the vector to the model with the prefix cut, or padded with zeros, to
`n` bytes. -/
theorem resizePrefix_ends (positive : 0 < valueSize) (token : List Char)
    (represents : Represents valueSize (d, v) m) (n : Nat)
    (small : (m.resizePrefix n).fileSize < 2 ^ 64) :
    Ends valueSize (resizePrefix valueSize token n) (tmpPath v.path token) (d, v) m
      (m.resizePrefix n) [m, m.resizePrefix n] := by
  have unfolded : (resizePrefix valueSize token n).run (d, v) =
      (if v.prefixSize ≠ n then
        atomicUpdate valueSize token m.elements.length m.capacity n v.suffixSize
          fun file => [(0, elementBytes valueSize file v.prefixSize 0 m.elements.length)]
      else pure ()).run (d, v) := by
    rw [resizePrefix, EStateM.run_bind, EStateM.run_get]
    dsimp only
    split_ifs
    · rw [EStateM.run_bind, represents.size_run positive]
      dsimp only
      rw [EStateM.run_bind, represents.capacity_run positive]
    · rfl
  refine Ends.congr unfolded ?_
  split_ifs with differs
  · -- a new file with the new prefix takes every element
    exact copyAll_ends positive token represents rfl rfl represents.suffixBytes_eq_resize rfl small
  · -- the prefix has the size already: nothing changes
    have same : m.resizePrefix n = m := by
      refine Model.ext ?_ rfl rfl rfl
      rw [← not_not.mp differs]
      exact represents.prefixBytes_eq_resize.symm
    rw [same]
    exact Ends.unchanged represents rfl

/-- `resizeSuffix(n)` takes the vector to the model with the suffix cut, or padded with zeros, to
`n` bytes. -/
theorem resizeSuffix_ends (positive : 0 < valueSize) (token : List Char)
    (represents : Represents valueSize (d, v) m) (n : Nat)
    (small : (m.resizeSuffix n).fileSize < 2 ^ 64) :
    Ends valueSize (resizeSuffix valueSize token n) (tmpPath v.path token) (d, v) m
      (m.resizeSuffix n) [m, m.resizeSuffix n] := by
  have unfolded : (resizeSuffix valueSize token n).run (d, v) =
      (if v.suffixSize ≠ n then
        atomicUpdate valueSize token m.elements.length m.capacity v.prefixSize n
          fun file => [(0, elementBytes valueSize file v.prefixSize 0 m.elements.length)]
      else pure ()).run (d, v) := by
    rw [resizeSuffix, EStateM.run_bind, EStateM.run_get]
    dsimp only
    split_ifs
    · rw [EStateM.run_bind, represents.size_run positive]
      dsimp only
      rw [EStateM.run_bind, represents.capacity_run positive]
    · rfl
  refine Ends.congr unfolded ?_
  split_ifs with differs
  · -- a new file with the new suffix takes every element
    exact copyAll_ends positive token represents rfl represents.prefixBytes_eq_resize rfl rfl small
  · -- the suffix has the size already: nothing changes
    have same : m.resizeSuffix n = m := by
      refine Model.ext rfl rfl rfl ?_
      rw [← not_not.mp differs]
      exact represents.suffixBytes_eq_resize.symm
    rw [same]
    exact Ends.unchanged represents rfl

/-- The bytes `std::copy` reads of the elements from `first` up to `last` are as many as the
elements take. -/
theorem length_elementBytes_file (spare : List UInt8) {first last : Nat} (ordered : first ≤ last)
    (inRange : last ≤ m.elements.length) :
    (elementBytes valueSize (m.file spare) m.prefixBytes.length first last).length =
      (last - first) * valueSize := by
  rw [m.elementBytes_file spare ordered inRange, length_flatten_map_toList, List.length_take,
    List.length_drop]
  congr 1
  omega

/-- `erase(first, last)`, over elements that are there, takes the vector to the model without
them. -/
theorem erase_ends (positive : 0 < valueSize) (token : List Char)
    (represents : Represents valueSize (d, v) m) {first last : Nat} (ordered : first ≤ last)
    (inRange : last ≤ m.elements.length) :
    Ends valueSize (erase valueSize token first last) (tmpPath v.path token) (d, v) m
      (m.erase first (last - first)) [m, m.erase first (last - first)] := by
  -- erasing keeps the capacity, so the file keeps its size
  have small : (m.erase first (last - first)).fileSize < 2 ^ 64 :=
    represents.fits.trans (by norm_num)
  -- `size() - (last - first)` in `uint64_t`, which does not wrap over elements that are there
  have sizeEq : (m.erase first (last - first)).elements.length =
      (m.elements.length + 2 ^ 64 - (last - first)) % 2 ^ 64 := by
    have := (represents.capacity_lt positive).trans_le' m.size_le_capacity
    simp only [Model.erase, List.length_append, List.length_take, List.length_drop]
    omega
  have unfolded : (erase valueSize token first last).run (d, v) =
      (atomicUpdate valueSize token ((m.elements.length + 2 ^ 64 - (last - first)) % 2 ^ 64)
        m.capacity v.prefixSize v.suffixSize fun file =>
          [(0, elementBytes valueSize file v.prefixSize 0 first),
            (first, elementBytes valueSize file v.prefixSize last m.elements.length)]).run
        (d, v) := by
    rw [erase, EStateM.run_bind, EStateM.run_get]
    dsimp only
    rw [EStateM.run_bind, represents.size_run positive]
    dsimp only
    rw [EStateM.run_bind, represents.capacity_run positive]
  refine Ends.congr unfolded (atomicUpdate_ends positive represents
    represents.prefixBytes_eq_resize represents.suffixBytes_eq_resize rfl sizeEq
    (fun spare _ => ⟨?_, ?_⟩) small)
  · -- the elements after the erased ones go where the first erased one was
    rw [represents.prefixSize_eq]
    exact ⟨Nat.zero_mul _, by
      rw [length_elementBytes_file spare (Nat.zero_le _) (ordered.trans inRange), Nat.sub_zero,
        Nat.zero_add]
      exact ⟨rfl, trivial⟩⟩
  · -- the pieces are the elements before the erased ones and those after them
    have rest : (m.elements.drop last).take (m.elements.length - last) = m.elements.drop last :=
      List.take_of_length_le (by simp)
    rw [represents.prefixSize_eq, m.elementBytes_file spare (Nat.zero_le _) (ordered.trans inRange),
      m.elementBytes_file spare inRange le_rfl, rest]
    simp only [List.flatMap_cons, List.flatMap_nil, List.append_nil, Model.bytes, Model.erase,
      List.drop_zero, Nat.sub_zero, List.map_append, List.flatten_append,
      Nat.add_sub_cancel' ordered]

/-- `insert(position, values)`, at a position inside the vector, takes the vector to the model with
the values there, its capacity grown as `insert` grows it. -/
theorem insert_ends (positive : 0 < valueSize) (token : List Char)
    (represents : Represents valueSize (d, v) m) {position : Nat}
    (inRange : position ≤ m.elements.length) (values : List (Vector UInt8 valueSize))
    (small : (m.insert position values).fileSize < 2 ^ 64) :
    Ends valueSize (insert valueSize token position (values.map Vector.toList))
      (tmpPath v.path token) (d, v) m (m.insert position values)
      [m, m.insert position values] := by
  have newLength : (m.insert position values).elements.length =
      m.elements.length + values.length := by
    simp only [Model.insert, List.length_append, List.length_take, List.length_drop]
    omega
  -- the new size fits the `uint64_t` it is counted in, as the file has room for it
  have sizeSmall : m.elements.length + values.length < 2 ^ 64 := by
    have room := (m.insert position values).size_le_capacity
    have : (m.insert position values).capacity ≤
        (m.insert position values).capacity * valueSize := Nat.le_mul_of_pos_right _ positive
    simp only [Model.fileSize] at small
    omega
  have sizeEq : (m.insert position values).elements.length =
      (m.elements.length + (values.map Vector.toList).length) % 2 ^ 64 := by
    rw [newLength, List.length_map, Nat.mod_eq_of_lt sizeSmall]
  have capacityEq : (m.insert position values).capacity =
      if (m.elements.length + (values.map Vector.toList).length) % 2 ^ 64 > m.capacity then
        (if (m.elements.length + (values.map Vector.toList).length) % 2 ^ 64 > m.nextCapacity then
          (m.elements.length + (values.map Vector.toList).length) % 2 ^ 64
        else m.nextCapacity)
      else m.capacity := by
    rw [List.length_map, Nat.mod_eq_of_lt sizeSmall]
    -- `insert` grows to `nextCapacity()` or to the new size, whichever is larger
    simp only [Model.insert]
    split_ifs <;> omega
  have unfolded : (insert valueSize token position (values.map Vector.toList)).run (d, v) =
      (atomicUpdate valueSize token
        ((m.elements.length + (values.map Vector.toList).length) % 2 ^ 64)
        (m.insert position values).capacity v.prefixSize v.suffixSize fun file =>
          [(0, elementBytes valueSize file v.prefixSize 0 position),
            (position, (values.map Vector.toList).flatten),
            (position + (values.map Vector.toList).length,
              elementBytes valueSize file v.prefixSize position m.elements.length)]).run
        (d, v) := by
    rw [capacityEq, insert, EStateM.run_bind, EStateM.run_get]
    dsimp only
    rw [EStateM.run_bind, represents.size_run positive]
    dsimp only
    rw [EStateM.run_bind, represents.capacity_run positive]
    dsimp only
    rw [EStateM.run_bind, represents.nextCapacity_run positive]
  refine Ends.congr unfolded (atomicUpdate_ends positive represents
    represents.prefixBytes_eq_resize represents.suffixBytes_eq_resize rfl sizeEq
    (fun spare _ => ⟨?_, ?_⟩) small)
  · -- the values go where the elements from the position were, and those after them
    rw [represents.prefixSize_eq]
    refine ⟨Nat.zero_mul _, ?_, ?_, trivial⟩
    · rw [length_elementBytes_file spare (Nat.zero_le _) inRange, Nat.sub_zero, Nat.zero_add]
    · rw [length_elementBytes_file spare (Nat.zero_le _) inRange, Nat.sub_zero, Nat.zero_add,
        length_flatten_map_toList, List.length_map, Nat.add_mul]
  · -- the pieces are the elements before the position, the values and the elements after
    have rest : (m.elements.drop position).take (m.elements.length - position) =
        m.elements.drop position :=
      List.take_of_length_le (by simp)
    rw [represents.prefixSize_eq, m.elementBytes_file spare (Nat.zero_le _) inRange,
      m.elementBytes_file spare inRange le_rfl, rest]
    simp only [List.flatMap_cons, List.flatMap_nil, List.append_nil, Model.bytes, Model.insert,
      List.drop_zero, Nat.sub_zero, List.map_append, List.flatten_append, List.append_assoc]

end Updates

end Common.FileMappedVector
