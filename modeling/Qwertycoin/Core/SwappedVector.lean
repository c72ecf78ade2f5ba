import Qwertycoin.Lib.ByteFile
import Qwertycoin.Lib.ByteReader
import Qwertycoin.Lib.StateRun

/-!
`SwappedVector<T>`, the vector the blockchain keeps its blocks in, on disk. The items file holds
the items one after the other, each as its element serializer writes it; the index file holds the
count of items and then the size of each; in memory there are the offsets of the items, the end of
the items written, and a cache of at most `poolSize` items: a map from index to item, and a list of
the cached indexes from the least to the most recently used.

`Represents v l` says that the vector `v` holds the list `l`: the files hold its items and sizes,
the offsets are where its items start, and the cache is in one-to-one correspondence with a map of
at most `poolSize` entries, each holding the list's element at its index. Opening new files gives a
vector holding the empty list, and every operation turns a vector holding `l` into one holding the
list the same operation gives on `l`, with `operator[]` returning the list's element
(`item_represents`, `pushBack_represents`, `popBack_represents`, `clear_represents`). Reopening the
files gives a vector holding `l` again (`open_represents`), as long as every item's size fits in
the `uint32_t` the index file records it in.
-/

open ByteFile ByteReader
open EStateM (Keeps)

/-- The element type's `serialize` through the binary serializers: the bytes
`BinaryOutputStreamSerializer` writes for an item, and the `BinaryInputStreamSerializer` reading
one. -/
structure ItemSerializer (T : Type) where
  write : T → List UInt8
  read : ByteReader T

/-- `SwappedVector<T>`: the contents of the two files, the pool size, the offsets of the items, the
end of the items written (`m_itemsFileSize`), the map from index to cached item (`m_items`), and the
cached indexes from the least to the most recently used (`m_cache`, each entry standing for the map
entry it points to). -/
structure SwappedVector (T : Type) where
  itemsFile : List UInt8
  indexesFile : List UInt8
  poolSize : Nat
  offsets : List Nat
  itemsFileSize : Nat
  items : List (Nat × T)
  cache : List Nat

namespace SwappedVector

variable {T : Type}

/-- The offsets of items of these sizes laid out one after the other from `start`. -/
def layoutOffsets : (start : Nat) → List Nat → List Nat
  | _, [] => []
  | start, size :: sizes => start :: layoutOffsets (start + size) sizes

/-- The sizes the index file records after its count, for `count` items: four bytes each, `none`
when the file ends first. -/
def readItemSizes (indexes : List UInt8) (count : Nat) : Option (List Nat) :=
  if 8 + 4 * count ≤ indexes.length then
    some ((List.range count).map fun i => littleEndian ((indexes.drop (8 + 4 * i)).take 4))
  else none

/-- `open(itemFileName, indexFileName, poolSize)` on files with these contents, `none` standing for
a file that does not exist: the vector, or `none` where `open` returns `false`. When both files
exist, the count and the sizes are read from the index file. Otherwise the files are created: a new
index file holds a count of zero, and an items file that existed keeps its bytes, as reopening its
stream for writing fails while it is open. An index file that existed without the items file is
still open when it is to be created, so the write of its count fails. -/
def «open» (itemFile indexFile : Option (List UInt8)) (poolSize : Nat) :
    Option (SwappedVector T) :=
  if poolSize = 0 then none
  else
    match itemFile, indexFile with
    | some items, some indexes =>
      if indexes.length < 8 then none
      else
        match readItemSizes indexes (littleEndian (indexes.take 8)) with
        | none => none
        | some sizes =>
          some ⟨items, indexes, poolSize, layoutOffsets 0 sizes, sizes.sum, [], []⟩
    | some items, none => some ⟨items, podBytes 8 0, poolSize, [], 0, [], []⟩
    | none, some _ => none
    | none, none => some ⟨[], podBytes 8 0, poolSize, [], 0, [], []⟩

/-- `size()`. -/
def size (v : SwappedVector T) : Nat := v.offsets.length

/-- The start of `prepare`: when the pool is full, the least recently used entry leaves the map
and the cache. -/
def evictOldest (v : SwappedVector T) : SwappedVector T :=
  if v.items.length = v.poolSize then
    match v.cache with
    | oldest :: cache => { v with items := v.items.filter (·.1 ≠ oldest), cache }
    -- An empty cache with a full pool needs a pool of size zero, which `open` refuses.
    | [] => v
  else v

/-- `prepare(index)`, with the item the caller stores through the pointer it returns: after the
eviction, the index is entered in the map, whose entry for it stays if it has one, and put last in
the cache. -/
def prepare (index : Nat) (item : T) (v : SwappedVector T) : SwappedVector T :=
  let v := evictOldest v
  { v with
    items :=
      if v.items.any (·.1 = index) then
        v.items.map fun entry => if entry.1 = index then (index, item) else entry
      else v.items ++ [(index, item)]
    cache := v.cache ++ [index] }

variable (serializer : ItemSerializer T)

/-- `operator[](index)`: a cached item is moved last in the cache and returned; any other in range
is read from its offset in the items file, entered in the cache, and returned. -/
def item (index : Nat) : EStateM String (SwappedVector T) T := do
  let v ← get
  match v.items.lookup index with
  | some cached =>
    if v.cache.getLast? ≠ some index then
      set { v with cache := v.cache.erase index ++ [index] }
    return cached
  | none =>
    if v.offsets.length ≤ index then throw "SwappedVector::operator[]"
    match serializer.read.run (v.itemsFile.drop (v.offsets.getD index 0)) with
    | none => throw "Failed to read from IInputStream"
    | some (read, _) =>
      set (prepare index read v)
      return read

/-- `push_back(item)`: the item is written at the end of the items, its size as a `uint32_t` after
the sizes in the index file and the new count at its front; its offset is added and the item
cached. -/
def pushBack (item : T) : EStateM String (SwappedVector T) Unit := modify fun v =>
  let bytes := serializer.write item
  let itemsFileSize := v.itemsFileSize + bytes.length
  let itemSize := (itemsFileSize - v.itemsFileSize) % 2 ^ 32
  let indexesFile := writeAt v.indexesFile (8 + 4 * v.offsets.length) (podBytes 4 itemSize)
  let indexesFile := writeAt indexesFile 0 (podBytes 8 (v.offsets.length + 1))
  prepare v.offsets.length item
    { v with
      itemsFile := writeAt v.itemsFile v.itemsFileSize bytes
      indexesFile
      offsets := v.offsets ++ [v.itemsFileSize]
      itemsFileSize }

/-- `pop_back()`: the count one less, as a `uint64_t`, at the front of the index file; the end of
the items back to the last offset, which goes; and the last item out of the cache. The files are
not shortened. -/
def popBack : EStateM String (SwappedVector T) Unit := modify fun v =>
  let v :=
    { v with
      indexesFile := writeAt v.indexesFile 0 (podBytes 8 (v.offsets.length + (2 ^ 64 - 1)))
      itemsFileSize := v.offsets.getLastD 0
      offsets := v.offsets.dropLast }
  if v.items.any (·.1 = v.offsets.length) then
    { v with
      items := v.items.filter (·.1 ≠ v.offsets.length)
      cache := v.cache.erase v.offsets.length }
  else v

/-- `clear()`: a count of zero at the front of the index file, and nothing in memory. -/
def clear : EStateM String (SwappedVector T) Unit := modify fun v =>
  { v with
    indexesFile := writeAt v.indexesFile 0 (podBytes 8 0)
    offsets := []
    itemsFileSize := 0
    items := []
    cache := [] }

/-! ### The list a vector holds -/

/-- The items' bytes one after the other. -/
def layout (l : List T) : List UInt8 := (l.map serializer.write).flatten

/-- The sizes of the items' bytes. -/
def itemSizes (l : List T) : List Nat := l.map fun t => (serializer.write t).length

/-- What the index file begins with for the list: its count, then the size of each item. -/
def indexBytes (l : List T) : List UInt8 :=
  podBytes 8 l.length ++ (l.map fun t => podBytes 4 (serializer.write t).length).flatten

/-- The cache of `v` holds elements of `l` at their indexes, at most `poolSize` of them, with the
map and the list of recently used indexes in one-to-one correspondence. -/
structure CacheHolds (v : SwappedVector T) (l : List T) : Prop where
  positive : 1 ≤ v.poolSize
  pool : v.items.length ≤ v.poolSize
  keys_nodup : (v.items.map (·.1)).Nodup
  cache_perm : v.cache.Perm (v.items.map (·.1))
  cached : ∀ entry ∈ v.items, l[entry.1]? = some entry.2

/-- The files and offsets of `v` hold the list `l`: the items file begins with its items and the
index file with its count and sizes, the offsets are where its items start, and the end of the items
written is theirs. -/
structure FilesHold (v : SwappedVector T) (l : List T) : Prop where
  offsets_eq : v.offsets = layoutOffsets 0 (itemSizes serializer l)
  itemsFileSize_eq : v.itemsFileSize = (layout serializer l).length
  items_stored : layout serializer l <+: v.itemsFile
  indexes_stored : indexBytes serializer l <+: v.indexesFile

/-- `v` holds the list `l`, in its files and in its cache. -/
structure Represents (v : SwappedVector T) (l : List T) : Prop
    extends CacheHolds v l, FilesHold serializer v l

/-- The bounds of the integers the index file records: the count in a `uint64_t` and each item's
size in a `uint32_t`. -/
def Fits (l : List T) : Prop :=
  l.length < 2 ^ 64 ∧ ∀ t ∈ l, (serializer.write t).length < 2 ^ 32

/-! ### Offsets and layout -/

theorem length_layoutOffsets :
    ∀ (start : Nat) (sizes : List Nat), (layoutOffsets start sizes).length = sizes.length
  | _, [] => rfl
  | start, _ :: sizes => by
    rw [layoutOffsets, List.length_cons, length_layoutOffsets _ sizes, List.length_cons]

/-- One more item starts where the others end. -/
theorem layoutOffsets_append : ∀ (start : Nat) (sizes : List Nat) (size : Nat),
    layoutOffsets start (sizes ++ [size]) = layoutOffsets start sizes ++ [start + sizes.sum]
  | start, [], size => by simp [layoutOffsets]
  | start, first :: sizes, size => by
    rw [List.cons_append, layoutOffsets, layoutOffsets, layoutOffsets_append, List.sum_cons,
      Nat.add_assoc, List.cons_append]

/-- The `i`-th item starts after the sizes in front of it. -/
theorem getD_layoutOffsets : ∀ (start : Nat) (sizes : List Nat) (i : Nat), i < sizes.length →
    (layoutOffsets start sizes).getD i 0 = start + (sizes.take i).sum
  | _, [], _, inRange => absurd inRange (Nat.not_lt_zero _)
  | start, first :: sizes, 0, _ => by simp [layoutOffsets]
  | start, first :: sizes, i + 1, inRange => by
    rw [layoutOffsets, List.getD_cons_succ,
      getD_layoutOffsets _ sizes i (Nat.lt_of_succ_lt_succ inRange), List.take_succ_cons,
      List.sum_cons, Nat.add_assoc]

theorem layout_append (l : List T) (t : T) :
    layout serializer (l ++ [t]) = layout serializer l ++ serializer.write t := by
  simp [layout]

theorem itemSizes_append (l : List T) (t : T) :
    itemSizes serializer (l ++ [t]) = itemSizes serializer l ++ [(serializer.write t).length] := by
  simp [itemSizes]

theorem length_layout (l : List T) :
    (layout serializer l).length = (itemSizes serializer l).sum := by
  simp [layout, itemSizes, List.length_flatten, List.map_map, Function.comp_def]

theorem indexBytes_append (l : List T) (t : T) :
    indexBytes serializer (l ++ [t]) = podBytes 8 (l.length + 1) ++
      ((l.map fun t => podBytes 4 (serializer.write t).length).flatten ++
        podBytes 4 (serializer.write t).length) := by
  simp [indexBytes]

/-- The items in front of the `i`-th, the `i`-th, and those after it. -/
theorem layout_split {l : List T} {i : Nat} (inRange : i < l.length) :
    layout serializer l =
      layout serializer (l.take i) ++
        (serializer.write l[i] ++ layout serializer (l.drop (i + 1))) := by
  have whole : l = l.take i ++ l[i] :: l.drop (i + 1) := by
    rw [← List.drop_eq_getElem_cons inRange, List.take_append_drop]
  conv_lhs => rw [whole]
  rw [layout, layout, layout, List.map_append, List.map_cons, List.flatten_append,
    List.flatten_cons]

/-- Where the `i`-th item starts: after the items in front of it. -/
theorem getD_offsets {l : List T} {i : Nat} (inRange : i < l.length) :
    (layoutOffsets 0 (itemSizes serializer l)).getD i 0 =
      (layout serializer (l.take i)).length := by
  rw [getD_layoutOffsets 0 _ i (by simpa [itemSizes] using inRange), Nat.zero_add, length_layout,
    itemSizes, itemSizes, List.map_take]

/-! ### The cache -/

/-- Dropping the entry of a key drops the key, when the keys are distinct. -/
theorem map_fst_filter_ne {entries : List (Nat × T)} (distinct : (entries.map (·.1)).Nodup)
    (key : Nat) : (entries.filter (·.1 ≠ key)).map (·.1) = (entries.map (·.1)).erase key := by
  rw [distinct.erase_eq_filter, List.filter_map]
  congr 1
  apply List.filter_congr
  intro entry _
  by_cases same : entry.1 = key <;> simp [same]

theorem mem_of_lookup_eq_some : ∀ {entries : List (Nat × T)} {index : Nat} {t : T},
    entries.lookup index = some t → (index, t) ∈ entries
  | [], _, _, found => by cases found
  | (key, t') :: entries, index, t, found => by
    by_cases same : index = key
    · subst same
      simp [List.lookup] at found
      simp [found]
    · simp [List.lookup, beq_false_of_ne same] at found
      exact List.mem_cons_of_mem _ (mem_of_lookup_eq_some found)

theorem not_mem_of_lookup_eq_none {entries : List (Nat × T)} {index : Nat}
    (found : entries.lookup index = none) : index ∉ entries.map (·.1) := by
  simp at found ⊢
  intro t member
  exact found index t member rfl

/-- The eviction changes the cache only. -/
theorem evictOldest_frame (v : SwappedVector T) :
    ∃ items cache, evictOldest v = { v with items, cache } := by
  unfold evictOldest
  split
  · split
    · exact ⟨_, _, rfl⟩
    · exact ⟨_, _, rfl⟩
  · exact ⟨_, _, rfl⟩

/-- So does `prepare`. -/
theorem prepare_frame (index : Nat) (item : T) (v : SwappedVector T) :
    ∃ items cache, prepare index item v = { v with items, cache } := by
  obtain ⟨items, cache, evicted⟩ := evictOldest_frame v
  exact ⟨_, _, by rw [prepare, evicted]⟩

@[simp] theorem poolSize_prepare (index : Nat) (item : T) (v : SwappedVector T) :
    (prepare index item v).poolSize = v.poolSize := by
  obtain ⟨items, cache, prepared⟩ := prepare_frame index item v
  rw [prepared]

/-- A map key is the index of an element of the list. -/
theorem CacheHolds.key_lt {v : SwappedVector T} {l : List T} (holds : CacheHolds v l) {index : Nat}
    (key : index ∈ v.items.map (·.1)) : index < l.length := by
  obtain ⟨entry, member, rfl⟩ := List.mem_map.mp key
  exact (List.getElem?_eq_some_iff.mp (holds.cached entry member)).1

/-- After the eviction the map has room for another entry, is part of the map before, and still
corresponds to the cache. -/
theorem CacheHolds.evictOldest {v : SwappedVector T} {l : List T} (holds : CacheHolds v l) :
    (evictOldest v).items.length < v.poolSize ∧ (evictOldest v).items.Sublist v.items ∧
      (evictOldest v).cache.Perm ((evictOldest v).items.map (·.1)) := by
  unfold SwappedVector.evictOldest
  split
  · rename_i full
    split
    · -- The least recently used index is a key; it leaves the map and the cache.
      rename_i oldest rest cacheEq
      have member : oldest ∈ v.items.map (·.1) :=
        holds.cache_perm.subset (by rw [cacheEq]; exact List.mem_cons_self)
      have erased := map_fst_filter_ne holds.keys_nodup oldest
      have shorter := List.length_erase_of_mem member
      rw [← erased, List.length_map, List.length_map] at shorter
      have nonempty : 0 < v.items.length :=
        List.length_pos_of_mem (List.mem_map.mp member).choose_spec.1
      have restPerm := holds.cache_perm.erase oldest
      rw [cacheEq, List.erase_cons_head, ← erased] at restPerm
      refine ⟨?_, List.filter_sublist, restPerm⟩
      show (v.items.filter (·.1 ≠ oldest)).length < v.poolSize
      omega
    · -- A full pool of at least one entry has a cache of as many.
      rename_i cacheEq
      have same := holds.cache_perm.length_eq
      rw [cacheEq, List.length_map, List.length_nil] at same
      have := holds.positive
      omega
  · rename_i notFull
    exact ⟨Nat.lt_of_le_of_ne holds.pool notFull, List.Sublist.refl _, holds.cache_perm⟩

/-- Entering an element of the list that the map does not hold keeps the cache holding the list. -/
theorem CacheHolds.prepare {v : SwappedVector T} {l : List T} (holds : CacheHolds v l) {index : Nat}
    {item : T} (element : l[index]? = some item) (fresh : index ∉ v.items.map (·.1)) :
    CacheHolds (prepare index item v) l := by
  obtain ⟨room, kept, perm⟩ := holds.evictOldest
  obtain ⟨items, cache, evicted⟩ := evictOldest_frame v
  have freshAfter : index ∉ (SwappedVector.evictOldest v).items.map (·.1) := fun key =>
    fresh ((kept.map _).subset key)
  have noEntry : (SwappedVector.evictOldest v).items.any (·.1 = index) = false := by
    rw [List.any_eq_false]
    intro entry member same
    exact freshAfter (List.mem_map.mpr ⟨entry, member, of_decide_eq_true same⟩)
  -- The index is not a key after the eviction, so it comes in as a new entry, last.
  unfold SwappedVector.prepare
  simp only [noEntry, Bool.false_eq_true, if_false]
  rw [evicted] at room kept perm freshAfter ⊢
  dsimp only at room kept perm freshAfter ⊢
  refine ⟨holds.positive, ?_, ?_, ?_, ?_⟩
  · simp only [List.length_append, List.length_singleton]
    omega
  · rw [List.map_append, List.nodup_append]
    refine ⟨holds.keys_nodup.sublist (kept.map _), by simp, ?_⟩
    intro key member new isNew
    rw [List.map_singleton, List.mem_singleton] at isNew
    subst isNew
    exact fun same => freshAfter (same ▸ member)
  · rw [List.map_append]
    exact perm.append_right _
  · intro entry member
    rcases List.mem_append.mp member with old | new
    · exact holds.cached entry (kept.subset old)
    · rw [List.mem_singleton] at new
      subst new
      exact element

/-- An empty cache holds any list. -/
theorem cacheHolds_of_empty {v : SwappedVector T} {l : List T} (positive : 1 ≤ v.poolSize)
    (noItems : v.items = []) (noCache : v.cache = []) : CacheHolds v l := by
  refine ⟨positive, ?_, ?_, ?_, ?_⟩ <;> simp [noItems, noCache]

/-- The files and offsets are the same whatever the cache. -/
theorem FilesHold.with_cache {v : SwappedVector T} {l : List T} (holds : FilesHold serializer v l)
    (items : List (Nat × T)) (cache : List Nat) : FilesHold serializer { v with items, cache } l :=
  ⟨holds.offsets_eq, holds.itemsFileSize_eq, holds.items_stored, holds.indexes_stored⟩

/-- So `prepare` keeps them. -/
theorem FilesHold.prepare {v : SwappedVector T} {l : List T} (holds : FilesHold serializer v l)
    (index : Nat) (item : T) : FilesHold serializer (prepare index item v) l := by
  obtain ⟨items, cache, prepared⟩ := prepare_frame index item v
  rw [prepared]
  exact holds.with_cache serializer items cache

/-- An entry of the cache of a vector holding a list, other than the last element's, holds an
element of the list without its last. -/
theorem CacheHolds.cached_init {v : SwappedVector T} {init : List T} {last : T}
    (holds : CacheHolds v (init ++ [last])) {entry : Nat × T} (member : entry ∈ v.items)
    (notLast : entry.1 ≠ init.length) : init[entry.1]? = some entry.2 := by
  have below := holds.key_lt (List.mem_map_of_mem member)
  rw [List.length_append, List.length_singleton] at below
  have cached := holds.cached entry member
  rwa [List.getElem?_append_left (by omega)] at cached

/-- The cache of a vector holding `l` holds `l` with an item after it, whatever its files. -/
theorem CacheHolds.append {v : SwappedVector T} {l : List T} (holds : CacheHolds v l) (t : T)
    (itemsFile indexesFile : List UInt8) (offsets : List Nat) (itemsFileSize : Nat) :
    CacheHolds { v with itemsFile, indexesFile, offsets, itemsFileSize } (l ++ [t]) :=
  { holds with
    cached := fun entry member => by
      rw [List.getElem?_append_left (holds.key_lt (List.mem_map_of_mem member))]
      exact holds.cached entry member }

theorem FilesHold.length_offsets {v : SwappedVector T} {l : List T}
    (holds : FilesHold serializer v l) : v.offsets.length = l.length := by
  rw [holds.offsets_eq, length_layoutOffsets, itemSizes, List.length_map]

theorem length_indexBytes (l : List T) : (indexBytes serializer l).length = 8 + 4 * l.length := by
  simp [indexBytes, List.length_flatten, Function.comp_def, List.map_const', Nat.mul_comm]

/-! ### The operations -/

/-- The element serializer reads back what it writes, whatever follows. -/
def RoundTrips : Prop := ∀ t, Reads serializer.read (serializer.write t) t

/-- The element at an index of the list is read from its offset in the items file. -/
theorem FilesHold.read_item (roundTrip : RoundTrips serializer) {v : SwappedVector T}
    {l : List T} (holds : FilesHold serializer v l) {index : Nat} (inRange : index < l.length) :
    ∃ rest, serializer.read.run (v.itemsFile.drop (v.offsets.getD index 0)) =
      some (l[index], rest) := by
  obtain ⟨after, stored⟩ := holds.items_stored
  rw [holds.offsets_eq, getD_offsets serializer inRange, ← stored,
    layout_split serializer inRange, List.append_assoc, List.drop_left, List.append_assoc]
  exact ⟨_, roundTrip l[index] _⟩

/-- `operator[]` on a cached index returns the cached item and moves its index last in the
cache, unless it is last already. -/
theorem item_run_of_lookup {v : SwappedVector T} {index : Nat} {cached : T}
    (found : v.items.lookup index = some cached) :
    (item serializer index).run v = .ok cached
      (if v.cache.getLast? ≠ some index then { v with cache := v.cache.erase index ++ [index] }
        else v) := by
  show (match v.items.lookup index with
    | some cached => _
    | none => _ : EStateM String (SwappedVector T) T).run v = _
  rw [found]
  dsimp only
  split <;> rfl

/-- `operator[]` on an index out of the cache and in range returns what is read at its offset,
and enters it in the cache. -/
theorem item_run_of_read {v : SwappedVector T} {index : Nat} (found : v.items.lookup index = none)
    (inRange : index < v.offsets.length) {read : T} {rest : List UInt8}
    (readAt : serializer.read.run (v.itemsFile.drop (v.offsets.getD index 0)) = some (read, rest)) :
    (item serializer index).run v = .ok read (prepare index read v) := by
  show (match v.items.lookup index with
    | some cached => _
    | none => _ : EStateM String (SwappedVector T) T).run v = _
  rw [found]
  dsimp only
  rw [if_neg (Nat.not_le.mpr inRange), readAt]
  rfl

/-- `operator[]` on an index out of the cache and in range whose bytes do not read as an item
throws, leaving the vector. -/
theorem item_run_of_read_eq_none {v : SwappedVector T} {index : Nat}
    (found : v.items.lookup index = none) (inRange : index < v.offsets.length)
    (unread : serializer.read.run (v.itemsFile.drop (v.offsets.getD index 0)) = none) :
    (item serializer index).run v = .error "Failed to read from IInputStream" v := by
  show (match v.items.lookup index with
    | some cached => _
    | none => _ : EStateM String (SwappedVector T) T).run v = _
  rw [found]
  dsimp only
  rw [if_neg (Nat.not_le.mpr inRange), unread]
  rfl

/-- `operator[]` on an index out of the cache and out of range throws, leaving the vector. -/
theorem item_run_of_le {v : SwappedVector T} {index : Nat} (found : v.items.lookup index = none)
    (outOfRange : v.offsets.length ≤ index) :
    (item serializer index).run v = .error "SwappedVector::operator[]" v := by
  show (match v.items.lookup index with
    | some cached => _
    | none => _ : EStateM String (SwappedVector T) T).run v = _
  rw [found]
  dsimp only
  rw [if_pos outOfRange]
  rfl

/-- `operator[]` at an index of the list returns its element, and the vector still holds the
list. -/
theorem item_represents (roundTrip : RoundTrips serializer) {v : SwappedVector T} {l : List T}
    (represents : Represents serializer v l) {index : Nat} (inRange : index < l.length) :
    ∃ v', (item serializer index).run v = .ok l[index] v' ∧ Represents serializer v' l := by
  cases found : v.items.lookup index with
  | some cached =>
    -- A hit: the cached item is the list's element, and the cache is only reordered.
    have entry := represents.cached _ (mem_of_lookup_eq_some found)
    rw [List.getElem?_eq_getElem inRange, Option.some.injEq] at entry
    subst entry
    refine ⟨_, item_run_of_lookup serializer found, ?_⟩
    split
    · have key : index ∈ v.cache :=
        represents.cache_perm.symm.subset (List.mem_map_of_mem (mem_of_lookup_eq_some found))
      have moved : (v.cache.erase index ++ [index]).Perm v.cache :=
        (List.perm_append_singleton _ _).trans (List.perm_cons_erase key).symm
      exact { represents with cache_perm := moved.trans represents.cache_perm }
    · exact represents
  | none =>
    -- A miss: the element is read from the items file and entered in the cache.
    obtain ⟨rest, readAt⟩ := represents.toFilesHold.read_item serializer roundTrip inRange
    have inOffsets : index < v.offsets.length := by
      rw [represents.toFilesHold.length_offsets serializer]
      exact inRange
    exact ⟨_, item_run_of_read serializer found inOffsets readAt,
      represents.toCacheHolds.prepare (List.getElem?_eq_getElem inRange)
        (not_mem_of_lookup_eq_none found),
      represents.toFilesHold.prepare serializer index l[index]⟩

/-- `operator[]` past the end of the list throws, leaving the vector as it was. -/
theorem item_of_le {v : SwappedVector T} {l : List T} (represents : Represents serializer v l)
    {index : Nat} (outOfRange : l.length ≤ index) :
    (item serializer index).run v = .error "SwappedVector::operator[]" v := by
  -- Every cached index is one of the list's, so the index is not cached.
  have found : v.items.lookup index = none := by
    cases cachedAt : v.items.lookup index with
    | none => rfl
    | some cached =>
      have := represents.key_lt (List.mem_map_of_mem (mem_of_lookup_eq_some cachedAt))
      omega
  apply item_run_of_le serializer found
  rw [represents.toFilesHold.length_offsets serializer]
  exact outOfRange

/-- `push_back` writes the item after the items and its size after the sizes, and the vector then
holds the list with the item after it. -/
theorem pushBack_represents {v : SwappedVector T} {l : List T}
    (represents : Represents serializer v l) (t : T) :
    ∃ v', (pushBack serializer t).run v = .ok () v' ∧ Represents serializer v' (l ++ [t]) := by
  have count := represents.toFilesHold.length_offsets serializer
  refine ⟨_, rfl, ?_⟩
  dsimp only
  -- The size written is the item's, whatever the cast to `uint32_t` drops.
  rw [count, Nat.add_sub_cancel_left, show (2 : Nat) ^ 32 = 256 ^ 4 from rfl, podBytes_mod]
  -- The new index is past every cached one.
  have fresh : l.length ∉ v.items.map (·.1) := fun key => Nat.lt_irrefl _ (represents.key_lt key)
  refine ⟨(represents.toCacheHolds.append t _ _ _ _).prepare (by simp) fresh,
    FilesHold.prepare serializer ⟨?offsets, ?itemsFileSize, ?items, ?indexes⟩ _ _⟩
  case offsets =>
    rw [itemSizes_append, layoutOffsets_append, ← represents.offsets_eq,
      represents.itemsFileSize_eq, length_layout, Nat.zero_add]
  case itemsFileSize =>
    rw [layout_append, List.length_append, represents.itemsFileSize_eq]
  case items =>
    rw [layout_append, represents.itemsFileSize_eq]
    exact prefix_writeAt_length represents.items_stored _
  case indexes =>
    -- The size goes after the sizes, then the count over the one at the front.
    have sizeStored := prefix_writeAt_length represents.indexes_stored
      (podBytes 4 (serializer.write t).length)
    rw [length_indexBytes, indexBytes, List.append_assoc] at sizeStored
    rw [indexBytes_append]
    exact prefix_writeAt_zero sizeStored (by simp)

/-- `pop_back` on a non-empty list: the vector then holds the list without its last element. -/
theorem popBack_represents {v : SwappedVector T} {l : List T}
    (represents : Represents serializer v l) (nonempty : l ≠ []) :
    ∃ v', popBack.run v = .ok () v' ∧ Represents serializer v' l.dropLast := by
  obtain ⟨init, last, rfl⟩ : ∃ init last, l = init ++ [last] :=
    ⟨l.dropLast, l.getLast nonempty, (List.dropLast_concat_getLast nonempty).symm⟩
  rw [List.dropLast_concat]
  have count := represents.toFilesHold.length_offsets serializer
  rw [List.length_append, List.length_singleton] at count
  have offsets : v.offsets =
      layoutOffsets 0 (itemSizes serializer init) ++ [(layout serializer init).length] := by
    rw [represents.offsets_eq, itemSizes_append, layoutOffsets_append, length_layout, Nat.zero_add]
  have dropped : v.offsets.dropLast = layoutOffsets 0 (itemSizes serializer init) := by
    rw [offsets, List.dropLast_concat]
  have droppedLength : v.offsets.dropLast.length = init.length := by
    rw [dropped, length_layoutOffsets, itemSizes, List.length_map]
  have lastOffset : v.offsets.getLastD 0 = (layout serializer init).length := by
    rw [offsets, List.getLastD_concat]
  -- The count written, one less as a `uint64_t`, wraps around to the shorter list's.
  have countBytes : podBytes 8 (v.offsets.length + (2 ^ 64 - 1)) = podBytes 8 init.length := by
    rw [count, Nat.add_assoc, show 1 + (2 ^ 64 - 1) = 256 ^ 8 from rfl, podBytes_add_pow]
  have indexes :
      indexBytes serializer init <+: writeAt v.indexesFile 0 (podBytes 8 init.length) := by
    have stored := represents.indexes_stored
    rw [indexBytes_append] at stored
    refine List.IsPrefix.trans ?_ (prefix_writeAt_zero stored (by simp))
    rw [indexBytes]
    exact (List.prefix_append_right_inj _).mpr (List.prefix_append _ _)
  have files : FilesHold serializer
      { v with
        indexesFile := writeAt v.indexesFile 0 (podBytes 8 init.length)
        itemsFileSize := (layout serializer init).length
        offsets := layoutOffsets 0 (itemSizes serializer init) } init :=
    ⟨rfl, rfl,
      (List.prefix_append _ _).trans
        (layout_append serializer init last ▸ represents.items_stored),
      indexes⟩
  refine ⟨_, rfl, ?_⟩
  dsimp only
  rw [droppedLength, dropped, lastOffset, countBytes]
  split
  · -- The last element was cached: its entry leaves the map and the cache.
    refine ⟨⟨represents.positive, (List.length_filter_le _ _).trans represents.pool, ?_, ?_,
      ?_⟩, files.with_cache serializer _ _⟩
    · rw [map_fst_filter_ne represents.keys_nodup]
      exact represents.keys_nodup.erase _
    · rw [map_fst_filter_ne represents.keys_nodup]
      exact represents.cache_perm.erase _
    · intro entry member
      rw [List.mem_filter, decide_eq_true_iff] at member
      exact represents.cached_init member.1 member.2
  · -- It was not: no entry is the last element's.
    rename_i notCached
    simp only [List.any_eq_true, decide_eq_true_iff, not_exists, not_and] at notCached
    exact ⟨⟨represents.positive, represents.pool, represents.keys_nodup, represents.cache_perm,
      fun entry member => represents.cached_init member (notCached entry member)⟩,
      files.with_cache serializer _ _⟩

/-- `clear` leaves a vector holding the empty list. -/
theorem clear_represents {v : SwappedVector T} (positive : 1 ≤ v.poolSize) :
    ∃ v', clear.run v = .ok () v' ∧ Represents serializer v' [] := by
  refine ⟨_, rfl, cacheHolds_of_empty positive rfl rfl, rfl, rfl, List.nil_prefix, ?_⟩
  show indexBytes serializer [] <+: writeAt v.indexesFile 0 (podBytes 8 0)
  rw [writeAt_zero]
  simp [indexBytes]

/-! ### Opening the files -/

/-- Opening without an index file gives a vector holding the empty list, whatever the items file
holds. -/
theorem open_represents_nil (itemFile : Option (List UInt8)) {poolSize : Nat}
    (positive : 1 ≤ poolSize) :
    ∃ v, «open» itemFile none poolSize = some v ∧ Represents serializer v [] ∧
      v.poolSize = poolSize := by
  have stored : indexBytes serializer [] <+: podBytes 8 0 := by
    simp [indexBytes]
  unfold «open»
  rw [if_neg (by omega)]
  -- A new index file, and no offsets, whether the items file existed or not.
  cases itemFile <;> exact ⟨_, rfl, ⟨cacheHolds_of_empty positive rfl rfl, rfl, rfl,
    List.nil_prefix, stored⟩, rfl⟩

/-- Reopening the files of a vector holding a list of fewer than `2 ^ 64` items: the offsets are
laid out from the sizes the index file records, each the item's size modulo `2 ^ 32`. -/
theorem open_of_represents {v : SwappedVector T} {l : List T}
    (represents : Represents serializer v l) (few : l.length < 2 ^ 64) {poolSize : Nat}
    (positive : 1 ≤ poolSize) :
    «open» (some v.itemsFile) (some v.indexesFile) poolSize =
      some (⟨v.itemsFile, v.indexesFile, poolSize,
        layoutOffsets 0 ((itemSizes serializer l).map (· % 2 ^ 32)),
        ((itemSizes serializer l).map (· % 2 ^ 32)).sum, [], []⟩ : SwappedVector T) := by
  obtain ⟨rest, stored⟩ := represents.indexes_stored
  have long : 8 + 4 * l.length ≤ v.indexesFile.length := by
    rw [← stored, List.length_append, length_indexBytes]
    omega
  -- The count at the front.
  have count : littleEndian (v.indexesFile.take 8) = l.length := by
    rw [← stored, indexBytes, List.append_assoc, List.take_left' (length_podBytes 8 _),
      littleEndian_podBytes, show (256 : Nat) ^ 8 = 2 ^ 64 from rfl, Nat.mod_eq_of_lt few]
  -- The sizes after it, one record of four bytes for each item.
  have sizes : readItemSizes v.indexesFile l.length =
      some ((itemSizes serializer l).map (· % 2 ^ 32)) := by
    rw [readItemSizes, if_pos long]
    congr 1
    apply List.ext_getElem (by simp [itemSizes])
    intro i inRange _
    rw [List.length_map, List.length_range] at inRange
    have uniform : ∀ record ∈ l.map (fun t => podBytes 4 (serializer.write t).length),
        record.length = 4 := by
      simp
    have recorded : ((itemSizes serializer l).map (· % 2 ^ 32))[i] =
        (serializer.write l[i]).length % 2 ^ 32 := by
      simp [itemSizes]
    rw [List.getElem_map, List.getElem_range, recorded, ← stored, indexBytes, List.append_assoc,
      ← List.drop_drop, List.drop_left' (length_podBytes 8 _),
      take_drop_flatten_of_width uniform (by simpa using inRange), List.getElem_map,
      littleEndian_podBytes, show (256 : Nat) ^ 4 = 2 ^ 32 from rfl]
  unfold «open»
  rw [if_neg (by omega)]
  dsimp only
  rw [if_neg (by omega), count, sizes]

/-- Reopening the files of a vector holding a list that fits the index file gives a vector holding
the list again. -/
theorem open_represents {v : SwappedVector T} {l : List T} (represents : Represents serializer v l)
    (fits : Fits serializer l) {poolSize : Nat} (positive : 1 ≤ poolSize) :
    ∃ w, «open» (some v.itemsFile) (some v.indexesFile) poolSize = some w ∧
      Represents serializer w l := by
  have unwrapped : (itemSizes serializer l).map (· % 2 ^ 32) = itemSizes serializer l := by
    rw [itemSizes, List.map_map]
    apply List.map_congr_left
    intro t member
    exact Nat.mod_eq_of_lt (fits.2 t member)
  refine ⟨_, open_of_represents serializer represents fits.1 positive,
    cacheHolds_of_empty positive rfl rfl, ?offsets, ?itemsFileSize, represents.items_stored,
    represents.indexes_stored⟩
  case offsets => exact congrArg (layoutOffsets 0) unwrapped
  case itemsFileSize => rw [unwrapped, ← length_layout]

/-! ### Runs of calls -/

/-- The calls a caller makes on the vector once it is open. -/
inductive Call (T : Type) where
  | pushBack (item : T)
  | popBack
  | clear
  | item (index : Nat)

/-- Making a call: what `operator[]` returns, `none` for the others. -/
def Call.apply : Call T → EStateM String (SwappedVector T) (Option T)
  | .pushBack t => do
    SwappedVector.pushBack serializer t
    return none
  | .popBack => do
    SwappedVector.popBack
    return none
  | .clear => do
    SwappedVector.clear
    return none
  | .item index => do
    let t ← SwappedVector.item serializer index
    return some t

/-- The same call on a list: what it returns, and the list after it. -/
def Call.onList : Call T → List T → Option T × List T
  | .pushBack t, l => (none, l ++ [t])
  | .popBack, l => (none, l.dropLast)
  | .clear, _ => (none, [])
  | .item index, l => (l[index]?, l)

/-- What the vector asks of its caller: `pop_back` on a non-empty list, `operator[]` in range. -/
def Call.Allowed : Call T → List T → Prop
  | .popBack, l => l ≠ []
  | .item index, l => index < l.length
  | _, _ => True

instance decidableAllowed : (call : Call T) → (l : List T) → Decidable (call.Allowed l)
  | .pushBack _, _ => instDecidableTrue
  | .popBack, l => inferInstanceAs (Decidable (l ≠ []))
  | .clear, _ => instDecidableTrue
  | .item index, l => inferInstanceAs (Decidable (index < l.length))

/-- Calls each allowed on the list the ones before it leave. -/
def AllowedRun : List (Call T) → List T → Prop
  | [], _ => True
  | call :: calls, l => call.Allowed l ∧ AllowedRun calls (call.onList l).2

instance decidableAllowedRun : (calls : List (Call T)) → (l : List T) →
    Decidable (AllowedRun calls l)
  | [], _ => instDecidableTrue
  | call :: calls, l =>
    haveI := decidableAllowedRun calls (call.onList l).2
    inferInstanceAs (Decidable (call.Allowed l ∧ AllowedRun calls (call.onList l).2))

/-- The calls made on a list: what each returns, and the list they leave. -/
def runOnList : List (Call T) → List T → List (Option T) × List T
  | [], l => ([], l)
  | call :: calls, l =>
    let rest := runOnList calls (call.onList l).2
    ((call.onList l).1 :: rest.1, rest.2)

/-- `size()` and `operator[]` on `v` agree with the list `l`: the size is its length, and
`operator[]` at each of its indexes returns its element. -/
def ReadsAs (v : SwappedVector T) (l : List T) : Prop :=
  size v = l.length ∧
    ∀ index (inRange : index < l.length), ∃ v', (item serializer index).run v = .ok l[index] v'

theorem Represents.readsAs (roundTrip : RoundTrips serializer) {v : SwappedVector T} {l : List T}
    (represents : Represents serializer v l) : ReadsAs serializer v l := by
  refine ⟨represents.toFilesHold.length_offsets serializer, fun index inRange => ?_⟩
  obtain ⟨v', read, -⟩ := item_represents serializer roundTrip represents inRange
  exact ⟨v', read⟩

/-- `operator[]` keeps the pool size, whether it returns or throws. -/
theorem item_keeps_poolSize (poolSize index : Nat) :
    Keeps (·.poolSize = poolSize) (item serializer index) := by
  intro v same
  cases found : v.items.lookup index with
  | some cached =>
    rw [item_run_of_lookup serializer found]
    split <;> exact same
  | none =>
    by_cases inRange : index < v.offsets.length
    · cases readAt : serializer.read.run (v.itemsFile.drop (v.offsets.getD index 0)) with
      | none =>
        rw [item_run_of_read_eq_none serializer found inRange readAt]
        exact same
      | some result =>
        rw [item_run_of_read serializer found inRange readAt]
        exact (poolSize_prepare _ _ _).trans same
    · rw [item_run_of_le serializer found (Nat.le_of_not_lt inRange)]
      exact same

/-- Every call keeps the pool size. -/
theorem apply_keeps_poolSize (poolSize : Nat) (call : Call T) :
    Keeps (·.poolSize = poolSize) (call.apply serializer) := by
  cases call with
  | pushBack t =>
    exact Keeps.bind (Keeps.modify fun _ same => (poolSize_prepare _ _ _).trans same)
      fun _ => Keeps.pure _
  | popBack =>
    refine Keeps.bind (Keeps.modify fun _ same => ?_) fun _ => Keeps.pure _
    dsimp only
    split <;> exact same
  | clear => exact Keeps.bind (Keeps.modify fun _ same => same) fun _ => Keeps.pure _
  | item index =>
    exact Keeps.bind (item_keeps_poolSize serializer poolSize index) fun _ => Keeps.pure _

/-- An allowed call returns what it returns on the list, and the vector then holds the list the
call leaves. -/
theorem apply_represents (roundTrip : RoundTrips serializer) {v : SwappedVector T} {l : List T}
    (represents : Represents serializer v l) {call : Call T} (allowed : call.Allowed l) :
    ∃ v', (call.apply serializer).run v = .ok (call.onList l).1 v' ∧
      Represents serializer v' (call.onList l).2 := by
  cases call with
  | pushBack t =>
    obtain ⟨v', pushed, holds⟩ := pushBack_represents serializer represents t
    exact ⟨v', EStateM.run_bind_eq_ok.mpr ⟨(), v', pushed, rfl⟩, holds⟩
  | popBack =>
    obtain ⟨v', popped, holds⟩ := popBack_represents serializer represents allowed
    exact ⟨v', EStateM.run_bind_eq_ok.mpr ⟨(), v', popped, rfl⟩, holds⟩
  | clear =>
    obtain ⟨v', cleared, holds⟩ := clear_represents serializer represents.positive
    exact ⟨v', EStateM.run_bind_eq_ok.mpr ⟨(), v', cleared, rfl⟩, holds⟩
  | item index =>
    obtain ⟨v', read, holds⟩ := item_represents serializer roundTrip represents allowed
    refine ⟨v', EStateM.run_bind_eq_ok.mpr ⟨_, v', read, ?_⟩, holds⟩
    -- The list's `operator[]` in range is its element.
    show EStateM.Result.ok (some l[index]) v' = .ok l[index]? v'
    rw [List.getElem?_eq_getElem allowed]

/-- A run of allowed calls returns what the same calls return on the list, and the vector then
holds the list they leave. -/
theorem mapM_represents (roundTrip : RoundTrips serializer) :
    ∀ {calls : List (Call T)} {v : SwappedVector T} {l : List T},
      Represents serializer v l → AllowedRun calls l →
      ∃ v', (calls.mapM (Call.apply serializer)).run v = .ok (runOnList calls l).1 v' ∧
        Represents serializer v' (runOnList calls l).2
  | [], v, _, represents, _ => ⟨v, rfl, represents⟩
  | call :: calls, _, _, represents, ⟨allowed, rest⟩ => by
    -- The first call, then the others from the list it leaves.
    obtain ⟨v₁, first, holds₁⟩ := apply_represents serializer roundTrip represents allowed
    obtain ⟨v₂, later, holds₂⟩ := mapM_represents roundTrip holds₁ rest
    refine ⟨v₂, ?_, holds₂⟩
    rw [List.mapM_cons]
    exact EStateM.run_bind_eq_ok.mpr
      ⟨_, v₁, first, EStateM.run_bind_eq_ok.mpr ⟨_, v₂, later, rfl⟩⟩

/-- A serializer of `Bool` writing `width` copies of one byte, and reading the first of `width`
bytes back. -/
def repeatedBool (width : Nat) : ItemSerializer Bool where
  write b := List.replicate width (if b then 1 else 0)
  read := (fun bytes => bytes.head? == some 1) <$> take width

theorem repeatedBool_roundTrips {width : Nat} (positive : 0 < width) :
    RoundTrips (repeatedBool width) := by
  intro b
  have taken := reads_take ((repeatedBool width).write b)
  have firstByte : ((repeatedBool width).write b).head? = some (if b then 1 else 0) := by
    simp [repeatedBool, List.head?_replicate, Nat.pos_iff_ne_zero.mp positive]
  rw [show ((repeatedBool width).write b).length = width by simp [repeatedBool]] at taken
  have read := taken.map (fun bytes => bytes.head? == some 1)
  rw [firstByte] at read
  cases b <;> exact read

end SwappedVector
