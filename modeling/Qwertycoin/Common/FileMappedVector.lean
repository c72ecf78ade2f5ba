import Qwertycoin.Lib.ByteFile
import Qwertycoin.Lib.StateRun

/-!
`Common::FileMappedVector<T>` (`FileMappedVector.h`), over the POSIX `MemoryMappedFile`. Its file
holds a prefix of `m_prefixSize` bytes, the capacity and the size as `uint64_t`, room for
`capacity` elements of `sizeof(T)` bytes (`valueSize`), and a suffix of `m_suffixSize` bytes.

`push_back`, `pop_back` and `clear` store into the mapping in place. Every other change goes
through `atomicUpdate0`: a new file is created beside the vector's and filled, the vector's file is
renamed to `.bak` and the new one to the vector's path, and the `.bak` file removed. `open`
finishes a swap that a crash cut short: a `.bak` file beside the vector's file is removed, and one
without it is renamed back.

The files are byte lists by path. A store into a mapping is taken to reach its file at once; the
code flushes the new file before the renames, so no file that a crash leaves and `open` reads
differs for it. Beside the files the disk records every state of them that a crash right after a
file-system step would leave (`Disk.crashes`), which the code has no counterpart of.
-/

namespace Common

open ByteFile

/-- `FileMappedVectorOpenMode`. -/
inductive FileMappedVectorOpenMode where
  | «open»
  | create
  | openOrCreate
  deriving DecidableEq

/-- The step of `MemoryMappedFile::create` at which the system refuses a new file: `open` (no
descriptor or directory entry left), `ftruncate` (`EFBIG`, `ENOSPC`) or `mmap` (`ENOMEM`). -/
inductive Refusal where
  | opening
  | truncating
  | mapping
  deriving DecidableEq

/-- The files by path, and the states of them that a crash could leave, oldest first: the files
after each step. `refuses` says, for each size, where the system refuses to create a file of it,
if it does; the code's own checks come on top of it. -/
structure Disk where
  files : List Char → Option (List UInt8)
  crashes : List (List Char → Option (List UInt8))
  refuses : Nat → Option Refusal

/-- The disk after a file-system step that leaves `files`. -/
def Disk.commit (disk : Disk) (files : List Char → Option (List UInt8)) : Disk :=
  { disk with files, crashes := disk.crashes ++ [files] }

/-- The members of `FileMappedVector<T>` that its operations read: `m_path`, the path of the file
that `m_file` maps, `m_prefixSize` and `m_suffixSize`. -/
structure FileMappedVector where
  path : List Char
  filePath : List Char
  prefixSize : Nat
  suffixSize : Nat
  deriving DecidableEq

namespace FileMappedVector

/-- The operations run on the disk and the vector, and throw a message. -/
abbrev Op := EStateM String (Disk × FileMappedVector)

/-- `metadataSize`: the capacity and the size, a `uint64_t` each. -/
def metadataSize : Nat := 16

/-- `path + ".bak"`. -/
def bakPath (path : List Char) : List Char := path ++ ['.', 'b', 'a', 'k']

/-- `unique_path(path + ".tmp.%%%%-%%%%")`, with `token` the random characters put in place of
`%%%%-%%%%`. -/
def tmpPath (path token : List Char) : List Char := path ++ ['.', 't', 'm', 'p', '.'] ++ token

/-! ### Files and mappings -/

/-- The files after a file-system step, from then on a state that a crash may leave. -/
def commit (files : List Char → Option (List UInt8)) : Op Unit :=
  modify fun (disk, v) => (disk.commit files, v)

/-- `boost::filesystem::exists`. -/
def fileExists (path : List Char) : Op Bool := do
  let (disk, _) ← get
  pure (disk.files path).isSome

/-- `boost::filesystem::remove`: no file at the path afterwards, whether there was one or not. -/
def removeFile (path : List Char) : Op Unit := do
  let (disk, _) ← get
  commit (Function.update disk.files path none)

/-- `if (boost::filesystem::exists(path)) boost::filesystem::remove(path)`. -/
def removeIfExists (path : List Char) : Op Unit := do
  if ← fileExists path then removeFile path

/-- `rename(2)`: the file at `source` takes the place of any file at `target`; there must be a
file at `source`. -/
def renameFile (source target : List Char) : Op Unit := do
  let (disk, _) ← get
  match disk.files source with
  | none => throw "rename"
  | some file =>
    commit (Function.update (Function.update disk.files source none) target (some file))

/-- `MemoryMappedFile::create(path, size, false)`: `open` with `O_CREAT | O_EXCL`, which fails on
a file that exists; `ftruncate` to `size` zero bytes, which fails on a size that is negative as an
`off_t`; and `mmap`, which fails on an empty file. Each fails too where the system refuses it. The
file stays after a later failure. -/
def createFile (path : List Char) (size : Nat) : Op Unit := do
  let (disk, _) ← get
  if (disk.files path).isSome ∨ disk.refuses size = some .opening then
    throw "MemoryMappedFile::create"
  commit (Function.update disk.files path (some []))
  if 2 ^ 63 ≤ size ∨ disk.refuses size = some .truncating then throw "MemoryMappedFile::create"
  commit (Function.update disk.files path (some (List.replicate size 0)))
  if size = 0 ∨ disk.refuses size = some .mapping then throw "MemoryMappedFile::create"

/-- `MemoryMappedFile::open`: the file must exist, and not be empty for `mmap`. -/
def openFile (path : List Char) : Op (List UInt8) := do
  let (disk, _) ← get
  match disk.files path with
  | none => throw "MemoryMappedFile::open"
  | some file => if file = [] then throw "MemoryMappedFile::open" else pure file

/-- The size of a page, the unit in which `mmap` maps a file. -/
def pageSize : Nat := 4096

/-- A store into the mapping of the file at `path`. The mapping covers the pages the file reaches
when it is mapped: a store past its last page is a bus error, and the bytes of a store that fall
past the file's end but inside that page stay in the page and never reach the file. -/
def storeBytes (path : List Char) (pos : Nat) (bytes : List UInt8) : Op Unit := do
  let (disk, _) ← get
  match disk.files path with
  | none => throw "SIGBUS"
  | some file =>
    if pos + bytes.length ≤ (file.length + pageSize - 1) / pageSize * pageSize then
      commit (Function.update disk.files path (some ((writeAt file pos bytes).take file.length)))
    else throw "SIGBUS"

/-- The bytes of the vector's mapping. -/
def mapped : Op (List UInt8) := do
  let (disk, v) ← get
  pure ((disk.files v.filePath).getD [])

/-! ### The layout -/

/-- `*capacityPtr()`: the `uint64_t` at `prefixSize`. -/
def storedCapacity (file : List UInt8) (prefixSize : Nat) : Nat :=
  littleEndian ((file.drop prefixSize).take 8)

/-- `*sizePtr()`: the `uint64_t` after the capacity. -/
def storedSize (file : List UInt8) (prefixSize : Nat) : Nat :=
  littleEndian ((file.drop (prefixSize + 8)).take 8)

/-- `capacity()`. -/
def capacity : Op Nat := do
  let file ← mapped
  let (_, v) ← get
  pure (storedCapacity file v.prefixSize)

/-- `size()`. -/
def size : Op Nat := do
  let file ← mapped
  let (_, v) ← get
  pure (storedSize file v.prefixSize)

/-- `nextCapacity()`, in `uint64_t`. -/
def nextCapacity : Op Nat := do
  let current ← capacity
  pure ((current + current / 2 + 1) % 2 ^ 64)

/-- `prefix()`: the `prefixSize()` bytes at the front. -/
def prefixBytes : Op (List UInt8) := do
  let file ← mapped
  let (_, v) ← get
  pure (file.take v.prefixSize)

section
variable (valueSize : Nat)

/-- The bytes of the elements from `first` up to `last`, as `std::copy` reads them from a mapping
whose prefix has `prefixSize` bytes. -/
def elementBytes (file : List UInt8) (prefixSize first last : Nat) : List UInt8 :=
  (file.drop (prefixSize + metadataSize + first * valueSize)).take ((last - first) * valueSize)

/-- `operator[](index)`: the element's bytes. -/
def item (index : Nat) : Op (List UInt8) := do
  let file ← mapped
  let (_, v) ← get
  pure (elementBytes valueSize file v.prefixSize index (index + 1))

/-- `suffix()`: the `suffixSize()` bytes after the room for `capacity()` elements. -/
def suffixBytes : Op (List UInt8) := do
  let file ← mapped
  let (_, v) ← get
  pure ((file.drop (v.prefixSize + metadataSize + storedCapacity file v.prefixSize * valueSize)).take
    v.suffixSize)

/-! ### Creating and opening -/

/-- `create(path, initialCapacity, prefixSize, suffixSize)`: a new file as long as the four parts
add up to in `uint64_t`, with the size `0` and the capacity stored. -/
def create (path : List Char) (initialCapacity prefixSize suffixSize : Nat) :
    Op FileMappedVector := do
  createFile path ((prefixSize + metadataSize + initialCapacity * valueSize + suffixSize) % 2 ^ 64)
  storeBytes path (prefixSize + 8) (podBytes 8 0)
  storeBytes path prefixSize (podBytes 8 initialCapacity)
  pure ⟨path, path, prefixSize, suffixSize⟩

/-- `open(path, prefixSize)`: the file must hold the prefix and the two counts, the size must not
pass the capacity, and the file must hold the capacity's elements; what is left is the suffix. -/
def openPath (path : List Char) (prefixSize : Nat) : Op FileMappedVector := do
  let file ← openFile path
  if file.length < (prefixSize + metadataSize) % 2 ^ 64 then
    throw "FileMappedVector::open() file is too small"
  if storedSize file prefixSize > storedCapacity file prefixSize then
    throw "FileMappedVector::open() vector size is greater than capacity"
  let minRequiredFileSize :=
    (prefixSize + metadataSize + storedCapacity file prefixSize * valueSize) % 2 ^ 64
  if file.length < minRequiredFileSize then
    throw "FileMappedVector::open() invalid file size"
  pure ⟨path, path, prefixSize, file.length - minRequiredFileSize⟩

/-- The start of `open(path, mode, prefixSize)`: a `.bak` file beside the vector's file is removed,
and one without it renamed to the vector's path; whether there is a vector file then. -/
def restoreBak (path : List Char) : Op Bool := do
  if ← fileExists path then
    removeIfExists (bakPath path)
    pure true
  else if ← fileExists (bakPath path) then
    renameFile (bakPath path) path
    pure true
  else pure false

/-- `open(path, mode, prefixSize)`: after `restoreBak`, the file is opened, or created with room for
ten elements. -/
def «open» (path : List Char) (mode : FileMappedVectorOpenMode) (prefixSize : Nat) : Op Unit := do
  let initialCapacity := 10
  let found ← restoreBak path
  let v ← match mode with
    | .open => openPath valueSize path prefixSize
    | .create => create valueSize path initialCapacity prefixSize 0
    | .openOrCreate =>
      if found then openPath valueSize path prefixSize
      else create valueSize path initialCapacity prefixSize 0
  modify fun (disk, _) => (disk, v)

/-! ### Updates through a new file -/

/-- The swap of `atomicUpdate0`: the vector's file is renamed to `bak`, which the vector maps from
then on, and the new file to the vector's path. When the second rename fails, the first one is
undone as far as it can be. -/
def swapFiles (tmp bak path : List Char) : Op Unit := do
  renameFile path bak
  modify fun (disk, mapping) => (disk, { mapping with filePath := bak })
  tryCatch (renameFile tmp path) fun _ => do
    tryCatch
      (do
        renameFile bak path
        modify fun (disk, mapping) => (disk, { mapping with filePath := path }))
      fun _ => pure ()
    throw "Failed to swap temporary and vector files"

/-- `atomicUpdate0`: `func` fills a new file, with the new capacity, prefix size and suffix size,
created beside the vector's file; the files are swapped, and the `.bak` file removed.
`tmpFileDeleter` removes the new file on an exception before the swap is done. -/
def atomicUpdate0 (token : List Char) (newCapacity newPrefixSize newSuffixSize : Nat)
    (func : FileMappedVector → Op Unit) : Op Unit := do
  let (_, v) ← get
  if v.filePath ≠ v.path then throw "Vector is mapped to a .bak file due to earlier errors"
  let bak := bakPath v.path
  let tmp := tmpPath v.path token
  removeIfExists bak
  let tmpVector ← tryCatch
    (do
      let tmpVector ← create valueSize tmp newCapacity newPrefixSize newSuffixSize
      func tmpVector
      swapFiles tmp bak v.path
      pure tmpVector)
    fun e => do
      removeFile tmp
      throw e
  -- `swap(tmpVector)`: the vector maps the new file, now at its path
  modify fun (disk, _) => (disk, { tmpVector with path := v.path, filePath := v.path })
  removeFile bak

/-- The prefix copy of `atomicUpdate`: as many bytes of the old prefix as the new file has room for,
when neither prefix is empty. -/
def copyPrefix (file : List UInt8) (v newVector : FileMappedVector) : Op Unit :=
  if v.prefixSize ≠ 0 ∧ newVector.prefixSize ≠ 0 then
    storeBytes newVector.filePath 0 (file.take (min v.prefixSize newVector.prefixSize))
  else pure ()

/-- The suffix copy of `atomicUpdate`: as many bytes of the old suffix as the new file has room
for, after its room for `newCapacity` elements, when neither suffix is empty. -/
def copySuffix (file : List UInt8) (v newVector : FileMappedVector) (newCapacity : Nat) : Op Unit :=
  if v.suffixSize ≠ 0 ∧ newVector.suffixSize ≠ 0 then
    storeBytes newVector.filePath (newVector.prefixSize + metadataSize + newCapacity * valueSize)
      ((file.drop (v.prefixSize + metadataSize + storedCapacity file v.prefixSize * valueSize)).take
        (min v.suffixSize newVector.suffixSize))
  else pure ()

/-- The function `atomicUpdate` gives `atomicUpdate0`: the prefix copy, the new size, the pieces
that `copies` makes of the old file, each at its element index (`func(newVector.data())`), and
the suffix copy. -/
def atomicUpdateFill (newSize newCapacity : Nat) (copies : List UInt8 → List (Nat × List UInt8))
    (newVector : FileMappedVector) : Op Unit := do
  let file ← mapped
  let (_, v) ← get
  copyPrefix file v newVector
  storeBytes newVector.filePath (newVector.prefixSize + 8) (podBytes 8 newSize)
  (copies file).forM fun (index, bytes) =>
    storeBytes newVector.filePath (newVector.prefixSize + metadataSize + index * valueSize) bytes
  copySuffix valueSize file v newVector newCapacity

/-- `atomicUpdate(newSize, newCapacity, newPrefixSize, newSuffixSize, func)`, with `copies` the
pieces `func` copies; they are read from the old file, as the lambdas read the old mapping. -/
def atomicUpdate (token : List Char) (newSize newCapacity newPrefixSize newSuffixSize : Nat)
    (copies : List UInt8 → List (Nat × List UInt8)) : Op Unit :=
  atomicUpdate0 valueSize token newCapacity newPrefixSize newSuffixSize
    (atomicUpdateFill valueSize newSize newCapacity copies)

/-! ### The operations -/

/-- `reserve(n)`. -/
def reserve (token : List Char) (n : Nat) : Op Unit := do
  let (_, v) ← get
  if n > (← capacity) then
    let count ← size
    atomicUpdate valueSize token count n v.prefixSize v.suffixSize fun file =>
      [(0, elementBytes valueSize file v.prefixSize 0 count)]

/-- `shrink_to_fit()`. -/
def shrinkToFit (token : List Char) : Op Unit := do
  let (_, v) ← get
  let count ← size
  if count < (← capacity) then
    atomicUpdate valueSize token count count v.prefixSize v.suffixSize fun file =>
      [(0, elementBytes valueSize file v.prefixSize 0 count)]

/-- `clear()`. -/
def clear : Op Unit := do
  let (_, v) ← get
  storeBytes v.filePath (v.prefixSize + 8) (podBytes 8 0)

/-- `erase(first, last)`, for the elements from index `first` up to `last`; the size goes down by
the distance in `uint64_t`. -/
def erase (token : List Char) (first last : Nat) : Op Unit := do
  let (_, v) ← get
  let count ← size
  let newSize := (count + 2 ^ 64 - (last - first)) % 2 ^ 64
  atomicUpdate valueSize token newSize (← capacity) v.prefixSize v.suffixSize fun file =>
    [(0, elementBytes valueSize file v.prefixSize 0 first),
      (first, elementBytes valueSize file v.prefixSize last count)]

/-- `insert(position, first, last)`, with `values` the elements of the range: the capacity grows to
`nextCapacity()`, or to the new size when that is more, if the new size passes it. -/
def insert (token : List Char) (position : Nat) (values : List (List UInt8)) : Op Unit := do
  let (_, v) ← get
  let count ← size
  let newSize := (count + values.length) % 2 ^ 64
  let current ← capacity
  let next ← nextCapacity
  let newCapacity := if newSize > current then (if newSize > next then newSize else next)
    else current
  atomicUpdate valueSize token newSize newCapacity v.prefixSize v.suffixSize fun file =>
    [(0, elementBytes valueSize file v.prefixSize 0 position), (position, values.flatten),
      (position + values.length, elementBytes valueSize file v.prefixSize position count)]

/-- `pop_back()`: the size goes down by one, in `uint64_t`. -/
def popBack : Op Unit := do
  let (_, v) ← get
  let count ← size
  storeBytes v.filePath (v.prefixSize + 8) (podBytes 8 ((count + 2 ^ 64 - 1) % 2 ^ 64))

/-- The end of `push_back(val)`: the element goes after the last one, and then the size goes up by
one, in `uint64_t`. -/
def storeBack (val : List UInt8) : Op Unit := do
  let (_, v) ← get
  let count ← size
  storeBytes v.filePath (v.prefixSize + metadataSize + count * valueSize) val
  storeBytes v.filePath (v.prefixSize + 8) (podBytes 8 ((count + 1) % 2 ^ 64))

/-- `push_back(val)`: with no room left, the capacity grows to `nextCapacity()` first. -/
def pushBack (token : List Char) (val : List UInt8) : Op Unit := do
  if (← capacity) = (← size) then reserve valueSize token (← nextCapacity)
  storeBack valueSize val

/-- `resizePrefix(newPrefixSize)`. -/
def resizePrefix (token : List Char) (newPrefixSize : Nat) : Op Unit := do
  let (_, v) ← get
  if v.prefixSize ≠ newPrefixSize then
    let count ← size
    atomicUpdate valueSize token count (← capacity) newPrefixSize v.suffixSize fun file =>
      [(0, elementBytes valueSize file v.prefixSize 0 count)]

/-- `resizeSuffix(newSuffixSize)`. -/
def resizeSuffix (token : List Char) (newSuffixSize : Nat) : Op Unit := do
  let (_, v) ← get
  if v.suffixSize ≠ newSuffixSize then
    let count ← size
    atomicUpdate valueSize token count (← capacity) v.prefixSize newSuffixSize fun file =>
      [(0, elementBytes valueSize file v.prefixSize 0 count)]

end

end FileMappedVector

end Common
