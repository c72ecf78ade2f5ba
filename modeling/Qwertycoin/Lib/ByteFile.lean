import Qwertycoin.Lib.FixedDigits

/-!
Files as lists of bytes. A write at a position (`seekp` then `write`) keeps the bytes in front of
it, fills a gap past the end with zeros, and overwrites what lies under it; the file grows only
when the write runs past its end. A plain-old-data integer is written as its bytes in memory,
lowest first (`podBytes`), and read back with `littleEndian`.

The lemmas describe files by a prefix that is known: a write just after a known prefix extends it
(`prefix_writeAt_length`), and a write at the front replaces the bytes it covers
(`writeAt_zero`).
-/

namespace ByteFile

/-- The file after writing `bytes` at `pos`. -/
def writeAt (file : List UInt8) (pos : Nat) (bytes : List UInt8) : List UInt8 :=
  file.take pos ++ List.replicate (pos - file.length) 0 ++ bytes ++ file.drop (pos + bytes.length)

/-- The `width` bytes of an integer in memory, lowest first. -/
def podBytes (width value : Nat) : List UInt8 :=
  (Nat.fixedDigits 256 width value).map UInt8.ofNat

@[simp] theorem length_podBytes (width value : Nat) : (podBytes width value).length = width := by
  simp [podBytes]

/-- An integer's bytes are those of its remainder modulo `256 ^ width`, as a cast to the width
leaves them. -/
theorem podBytes_mod (width value : Nat) :
    podBytes width (value % 256 ^ width) = podBytes width value := by
  rw [podBytes, Nat.fixedDigits_mod, podBytes]

/-- A count that wrapped around the width has the bytes of the count it wrapped from. -/
theorem podBytes_add_pow (width value : Nat) :
    podBytes width (value + 256 ^ width) = podBytes width value := by
  rw [← podBytes_mod, Nat.add_mod_right, podBytes_mod]

/-- An integer's bytes read back as the integer, modulo the width. -/
theorem littleEndian_podBytes (width value : Nat) :
    littleEndian (podBytes width value) = value % 256 ^ width :=
  littleEndian_fixedDigits width value

/-- A write at the front replaces the bytes it covers. -/
theorem writeAt_zero (file bytes : List UInt8) :
    writeAt file 0 bytes = bytes ++ file.drop bytes.length := by
  simp [writeAt]

/-- A write just after a prefix of the file keeps the prefix and puts the bytes after it. -/
theorem writeAt_length {front file : List UInt8} (known : front <+: file) (bytes : List UInt8) :
    writeAt file front.length bytes =
      front ++ bytes ++ file.drop (front.length + bytes.length) := by
  obtain ⟨rest, rfl⟩ := known
  simp [writeAt]

/-- So the prefix grows by the bytes written. -/
theorem prefix_writeAt_length {front file : List UInt8} (known : front <+: file)
    (bytes : List UInt8) : front ++ bytes <+: writeAt file front.length bytes := by
  rw [writeAt_length known]
  exact List.prefix_append _ _

/-- A write at the front of a file with a known prefix of at least its length replaces the front of
that prefix. -/
theorem prefix_writeAt_zero {bytes front rest file : List UInt8} (known : front ++ rest <+: file)
    (covers : bytes.length = front.length) : bytes ++ rest <+: writeAt file 0 bytes := by
  obtain ⟨after, rfl⟩ := known
  rw [writeAt_zero, covers, List.append_assoc, List.drop_left]
  exact List.prefix_append_right_inj _ |>.mpr (List.prefix_append _ _)

/-- A write that ends inside the front part of a file leaves what follows it. -/
theorem writeAt_append_left {front : List UInt8} (back : List UInt8) {pos : Nat}
    {bytes : List UInt8} (inside : pos + bytes.length ≤ front.length) :
    writeAt (front ++ back) pos bytes = writeAt front pos bytes ++ back := by
  have before : pos ≤ front.length := by omega
  simp [writeAt, List.take_append_of_le_length before, List.drop_append_of_le_length inside,
    Nat.sub_eq_zero_of_le before]
  omega

/-- A write past the front part of a file leaves the front part, and writes into the rest. -/
theorem writeAt_append_right {front : List UInt8} (rest : List UInt8) {pos : Nat}
    (past : front.length ≤ pos) (bytes : List UInt8) :
    writeAt (front ++ rest) pos bytes = front ++ writeAt rest (pos - front.length) bytes := by
  obtain ⟨pos, rfl⟩ := Nat.exists_eq_add_of_le past
  rw [Nat.add_sub_cancel_left]
  have takesFront : front.take (front.length + pos) = front := List.take_of_length_le (by omega)
  have dropsFront : front.drop (front.length + (pos + bytes.length)) = [] :=
    List.drop_eq_nil_of_le (by omega)
  simp [writeAt, List.take_append, List.drop_append, Nat.add_assoc, takesFront, dropsFront,
    Nat.add_sub_add_left]

/-- A write inside the file keeps its length. -/
theorem length_writeAt {file : List UInt8} {pos : Nat} {bytes : List UInt8}
    (inside : pos + bytes.length ≤ file.length) : (writeAt file pos bytes).length = file.length := by
  simp [writeAt]
  omega

/-- A write at the front of zeros leaves the zeros after it. -/
theorem writeAt_replicate_zero (k : Nat) (bytes : List UInt8) :
    writeAt (List.replicate k 0) 0 bytes = bytes ++ List.replicate (k - bytes.length) 0 := by
  rw [writeAt_zero, List.drop_replicate]

/-- Writing a byte over a run of it changes nothing. -/
theorem writeAt_replicate_replicate {n pos k : Nat} (a : UInt8) (inside : pos + k ≤ n) :
    writeAt (List.replicate n a) pos (List.replicate k a) = List.replicate n a := by
  have : pos + k + (n - (pos + k)) = n := by omega
  simp [writeAt, List.take_replicate, List.drop_replicate, Nat.min_eq_left (by omega : pos ≤ n),
    Nat.sub_eq_zero_of_le (by omega : pos ≤ n), List.replicate_append_replicate]
  omega

/-- The bytes of zero are zeros. -/
theorem podBytes_zero (width : Nat) : podBytes width 0 = List.replicate width 0 := by
  simp [podBytes]

/-- A byte string cut, or padded with zeros, to `n` bytes. -/
def resize (bytes : List UInt8) (n : Nat) : List UInt8 :=
  bytes.take n ++ List.replicate (n - bytes.length) 0

@[simp] theorem length_resize (bytes : List UInt8) (n : Nat) : (resize bytes n).length = n := by
  simp [resize]
  omega

/-- Resizing to the length a byte string has keeps it. -/
theorem resize_length (bytes : List UInt8) : resize bytes bytes.length = bytes := by
  simp [resize]

/-- In a file of records of one width, the `i`-th record lies `width * i` bytes in. -/
theorem take_drop_flatten_of_width {α : Type} :
    ∀ {records : List (List α)} {width : Nat},
      (∀ record ∈ records, record.length = width) →
      ∀ {i : Nat} (inRange : i < records.length) (rest : List α),
        ((records.flatten ++ rest).drop (width * i)).take width = records[i]
  | [], _, _, _, inRange, _ => absurd inRange (Nat.not_lt_zero _)
  | first :: records, width, uniform, 0, _, rest => by
    have own := uniform first List.mem_cons_self
    simp [List.take_left' own]
  | first :: records, width, uniform, i + 1, inRange, rest => by
    have later := take_drop_flatten_of_width
      (fun record member => uniform record (List.mem_cons_of_mem _ member))
      (Nat.lt_of_succ_lt_succ inRange) rest
    have own := uniform first List.mem_cons_self
    subst own
    -- Past the first record, the rest of the file is read from its own start.
    rw [List.flatten_cons, List.append_assoc, Nat.mul_succ, Nat.add_comm, ← List.drop_drop,
      List.drop_left, later, List.getElem_cons_succ]

/-- Past the first `i` records of one width lie the other records. -/
theorem drop_flatten_of_width {α : Type} :
    ∀ {records : List (List α)} {width : Nat}, (∀ record ∈ records, record.length = width) →
      ∀ i : Nat, records.flatten.drop (width * i) = (records.drop i).flatten
  | [], _, _, i => by simp
  | first :: records, width, uniform, 0 => by simp
  | first :: records, width, uniform, i + 1 => by
    have later := drop_flatten_of_width
      (fun record member => uniform record (List.mem_cons_of_mem _ member)) i
    have own := uniform first List.mem_cons_self
    subst own
    -- the first record goes, and the rest is cut `i` records in
    rw [List.flatten_cons, Nat.mul_succ, Nat.add_comm, ← List.drop_drop, List.drop_left, later,
      List.drop_succ_cons]

/-- The first `i` records of one width are the first `width * i` elements. -/
theorem take_flatten_of_width {α : Type} :
    ∀ {records : List (List α)} {width : Nat}, (∀ record ∈ records, record.length = width) →
      ∀ i : Nat, records.flatten.take (width * i) = (records.take i).flatten
  | [], _, _, i => by simp
  | first :: records, width, uniform, 0 => by simp
  | first :: records, width, uniform, i + 1 => by
    have later := take_flatten_of_width
      (fun record member => uniform record (List.mem_cons_of_mem _ member)) i
    have own := uniform first List.mem_cons_self
    subst own
    -- the first record stays whole, and `i` records follow it
    rw [List.flatten_cons, Nat.mul_succ, Nat.add_comm, List.take_length_add_append, later,
      List.take_succ_cons, List.flatten_cons]

end ByteFile
