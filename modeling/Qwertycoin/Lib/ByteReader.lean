import Qwertycoin.Lib.Varint

/-!
Readers of byte strings: a reader takes bytes off the front of its input and returns a value with
the bytes left, or refuses the input. `Reads read bytes a` says that `read` takes exactly `bytes`
to produce `a`, whatever follows; it composes along `bind`, so a reader built from smaller ones
reads back what the matching writer wrote (`Reads.bind`). The other way, `run_bind_eq_some` takes
an accepted input apart along the same binds, and each primitive reader says what it accepts:
exactly the next bytes (`take_eq_some`, `takeVector_eq_some`), the writer's form of a varint (`varint_eq_some`).
-/

/-- A reader of bytes: the value read and the bytes after it, or `none` for a refused input. -/
abbrev ByteReader := StateT (List UInt8) Option

namespace ByteReader

variable {α β : Type}

/-- `read` consumes exactly `bytes` and produces `a`, whatever bytes follow. -/
def Reads (read : ByteReader α) (bytes : List UInt8) (a : α) : Prop :=
  ∀ rest, read.run (bytes ++ rest) = some (a, rest)

/-- The next `n` bytes. -/
def take (n : Nat) : ByteReader (List UInt8) := fun bytes =>
  if n ≤ bytes.length then some (bytes.take n, bytes.drop n) else none

/-- The next `n` bytes, as a vector. -/
def takeVector (n : Nat) : ByteReader (Vector UInt8 n) := fun bytes =>
  if enough : n ≤ bytes.length then some (⟨(bytes.take n).toArray, by simp [enough]⟩, bytes.drop n)
  else none

/-- A varint of a `width`-bit integer. -/
def varint (width : Nat) : ByteReader Nat := fun bytes => Varint.decode width bytes

/-- `count` values, one after the other. -/
def many (read : ByteReader α) : (count : Nat) → ByteReader (List α)
  | 0 => pure []
  | count + 1 => do
    let a ← read
    let as ← many read count
    return a :: as

section Composition

variable {x : ByteReader α} {f : α → ByteReader β}

theorem Reads.pure (a : α) : Reads (Pure.pure a) [] a := fun _ => rfl

theorem Reads.bind {bytes bytes' : List UInt8} {a : α} {b : β} (first : Reads x bytes a)
    (second : Reads (f a) bytes' b) : Reads (x >>= f) (bytes ++ bytes') b := by
  intro rest
  rw [StateT.run_bind, List.append_assoc, first (bytes' ++ rest)]
  exact second rest

theorem Reads.map {bytes : List UInt8} {a : α} (g : α → β) (read : Reads x bytes a) :
    Reads (g <$> x) bytes (g a) := by
  intro rest
  rw [StateT.run_map, read rest]
  rfl

/-- After a reader that reads `bytes` as `a`, the rest of a bind runs on what follows. -/
theorem Reads.run_bind {bytes : List UInt8} {a : α} (first : Reads x bytes a)
    (rest : List UInt8) : (x >>= f).run (bytes ++ rest) = (f a).run rest := by
  rw [StateT.run_bind, first rest]
  rfl

theorem Reads.run_map {bytes : List UInt8} {a : α} (g : α → β) (read : Reads x bytes a)
    (rest : List UInt8) : (g <$> x).run (bytes ++ rest) = some (g a, rest) :=
  Reads.map g read rest

/-- An accepted input passes through both halves of a bind. -/
theorem run_bind_eq_some {input rest : List UInt8} {b : β} :
    (x >>= f).run input = some (b, rest) ↔
      ∃ a mid, x.run input = some (a, mid) ∧ (f a).run mid = some (b, rest) := by
  rw [StateT.run_bind]
  cases first : x.run input with
  | none => simp
  | some result =>
    obtain ⟨a, mid⟩ := result
    constructor
    · intro second
      exact ⟨a, mid, rfl, second⟩
    · rintro ⟨a', mid', same, second⟩
      cases same
      exact second

@[simp] theorem run_pure_eq_some {a b : α} {input rest : List UInt8} :
    (Pure.pure a : ByteReader α).run input = some (b, rest) ↔ a = b ∧ input = rest := by
  simp [StateT.run_pure]

theorem run_map_eq_some {g : α → β} {input rest : List UInt8} {b : β} :
    (g <$> x).run input = some (b, rest) ↔ ∃ a, x.run input = some (a, rest) ∧ g a = b := by
  rw [map_eq_pure_bind, run_bind_eq_some]
  constructor
  · rintro ⟨a, mid, first, second⟩
    simp only [run_pure_eq_some] at second
    obtain ⟨rfl, rfl⟩ := second
    exact ⟨a, first, rfl⟩
  · rintro ⟨a, first, rfl⟩
    exact ⟨a, rest, first, by simp⟩

@[simp] theorem run_failure {input : List UInt8} :
    (failure : ByteReader α).run input = none := rfl

end Composition

section Primitives

theorem reads_take (bytes : List UInt8) : Reads (take bytes.length) bytes bytes := by
  intro rest
  simp [take, StateT.run]

/-- `take n` accepts an input that starts with `n` bytes, and returns them. -/
theorem take_eq_some {n : Nat} {input bytes rest : List UInt8}
    (read : (take n).run input = some (bytes, rest)) : bytes.length = n ∧ input = bytes ++ rest := by
  simp only [take, StateT.run] at read
  split at read
  · rename_i enough
    simp only [Option.some.injEq, Prod.mk.injEq] at read
    obtain ⟨rfl, rfl⟩ := read
    exact ⟨by simp [enough], (List.take_append_drop n input).symm⟩
  · cases read

theorem reads_takeVector {n : Nat} (bytes : Vector UInt8 n) :
    Reads (takeVector n) bytes.toList bytes := by
  intro rest
  have length : bytes.toList.length = n := by simp
  simp only [takeVector, StateT.run, length, List.length_append]
  rw [dif_pos (by omega)]
  simp only [List.take_left', List.drop_left', length, Option.some.injEq, Prod.mk.injEq, and_true]
  exact Vector.toArray_inj.mp (by simp [Vector.toList])

/-- `takeVector n` accepts an input that starts with `n` bytes, and returns them. -/
theorem takeVector_eq_some {n : Nat} {input rest : List UInt8} {bytes : Vector UInt8 n}
    (read : (takeVector n).run input = some (bytes, rest)) : input = bytes.toList ++ rest := by
  simp only [takeVector, StateT.run] at read
  split at read
  · simp only [Option.some.injEq, Prod.mk.injEq] at read
    obtain ⟨rfl, rfl⟩ := read
    simp
  · cases read

theorem reads_varint {width value : Nat} (wide : 7 ≤ width) (fits : value < 2 ^ width) :
    Reads (varint width) (Varint.encode value) value :=
  fun rest => Varint.decode_encode wide fits rest

/-- A varint reader accepts the writer's form of a value that fits, and nothing else. -/
theorem varint_eq_some {width value : Nat} {input rest : List UInt8}
    (read : (varint width).run input = some (value, rest)) :
    value < 2 ^ width ∧ input = Varint.encode value ++ rest :=
  Varint.encode_of_decode read

end Primitives

section Many

variable {read : ByteReader α}

/-- Reading the values' bytes one after the other reads the values back. -/
theorem reads_many {write : α → List UInt8} :
    ∀ {values : List α}, (∀ a ∈ values, Reads read (write a) a) →
      Reads (many read values.length) (values.flatMap write) values
  | [], _ => Reads.pure []
  | a :: values, each => by
    -- The head's bytes give the head, the others the tail, and the head goes in front.
    have tail : Reads (do let as ← many read values.length; return a :: as)
        (values.flatMap write) (a :: values) := by
      have tail : Reads (many read values.length >>= fun as => Pure.pure (a :: as))
          (values.flatMap write ++ []) (a :: values) :=
        Reads.bind (reads_many fun b member => each b (List.mem_cons_of_mem a member))
          (Reads.pure (a :: values))
      rwa [List.append_nil] at tail
    show Reads (do let a ← read; let as ← many read values.length; return a :: as) _ _
    rw [List.flatMap_cons]
    exact Reads.bind (each a List.mem_cons_self) tail

/-- What `many` accepts is the values' bytes one after the other, when each element the reader
accepts is its value's bytes. -/
theorem many_eq_some {write : α → List UInt8}
    (element : ∀ input a rest, read.run input = some (a, rest) → input = write a ++ rest) :
    ∀ (count : Nat) (input : List UInt8) (values : List α) (rest : List UInt8),
      (many read count).run input = some (values, rest) →
      input = values.flatMap write ++ rest ∧ values.length = count
  | 0, input, values, rest, run => by
    simp only [many, run_pure_eq_some] at run
    obtain ⟨rfl, rfl⟩ := run
    exact ⟨rfl, rfl⟩
  | count + 1, input, values, rest, run => by
    simp only [many, run_bind_eq_some, run_pure_eq_some] at run
    obtain ⟨a, mid, first, as, mid', others, rfl, rfl⟩ := run
    obtain ⟨rfl, counted⟩ := many_eq_some element count _ _ _ others
    rw [element _ _ _ first]
    exact ⟨by simp, by simp [counted]⟩

end Many

end ByteReader
