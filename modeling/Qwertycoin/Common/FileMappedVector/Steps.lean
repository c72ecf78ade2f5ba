import Qwertycoin.Common.FileMappedVector

/-!
What the steps of a file-mapped vector do to the files. `OnlyAt path d d'` says that from the disk
`d` to `d'` only the file at `path` changed, in every state recorded in between too. `create`
leaves zeros with the capacity stored (`create_run`); `atomicUpdate0` either returns with the
file that `func` filled at the vector's path, every state recorded on the way holding the old
file, or no file at the path and the old one at `.bak`, or the new file (`atomicUpdate0_run`), or,
when the new file cannot be created, throws with the old file still at the path
(`atomicUpdate0_run_of_fails`).
-/

namespace Common.FileMappedVector

open ByteFile

theorem bakPath_ne (path : List Char) : bakPath path ≠ path := by
  intro same
  have := congrArg List.length same
  simp [bakPath] at this

theorem tmpPath_ne (path token : List Char) : tmpPath path token ≠ path := by
  intro same
  have := congrArg List.length same
  simp [tmpPath] at this

theorem tmpPath_ne_bakPath (path token : List Char) : tmpPath path token ≠ bakPath path := by
  simp [tmpPath, bakPath]

theorem tmpPath_ne_tmpPath {path token token' : List Char} (differs : token' ≠ token) :
    tmpPath path token' ≠ tmpPath path token :=
  fun same => differs (List.append_cancel_left same)

@[simp] theorem Disk.commit_files (d : Disk) (files : List Char → Option (List UInt8)) :
    (d.commit files).files = files :=
  rfl

@[simp] theorem Disk.commit_crashes (d : Disk) (files : List Char → Option (List UInt8)) :
    (d.commit files).crashes = d.crashes ++ [files] :=
  rfl

@[simp] theorem Disk.commit_refuses (d : Disk) (files : List Char → Option (List UInt8)) :
    (d.commit files).refuses = d.refuses :=
  rfl

structure OnlyAt (path : List Char) (d d' : Disk) : Prop where
  files_eq : ∀ other ≠ path, d'.files other = d.files other
  refuses_eq : d'.refuses = d.refuses
  crashes_eq : ∃ more, d'.crashes = d.crashes ++ more ∧
    ∀ f ∈ more, ∀ other ≠ path, f other = d.files other

namespace OnlyAt

variable {path : List Char}

theorem refl (d : Disk) : OnlyAt path d d :=
  ⟨fun _ _ => rfl, rfl, [], (List.append_nil _).symm, fun _ member => absurd member List.not_mem_nil⟩

theorem trans {d d' d'' : Disk} (first : OnlyAt path d d') (second : OnlyAt path d' d'') :
    OnlyAt path d d'' := by
  obtain ⟨firstFiles, firstRefuses, more, firstCrashes, firstAgree⟩ := first
  obtain ⟨secondFiles, secondRefuses, more', secondCrashes, secondAgree⟩ := second
  refine ⟨fun other differs => (secondFiles other differs).trans (firstFiles other differs),
    secondRefuses.trans firstRefuses, more ++ more', by rw [secondCrashes, firstCrashes, List.append_assoc], fun f member other differs => ?_⟩
  rcases List.mem_append.mp member with early | late
  · exact firstAgree f early other differs
  · exact (secondAgree f late other differs).trans (firstFiles other differs)

theorem commit {d : Disk} {files : List Char → Option (List UInt8)}
    (agrees : ∀ other ≠ path, files other = d.files other) : OnlyAt path d (d.commit files) :=
  ⟨agrees, rfl, _, rfl, fun f member other differs => by
    rw [List.mem_singleton.mp member, agrees other differs]⟩

theorem commit_update (d : Disk) (content : Option (List UInt8)) :
    OnlyAt path d (d.commit (Function.update d.files path content)) :=
  commit fun _ differs => Function.update_of_ne differs _ _

end OnlyAt

variable {d : Disk} {v : FileMappedVector}

theorem fileExists_run (path : List Char) :
    (fileExists path).run (d, v) = .ok (d.files path).isSome (d, v) :=
  rfl

theorem removeFile_run (path : List Char) :
    (removeFile path).run (d, v) = .ok () (d.commit (Function.update d.files path none), v) :=
  rfl

theorem removeIfExists_run (d : Disk) (v : FileMappedVector) (path : List Char) :
    ∃ d', (removeIfExists path).run (d, v) = .ok () (d', v) ∧
      d'.files = Function.update d.files path none ∧ OnlyAt path d d' := by
  cases found : d.files path with
  | none =>
    refine ⟨d, ?_, (Function.update_eq_self_iff.mpr found.symm).symm, OnlyAt.refl d⟩
    simp only [removeIfExists, EStateM.run_bind, fileExists_run, found, Option.isSome_none]
    rfl
  | some file =>
    refine ⟨_, ?_, rfl, OnlyAt.commit_update d none⟩
    simp only [removeIfExists, EStateM.run_bind, fileExists_run, found, Option.isSome_some]
    rfl

theorem renameFile_run {source : List Char} {file : List UInt8} (found : d.files source = some file)
    (target : List Char) :
    (renameFile source target).run (d, v) = .ok ()
      (d.commit (Function.update (Function.update d.files source none) target (some file)), v) := by
  simp only [renameFile, EStateM.run_bind, EStateM.run_get, found]
  rfl


/-- The pages a mapping takes reach at least the end of its file. -/
theorem le_pages (n : Nat) : n ≤ (n + pageSize - 1) / pageSize * pageSize := by
  simp only [pageSize]
  omega

theorem storeBytes_run {path : List Char} {file : List UInt8} (found : d.files path = some file)
    {pos : Nat} {bytes : List UInt8} (inside : pos + bytes.length ≤ file.length) :
    (storeBytes path pos bytes).run (d, v) = .ok ()
      (d.commit (Function.update d.files path (some (writeAt file pos bytes))), v) := by
  -- inside the file nothing of the store is cut at its end
  have whole : (writeAt file pos bytes).take file.length = writeAt file pos bytes :=
    List.take_of_length_le (length_writeAt inside).le
  simp only [storeBytes, EStateM.run_bind, EStateM.run_get, found,
    if_pos (inside.trans (le_pages _)), whole, commit, EStateM.run_modify]

theorem createFile_run {path : List Char} (absent : d.files path = none) {size : Nat}
    (small : size < 2 ^ 63) (positive : 0 < size) (accepted : d.refuses size = none) :
    (createFile path size).run (d, v) = .ok ()
      ((d.commit (Function.update d.files path (some []))).commit
        (Function.update d.files path (some (List.replicate size 0))), v) := by
  have notLarge : ¬2 ^ 63 ≤ size := Nat.not_le.mpr small
  simp only [createFile, EStateM.run_bind, EStateM.run_get, absent, accepted, Option.isSome_none,
    Bool.false_eq_true, reduceCtorEq, or_false, if_false, notLarge, positive.ne', commit,
    EStateM.run_modify, EStateM.run_pure]

theorem createFile_run_of_fails (v : FileMappedVector) {path : List Char} {size : Nat}
    (fails : (d.files path).isSome ∨ 2 ^ 63 ≤ size ∨ size = 0 ∨ (d.refuses size).isSome) :
    ∃ e d', (createFile path size).run (d, v) = .error e (d', v) ∧ OnlyAt path d d' := by
  by_cases first : (d.files path).isSome ∨ d.refuses size = some .opening
  · refine ⟨"MemoryMappedFile::create", d, ?_, OnlyAt.refl d⟩
    simp only [createFile, EStateM.run_bind, EStateM.run_get, first, if_true]
    rfl
  by_cases second : 2 ^ 63 ≤ size ∨ d.refuses size = some .truncating
  · refine ⟨"MemoryMappedFile::create", _, ?_, OnlyAt.commit_update d (some [])⟩
    simp only [createFile, EStateM.run_bind, EStateM.run_get, first, if_false, commit,
      EStateM.run_modify, second, if_true]
    rfl
  -- what the first two steps let through fails at `mmap`
  have third : size = 0 ∨ d.refuses size = some .mapping := by
    rcases fails with found | large | empty | refused
    · exact absurd (Or.inl found) first
    · exact absurd (Or.inl large) second
    · exact Or.inl empty
    · obtain ⟨refusal, refusedAt⟩ := Option.isSome_iff_exists.mp refused
      cases refusal with
      | opening => exact absurd (Or.inr refusedAt) first
      | truncating => exact absurd (Or.inr refusedAt) second
      | mapping => exact Or.inr refusedAt
  refine ⟨"MemoryMappedFile::create", (d.commit (Function.update d.files path (some []))).commit
    (Function.update d.files path (some (List.replicate size 0))), ?_,
    (OnlyAt.commit_update d (some [])).trans (OnlyAt.commit fun other differs => ?_)⟩
  · simp only [createFile, EStateM.run_bind, EStateM.run_get, first, if_false, commit,
      EStateM.run_modify, second, third, if_true]
    rfl
  · simp [Function.update_of_ne differs]

section Create

variable (valueSize : Nat)

/-- The file `create` leaves: zeros, with the capacity stored after the prefix. -/
def createdFile (initialCapacity prefixSize suffixSize : Nat) : List UInt8 :=
  List.replicate prefixSize 0 ++ podBytes 8 initialCapacity ++
    List.replicate (8 + initialCapacity * valueSize + suffixSize) 0

theorem create_run (v : FileMappedVector) {path : List Char} (absent : d.files path = none)
    {initialCapacity prefixSize suffixSize : Nat}
    (small : prefixSize + metadataSize + initialCapacity * valueSize + suffixSize < 2 ^ 63)
    (accepted : d.refuses (prefixSize + metadataSize + initialCapacity * valueSize + suffixSize) =
      none) :
    ∃ d', (create valueSize path initialCapacity prefixSize suffixSize).run (d, v) =
      .ok ⟨path, path, prefixSize, suffixSize⟩ (d', v) ∧
      d'.files path = some (createdFile valueSize initialCapacity prefixSize suffixSize) ∧
      OnlyAt path d d' := by
  have exact : (prefixSize + metadataSize + initialCapacity * valueSize + suffixSize) % 2 ^ 64 =
      prefixSize + metadataSize + initialCapacity * valueSize + suffixSize :=
    Nat.mod_eq_of_lt (by omega)
  have inside : prefixSize + 8 + 8 ≤ prefixSize + metadataSize + initialCapacity * valueSize +
      suffixSize := by
    simp only [metadataSize]
    omega
  simp only [create, EStateM.run_bind, exact]
  rw [createFile_run absent small (by omega) accepted]
  dsimp only
  rw [storeBytes_run (Function.update_self ..) (by simpa using inside)]
  dsimp only
  rw [storeBytes_run (Function.update_self ..)
    (by rw [length_writeAt (by simpa using inside)]; simp only [length_podBytes, List.length_replicate]; omega)]
  dsimp only
  -- zeros under the size, then the capacity over the zeros after the prefix
  have sizeZero : writeAt (List.replicate (prefixSize + metadataSize + initialCapacity * valueSize +
      suffixSize) 0) (prefixSize + 8) (podBytes 8 0) =
      List.replicate (prefixSize + metadataSize + initialCapacity * valueSize + suffixSize) 0 := by
    rw [podBytes_zero]
    exact writeAt_replicate_replicate 0 inside
  have capacityStored : writeAt (List.replicate (prefixSize + metadataSize +
      initialCapacity * valueSize + suffixSize) 0) prefixSize (podBytes 8 initialCapacity) =
      createdFile valueSize initialCapacity prefixSize suffixSize := by
    have split : prefixSize + metadataSize + initialCapacity * valueSize + suffixSize =
        prefixSize + (8 + (8 + initialCapacity * valueSize + suffixSize)) := by
      simp only [metadataSize]
      omega
    rw [split, ← List.replicate_append_replicate, writeAt_append_right _ (by simp),
      List.length_replicate, Nat.sub_self, writeAt_replicate_zero, createdFile]
    simp
  refine ⟨_, rfl, by simp only [Disk.commit_files, Function.update_self, sizeZero, capacityStored],
    (OnlyAt.commit_update d _).trans ((OnlyAt.commit fun other differs => ?_).trans
      ((OnlyAt.commit_update _ _).trans (OnlyAt.commit_update _ _)))⟩
  simp [Function.update_of_ne differs]

theorem create_run_of_fails (v : FileMappedVector) {path : List Char}
    {initialCapacity prefixSize suffixSize : Nat}
    (fails : (d.files path).isSome ∨
      2 ^ 63 ≤ (prefixSize + metadataSize + initialCapacity * valueSize + suffixSize) % 2 ^ 64 ∨
      (prefixSize + metadataSize + initialCapacity * valueSize + suffixSize) % 2 ^ 64 = 0 ∨
      (d.refuses ((prefixSize + metadataSize + initialCapacity * valueSize + suffixSize) %
        2 ^ 64)).isSome) :
    ∃ e d', (create valueSize path initialCapacity prefixSize suffixSize).run (d, v) =
      .error e (d', v) ∧ OnlyAt path d d' := by
  obtain ⟨e, d', throws, only⟩ := createFile_run_of_fails v fails
  exact ⟨e, d', by rw [create, EStateM.run_bind, throws], only⟩

end Create

theorem swapFiles_run {tmp bak path : List Char} {old new : List UInt8}
    (tmpFound : d.files tmp = some new) (pathFound : d.files path = some old) (tmpBak : tmp ≠ bak)
    (tmpPathNe : tmp ≠ path) :
    (swapFiles tmp bak path).run (d, v) = .ok ()
      ((d.commit (Function.update (Function.update d.files path none) bak (some old))).commit
        (Function.update (Function.update (Function.update (Function.update d.files path none) bak
          (some old)) tmp none) path (some new)), { v with filePath := bak }) := by
  have moved : Function.update (Function.update d.files path none) bak (some old) tmp = some new := by
    rw [Function.update_of_ne tmpBak, Function.update_of_ne tmpPathNe, tmpFound]
  simp only [swapFiles, EStateM.run_bind, renameFile_run pathFound, EStateM.run_modify]
  rw [EStateM.run_tryCatch_of_ok (renameFile_run moved path)]
  rfl

/-- `x`, run on a disk where the file at `path` holds `before` and the vector's file holds `source`,
returns with `after` at `path`, and changes no other file. -/
def Fills (x : Op Unit) (v : FileMappedVector) (source : List UInt8) (path : List Char)
    (before after : List UInt8) : Prop :=
  ∀ d : Disk, d.files path = some before → d.files v.filePath = some source →
    ∃ d', x.run (d, v) = .ok () (d', v) ∧ d'.files path = some after ∧ OnlyAt path d d'

/-- What a crash during an update of the file at `path` from `old` to `new` may leave: the old
file at `path`; no file there and the old one at `.bak`; or the new file at `path`. -/
def Survives (path : List Char) (old new : List UInt8) (files : List Char → Option (List UInt8)) :
    Prop :=
  files path = some old ∨ (files path = none ∧ files (bakPath path) = some old) ∨
    files path = some new

section Update

variable (valueSize : Nat) {token : List Char} {newCapacity newPrefixSize newSuffixSize : Nat}
  {func : FileMappedVector → Op Unit} {old new : List UInt8}

theorem atomicUpdate0_run (mapped : v.filePath = v.path) (stored : d.files v.path = some old)
    (fresh : d.files (tmpPath v.path token) = none)
    (small : newPrefixSize + metadataSize + newCapacity * valueSize + newSuffixSize < 2 ^ 63)
    (accepted : d.refuses (newPrefixSize + metadataSize + newCapacity * valueSize + newSuffixSize) =
      none)
    (fills : Fills (func ⟨tmpPath v.path token, tmpPath v.path token, newPrefixSize, newSuffixSize⟩)
      v old (tmpPath v.path token) (createdFile valueSize newCapacity newPrefixSize newSuffixSize)
      new) :
    ∃ d', (atomicUpdate0 valueSize token newCapacity newPrefixSize newSuffixSize func).run (d, v) =
      .ok () (d', ⟨v.path, v.path, newPrefixSize, newSuffixSize⟩) ∧ d'.files v.path = some new ∧
      d'.files (tmpPath v.path token) = none ∧ d'.refuses = d.refuses ∧
      (∀ other, other ≠ v.path → other ≠ bakPath v.path → other ≠ tmpPath v.path token →
        d'.files other = d.files other) ∧
      ∃ more, d'.crashes = d.crashes ++ more ∧ ∀ f ∈ more, Survives v.path old new f := by
  have tmpBak := tmpPath_ne_bakPath v.path token
  have tmpPathNe := tmpPath_ne v.path token
  have bakPathNe := bakPath_ne v.path
  -- the `.bak` file goes, then the new file is created and filled beside the vector's
  obtain ⟨dA, runA, filesA, onlyA⟩ := removeIfExists_run d v (bakPath v.path)
  have storedA : dA.files v.path = some old := (onlyA.files_eq _ bakPathNe.symm).trans stored
  obtain ⟨dB, runB, createdB, onlyB⟩ :=
    create_run valueSize v ((onlyA.files_eq _ tmpBak).trans fresh) small
      (onlyA.refuses_eq ▸ accepted)
  have storedB : dB.files v.path = some old := (onlyB.files_eq _ tmpPathNe.symm).trans storedA
  obtain ⟨dC, runC, filledC, onlyC⟩ := fills dB createdB (mapped ▸ storedB)
  have storedC : dC.files v.path = some old := (onlyC.files_eq _ tmpPathNe.symm).trans storedB
  have body : (do
      let tmpVector ← create valueSize (tmpPath v.path token) newCapacity newPrefixSize newSuffixSize
      func tmpVector
      swapFiles (tmpPath v.path token) (bakPath v.path) v.path
      pure tmpVector : Op FileMappedVector).run (dA, v) =
      .ok ⟨tmpPath v.path token, tmpPath v.path token, newPrefixSize, newSuffixSize⟩
        ((dC.commit (Function.update (Function.update dC.files v.path none) (bakPath v.path)
            (some old))).commit
          (Function.update (Function.update (Function.update (Function.update dC.files v.path none)
            (bakPath v.path) (some old)) (tmpPath v.path token) none) v.path (some new)),
          { v with filePath := bakPath v.path }) := by
    rw [EStateM.run_bind, runB]
    dsimp only
    rw [EStateM.run_bind, runC]
    dsimp only
    rw [EStateM.run_bind, swapFiles_run filledC storedC tmpBak tmpPathNe]
    rfl
  simp only [atomicUpdate0, EStateM.run_bind, EStateM.run_get]
  rw [if_neg (not_not.mpr mapped), EStateM.run_bind, runA]
  dsimp only
  rw [EStateM.run_bind, EStateM.run_tryCatch_of_ok body]
  dsimp only
  rw [EStateM.run_bind, EStateM.run_modify]
  dsimp only
  rw [removeFile_run]
  refine ⟨_, rfl, ?_, ?_, onlyC.refuses_eq.trans (onlyB.refuses_eq.trans onlyA.refuses_eq),
    fun other notPath notBak notTmp => ?_, ?_⟩
  · simp only [Disk.commit_files]
    rw [Function.update_of_ne bakPathNe.symm, Function.update_self]
  · -- the new file has moved from `tmp` to the vector's path
    simp only [Disk.commit_files]
    rw [Function.update_of_ne tmpBak, Function.update_of_ne tmpPathNe, Function.update_self]
  · -- no step touches a file but these three
    simp only [Disk.commit_files, Function.update_of_ne notBak, Function.update_of_ne notPath,
      Function.update_of_ne notTmp]
    rw [onlyC.files_eq _ notTmp, onlyB.files_eq _ notTmp, onlyA.files_eq _ notBak]
  · obtain ⟨moreA, crashesA, agreeA⟩ := onlyA.crashes_eq
    obtain ⟨moreB, crashesB, agreeB⟩ := onlyB.crashes_eq
    obtain ⟨moreC, crashesC, agreeC⟩ := onlyC.crashes_eq
    refine ⟨moreA ++ moreB ++ moreC ++ _, by
      simp only [Disk.commit_crashes, crashesC, crashesB, crashesA, List.append_assoc]
      rfl, fun f member => ?_⟩
    simp only [List.append_assoc, List.singleton_append, List.mem_append, List.mem_cons,
      List.not_mem_nil, or_false] at member
    -- before the first rename every state holds the old file at the vector's path
    rcases member with early | early | early | moved | swapped | removed
    · exact Or.inl ((agreeA f early _ bakPathNe.symm).trans stored)
    · exact Or.inl ((agreeB f early _ tmpPathNe.symm).trans storedA)
    · exact Or.inl ((agreeC f early _ tmpPathNe.symm).trans storedB)
    · rw [moved]
      refine Or.inr (Or.inl ⟨?_, Function.update_self ..⟩)
      rw [Function.update_of_ne bakPathNe.symm, Function.update_self]
    · rw [swapped]
      exact Or.inr (Or.inr (Function.update_self ..))
    · rw [removed]
      refine Or.inr (Or.inr ?_)
      simp only [Disk.commit_files]
      rw [Function.update_of_ne bakPathNe.symm, Function.update_self]

theorem atomicUpdate0_run_of_fails (mapped : v.filePath = v.path)
    (stored : d.files v.path = some old)
    (fails : (d.files (tmpPath v.path token)).isSome ∨
      2 ^ 63 ≤ (newPrefixSize + metadataSize + newCapacity * valueSize + newSuffixSize) % 2 ^ 64 ∨
      (newPrefixSize + metadataSize + newCapacity * valueSize + newSuffixSize) % 2 ^ 64 = 0 ∨
      (d.refuses ((newPrefixSize + metadataSize + newCapacity * valueSize + newSuffixSize) %
        2 ^ 64)).isSome) :
    ∃ e d', (atomicUpdate0 valueSize token newCapacity newPrefixSize newSuffixSize func).run (d, v) =
      .error e (d', v) ∧ d'.files v.path = some old ∧ d'.files (tmpPath v.path token) = none ∧
      d'.refuses = d.refuses ∧
      (∀ other, other ≠ bakPath v.path → other ≠ tmpPath v.path token →
        d'.files other = d.files other) ∧ ∃ more, d'.crashes = d.crashes ++ more ∧ ∀ f ∈ more, f v.path = some old := by
  have tmpBak := tmpPath_ne_bakPath v.path token
  have tmpPathNe := tmpPath_ne v.path token
  have bakPathNe := bakPath_ne v.path
  obtain ⟨dA, runA, filesA, onlyA⟩ := removeIfExists_run d v (bakPath v.path)
  have storedA : dA.files v.path = some old := (onlyA.files_eq _ bakPathNe.symm).trans stored
  -- `create` fails on the same file as before the `.bak` file went
  rw [← onlyA.files_eq _ tmpBak, ← onlyA.refuses_eq] at fails
  obtain ⟨e, dB, throwsB, onlyB⟩ := create_run_of_fails valueSize v fails
  -- then `tmpFileDeleter` removes the new file
  have onlyDeleted := onlyB.trans (OnlyAt.commit_update dB none)
  simp only [atomicUpdate0, EStateM.run_bind, EStateM.run_get]
  rw [if_neg (not_not.mpr mapped), EStateM.run_bind, runA]
  dsimp only
  rw [EStateM.run_bind, EStateM.run_tryCatch_of_error (by rw [EStateM.run_bind, throwsB])]
  rw [EStateM.run_bind, removeFile_run]
  refine ⟨e, _, rfl, (onlyDeleted.files_eq _ tmpPathNe.symm).trans storedA,
    Function.update_self .., onlyDeleted.refuses_eq.trans onlyA.refuses_eq,
    fun other notBak notTmp => (onlyDeleted.files_eq _ notTmp).trans (onlyA.files_eq _ notBak), ?_⟩
  obtain ⟨moreA, crashesA, agreeA⟩ := onlyA.crashes_eq
  obtain ⟨moreB, crashesB, agreeB⟩ := onlyDeleted.crashes_eq
  refine ⟨moreA ++ moreB, by rw [crashesB, crashesA, List.append_assoc], fun f member => ?_⟩
  rcases List.mem_append.mp member with early | late
  · exact (agreeA f early _ bakPathNe.symm).trans stored
  · exact (agreeB f late _ tmpPathNe.symm).trans storedA

end Update

end Common.FileMappedVector
