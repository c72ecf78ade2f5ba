import Qwertycoin.Lib.Tokens
import Qwertycoin.Lib.ByteFile
import Qwertycoin.Lib.IndexedList
import Mathlib

/-!
The 25-word mnemonic seed of a secret key, `electrum-words.cpp`. `bytes_to_words` writes each
4-byte group of the key as three words of the language's list, by chained offsets modulo the
list's length, and adds one of the 24 words as a checksum, picked by the CRC-32 of their unique
prefixes. `words_to_bytes` splits the text, finds the language whose words it uses, tests the
checksum, and reads the groups back.

For every key, every language whose unique prefixes are distinct and no other language that
matches the 25 words, and whatever function of its bytes `crc32` is, the words of the key read
back as the key in that language (`mnemonic_seed_round_trip`).
-/

namespace Language

/-- `std::isspace` in the C locale, which `boost::algorithm::trim` tests: a space, or one of the
controls from tab to carriage return. -/
def isSpace (c : Char) : Bool := c == ' ' || (9 ≤ c.toNat && c.toNat ≤ 13)

/-- `utf8prefix(s, count)`: the first `count` characters of `s`, up to a NUL. -/
def utf8prefix : List Char → Nat → List Char
  | [], _ => []
  | _, 0 => []
  | c :: rest, count + 1 => if c.toNat = 0 then [] else c :: utf8prefix rest count

/-- `std::string::length` of a word: the bytes of its UTF-8 encoding. -/
def utf8Length (word : List Char) : Nat := (word.map Char.utf8Size).sum

/-- A word cut to its unique prefix, as `populate_maps`, `create_checksum_index` and
`checksum_test` cut it: only when it is longer, in bytes, than the prefix length. -/
def trimWord (uniquePrefixLength : Nat) (word : List Char) : List Char :=
  if utf8Length word > uniquePrefixLength then utf8prefix word uniquePrefixLength else word

/-- `Language::Base` once its constructor has run `populate_maps`, which throws on a word list of
any length but 1626. -/
structure Base where
  languageName : String
  wordList : List (List Char)
  uniquePrefixLength : Nat
  wordListLength : wordList.length = 1626

/-- The loop of `populate_maps` over the words from index `ii` on: each word's key maps to its
index, a later word's overwriting an earlier one's. -/
def populateMap (key : List Char → List Char) :
    List (List Char) → Nat → (List Char → Option Nat) → List Char → Option Nat
  | [], _, map => map
  | word :: rest, ii, map => populateMap key rest (ii + 1) (Function.update map (key word) (some ii))

/-- `word_map`. -/
def Base.wordMap (language : Base) : List Char → Option Nat :=
  populateMap id language.wordList 0 fun _ => none

/-- `trimmed_word_map`. -/
def Base.trimmedWordMap (language : Base) : List Char → Option Nat :=
  populateMap (trimWord language.uniquePrefixLength) language.wordList 0 fun _ => none

/-- `c_languageMap`, in the order its iteration visits the languages, which are keyed by their
names. -/
structure LanguageMap where
  languages : List Base
  namesDistinct : (languages.map (·.languageName)).Nodup

/-- `c_languageMap.find(name)`. -/
def LanguageMap.find (languageMap : LanguageMap) (name : String) : Option Base :=
  languageMap.languages.find? (·.languageName == name)

/-! ### Prefixes and the maps of a language -/

/-- On a word with no NUL, `utf8prefix` takes the first characters. -/
theorem utf8prefix_eq_take :
    ∀ {word : List Char}, (∀ c ∈ word, c.toNat ≠ 0) → ∀ count, utf8prefix word count = word.take count
  | [], _, count => by cases count <;> rfl
  | _ :: _, _, 0 => rfl
  | c :: rest, noNul, count + 1 => by
    rw [ utf8prefix, if_neg (noNul c List.mem_cons_self),
      utf8prefix_eq_take (fun d member => noNul d (List.mem_cons_of_mem c member)),
      List.take_succ_cons]

/-- A word has at least as many bytes as characters. -/
theorem length_le_utf8Length (word : List Char) : word.length ≤ utf8Length word := by
  induction word with
  | nil => simp [utf8Length]
  | cons c rest ih =>
    have := Char.utf8Size_pos c
    simp only [utf8Length, List.map_cons, List.sum_cons, List.length_cons] at ih ⊢
    omega

/-- On a word with no NUL, the unique prefix is the first characters, whichever way the length
test goes. -/
theorem trimWord_eq_take {word : List Char} (noNul : ∀ c ∈ word, c.toNat ≠ 0) (count : Nat) :
    trimWord count word = word.take count := by
  unfold trimWord
  split
  · exact utf8prefix_eq_take noNul count
  · rename_i short
    rw [List.take_of_length_le (le_trans (length_le_utf8Length word) (Nat.le_of_not_lt short))]

/-- `populate_maps` leaves a key no word has as it was. -/
theorem populateMap_of_not_mem (key : List Char → List Char) :
    ∀ (words : List (List Char)) (ii : Nat) (map : List Char → Option Nat) {t : List Char},
      t ∉ words.map key → populateMap key words ii map t = map t
  | [], _, _, _, _ => rfl
  | word :: rest, ii, map, t, absent => by
    rw [List.map_cons, List.mem_cons, not_or] at absent
    rw [populateMap, populateMap_of_not_mem key rest _ _ absent.2,
      Function.update_of_ne absent.1]

/-- With distinct keys, `populate_maps` maps each word's key to the word's index. -/
theorem populateMap_getElem (key : List Char → List Char) :
    ∀ {words : List (List Char)}, (words.map key).Nodup → ∀ (ii : Nat) (map : List Char → Option Nat)
      {j : Nat} (inRange : j < words.length), populateMap key words ii map (key words[j]) = some (ii + j)
  | [], _, _, _, _, inRange => absurd inRange (Nat.not_lt_zero _)
  | word :: rest, distinct, ii, map, 0, _ => by
    -- The first word's key: no later word has it, so its entry stays.
    rw [List.map_cons, List.nodup_cons] at distinct
    rw [List.getElem_cons_zero, populateMap, populateMap_of_not_mem key rest _ _ distinct.1,
      Function.update_self, Nat.add_zero]
  | word :: rest, distinct, ii, map, j + 1, inRange => by
    rw [List.map_cons, List.nodup_cons] at distinct
    rw [List.getElem_cons_succ, populateMap,
      populateMap_getElem key distinct.2 _ _ (Nat.lt_of_succ_lt_succ inRange), Nat.add_assoc,
      Nat.add_comm 1 j]

/-- A language whose unique prefixes are distinct finds each of its words, by its prefix, at the
word's index. -/
theorem trimmedWordMap_getElem {language : Base}
    (distinct : (language.wordList.map (trimWord language.uniquePrefixLength)).Nodup) {j : Nat}
    (inRange : j < language.wordList.length) :
    language.trimmedWordMap (trimWord language.uniquePrefixLength language.wordList[j]) = some j := by
  rw [Base.trimmedWordMap, populateMap_getElem _ distinct 0 _ inRange, Nat.zero_add]

/-- A language of the map is found by its name. -/
theorem LanguageMap.find_languageName (languageMap : LanguageMap) {language : Base}
    (listed : language ∈ languageMap.languages) :
    languageMap.find language.languageName = some language := by
  -- Some language of that name is found, and the names are distinct.
  have present :
      (languageMap.languages.find? (·.languageName == language.languageName)).isSome :=
    List.find?_isSome.mpr ⟨language, listed, beq_self_eq_true _⟩
  obtain ⟨found, foundIs⟩ := Option.isSome_iff_exists.mp present
  have member := List.mem_of_find?_eq_some foundIs
  have hit : (found.languageName == language.languageName) = true :=
    @List.find?_some _ (fun x : Base => x.languageName == language.languageName) found _ foundIs
  have sameName : found.languageName = language.languageName := beq_iff_eq.mp hit
  rw [LanguageMap.find, foundIs,
    List.inj_on_of_nodup_map languageMap.namesDistinct member listed sameName]

end Language

namespace Crypto.ElectrumWords

open Language

/-- `seed_length`, the words of a seed without its checksum. -/
def seed_length : Nat := 24

/-- The three word indices `bytes_to_words` writes for a 4-byte group `val`, each the offset of
the next base-`n` digit from the index before it. -/
def wordIndices (n val : UInt32) : UInt32 × UInt32 × UInt32 :=
  let w1 := val % n
  let w2 := ((val / n) + w1) % n
  let w3 := (((val / n) / n) + w2) % n
  (w1, w2, w3)

/-- The 4-byte group `words_to_bytes` reads from three word indices. -/
def wordValue (n w1 w2 w3 : UInt32) : UInt32 :=
  w1 + n * (((n - w1) + w2) % n) + n * n * (((n - w2) + w3) % n)

variable (crc32 : List UInt8 → UInt32)

/-- `create_checksum_index`: the CRC-32 of the words' unique prefixes, modulo `seed_length`. -/
def createChecksumIndex (wordList : List (List Char)) (uniquePrefixLength : Nat) : Nat :=
  let trimmedWords := wordList.flatMap (trimWord uniquePrefixLength)
  (crc32 (String.ofList trimmedWords).toUTF8.toList).toNat % seed_length

/-- `checksum_test`: the last word has the unique prefix of the word the checksum of the others
picks. -/
def checksumTest (seed : List (List Char)) (uniquePrefixLength : Nat) : Bool :=
  -- The last word is the checksum.
  let lastWord := seed.getLastD []
  let seed := seed.dropLast
  let checksum := seed.getD (createChecksumIndex crc32 seed uniquePrefixLength) []
  trimWord uniquePrefixLength checksum == trimWord uniquePrefixLength lastWord

/-- The index `find_seed_language` finds for a seed word in a language: by its unique prefix when
the seed has a checksum word, by the whole word otherwise. -/
def matchIndex (language : Base) (hasChecksum : Bool) (word : List Char) : Option Nat :=
  if hasChecksum then language.trimmedWordMap ( utf8prefix word language.uniquePrefixLength)
  else language.wordMap word

/-- `find_seed_language` over the languages left, with the fallback found so far: the first
language that has every word and, for a seed with a checksum, passes the checksum test, with the
indices of the words; or else the last language that had every word but failed the test, with no
indices, since they were cleared. -/
def findSeedLanguage (seed : List (List Char)) (hasChecksum : Bool) :
    List Base → Option Base → Option (Base × List Nat)
  | [], fallback => fallback.map fun language => (language, [])
  | language :: rest, fallback =>
    match seed.mapM (matchIndex language hasChecksum) with
    | none => findSeedLanguage seed hasChecksum rest fallback
    | some matchedIndices =>
      -- if we were using prefix only, and we have a checksum, check it now
      if hasChecksum && !checksumTest crc32 seed language.uniquePrefixLength then
        findSeedLanguage seed hasChecksum rest (some language)
      else some (language, matchedIndices)

/-- One round of the loop of `words_to_bytes`: the 4 bytes that the word indices of group `i`
give, or `none` where the first index fails its check. -/
def readGroup (wordListLength : UInt32) (matchedIndices : List Nat) (i : Nat) :
    Option (List UInt8) :=
  let w1 := UInt32.ofNat (matchedIndices.getD (i * 3) 0)
  let w2 := UInt32.ofNat (matchedIndices.getD (i * 3 + 1) 0)
  let w3 := UInt32.ofNat (matchedIndices.getD (i * 3 + 2) 0)
  let val := wordValue wordListLength w1 w2 w3
  if val % wordListLength ≠ w1 then none else some (ByteFile.podBytes 4 val.toNat)

/-- `words_to_bytes(words, dst, language_name)`: the 32 bytes of the key and the language's name,
or `none` where it returns `false`. -/
def wordsToBytes (languageMap : LanguageMap) (words : List Char) :
    Option (List UInt8 × String) := do
  let seed := Tokens.split ' ' (Tokens.trim isSpace words)
  -- error on non-compliant word list
  if seed.length ≠ seed_length / 2 ∧ seed.length ≠ seed_length ∧ seed.length ≠ seed_length + 1 then
    none
  -- If it is seed with a checksum.
  let hasChecksum := seed.length == seed_length + 1
  let (language, matchedIndices) ←
    findSeedLanguage crc32 seed hasChecksum languageMap.languages none
  let wordListLength := UInt32.ofNat language.wordList.length
  if hasChecksum && !checksumTest crc32 seed language.uniquePrefixLength then
    none
  let seed := if hasChecksum then seed.dropLast else seed
  let groups ← (List.range (seed.length / 3)).mapM (readGroup wordListLength matchedIndices)
  let dst := groups.flatten
  -- if electrum 12-word seed, duplicate
  return (if seed.length = seed_length / 2 then dst ++ dst else dst, language.languageName)

/-- The indices of the words `bytes_to_words` writes for the group at byte `i * 4` of the key. -/
def groupIndices (wordList : List (List Char)) (src : List UInt8) (i : Nat) : List Nat :=
  let val := UInt32.ofNat (littleEndian ((src.drop (i * 4)).take 4))
  let (w1, w2, w3) := wordIndices (UInt32.ofNat wordList.length) val
  [w1.toNat, w2.toNat, w3.toNat]

/-- The words `bytes_to_words` writes for that group. -/
def groupWords (wordList : List (List Char)) (src : List UInt8) (i : Nat) : List (List Char) :=
  (groupIndices wordList src i).map fun w => wordList.getD w []

/-- `bytes_to_words(src, words, language_name)` into an empty string: the words, or `none` where
it returns `false`. -/
def bytesToWords (languageMap : LanguageMap) (src : List UInt8) (languageName : String) :
    Option (List Char) := do
  if src.length % 4 ≠ 0 ∨ src.length = 0 then none
  let language ← languageMap.find languageName
  -- 8 bytes -> 3 words.  8 digits base 16 -> 3 digits base 1626
  let (words, wordsStore) := (List.range (src.length / 4)).foldl
    (fun (state : List Char × List (List Char)) i =>
      let group := groupWords language.wordList src i
      (state.1 ++ group.flatMap (· ++ [' ']), state.2 ++ group)) ([], [])
  return words.dropLast ++ [' '] ++
    wordsStore.getD (createChecksumIndex crc32 wordsStore language.uniquePrefixLength) []

/-! ### The arithmetic of one group

A language has 1626 words, and `1626 ^ 3 ≥ 2 ^ 32`: the three indices of a 4-byte group are its
base-1626 digits, each written as an offset from the one before, and they read back as the group
with no sum or product wrapping around.
-/

/-- The indices of a group, as numbers: its lowest base-1626 digit, then each next digit plus the
index before, modulo 1626. -/
theorem toNat_wordIndices (v : UInt32) :
    (wordIndices 1626 v).1.toNat = v.toNat % 1626 ∧
    (wordIndices 1626 v).2.1.toNat = (v.toNat / 1626 + v.toNat % 1626) % 1626 ∧
    (wordIndices 1626 v).2.2.toNat =
      (v.toNat / 1626 / 1626 + (v.toNat / 1626 + v.toNat % 1626) % 1626) % 1626 := by
  have small := v.toNat_lt
  have first : (v % 1626).toNat = v.toNat % 1626 := UInt32.toNat_mod v 1626
  have quotient : (v / 1626).toNat = v.toNat / 1626 := UInt32.toNat_div v 1626
  -- Neither sum wraps: the quotients are far below `2 ^ 32`.
  have second : ((v / 1626 + v % 1626) % 1626).toNat = (v.toNat / 1626 + v.toNat % 1626) % 1626 := by
    rw [UInt32.toNat_mod, UInt32.toNat_add_of_lt (by rw [quotient, first]; omega), quotient, first]
    rfl
  refine ⟨first, second, ?_⟩
  have quotient' : (v / 1626 / 1626).toNat = v.toNat / 1626 / 1626 := by
    rw [UInt32.toNat_div, quotient]
    rfl
  show ((v / 1626 / 1626 + (v / 1626 + v % 1626) % 1626) % 1626).toNat = _
  rw [UInt32.toNat_mod, UInt32.toNat_add_of_lt (by rw [quotient', second]; omega), quotient', second]
  rfl

/-- The group `words_to_bytes` reads from the indices of a group is the group. -/
theorem wordValue_wordIndices (v : UInt32) :
    wordValue 1626 (wordIndices 1626 v).1 (wordIndices 1626 v).2.1 (wordIndices 1626 v).2.2 = v := by
  have small := v.toNat_lt
  obtain ⟨first, second, third⟩ := toNat_wordIndices v
  generalize (wordIndices 1626 v).1 = w1 at first ⊢
  generalize (wordIndices 1626 v).2.1 = w2 at second ⊢
  generalize (wordIndices 1626 v).2.2 = w3 at third ⊢
  set q := v.toNat / 1626 with quotient
  have le1 : w1 ≤ 1626 := UInt32.le_iff_toNat_le.mpr (by rw [first]; exact Nat.le_of_lt (Nat.mod_lt _ (by decide)))
  have le2 : w2 ≤ 1626 := UInt32.le_iff_toNat_le.mpr (by rw [second]; exact Nat.le_of_lt (Nat.mod_lt _ (by decide)))
  -- Subtracting the index before reads each next digit back, with no sum wrapping.
  have digit2 : ((1626 - w1 + w2) % 1626).toNat = q % 1626 := by
    have difference : (1626 - w1).toNat = 1626 - w1.toNat := UInt32.toNat_sub_of_le _ _ le1
    rw [UInt32.toNat_mod, UInt32.toNat_add_of_lt (by rw [difference, second]; omega), difference,
      second, first]
    exact Nat.sub_add_mod_offset q (Nat.le_of_lt (Nat.mod_lt _ (by decide)))
  have digit3 : ((1626 - w2 + w3) % 1626).toNat = q / 1626 % 1626 := by
    have difference : (1626 - w2).toNat = 1626 - w2.toNat := UInt32.toNat_sub_of_le _ _ le2
    rw [UInt32.toNat_mod, UInt32.toNat_add_of_lt (by rw [difference, third]; omega), difference,
      third, ← second]
    exact Nat.sub_add_mod_offset (q / 1626) (UInt32.le_iff_toNat_le.mp le2)
  -- The digits times their place values fit in 32 bits, and add up to the group.
  have middle : (1626 * ((1626 - w1 + w2) % 1626)).toNat = 1626 * (q % 1626) := by
    rw [UInt32.toNat_mul_of_lt (by rw [digit2]; show 1626 * (q % 1626) < 2 ^ 32; omega), digit2]
    rfl
  have high : (1626 * 1626 * ((1626 - w2 + w3) % 1626)).toNat = 1626 * 1626 * (q / 1626 % 1626) := by
    rw [UInt32.toNat_mul_of_lt (by rw [digit3]; show 2643876 * (q / 1626 % 1626) < 2 ^ 32; omega), digit3]
    rfl
  apply UInt32.toNat_inj.mp
  rw [wordValue, UInt32.toNat_add_of_lt (by rw [UInt32.toNat_add_of_lt (by rw [first, middle]; omega), first, middle, high]; omega),
    UInt32.toNat_add_of_lt (by rw [first, middle]; omega), first, middle, high]
  exact Nat.mod_add_mul_mod_add_mul_div (by omega)

/-! ### The words of a key -/

/-- The words `bytes_to_words` writes for a key: the words of its groups, then the checksum word
picked from them. -/
def seedWords (language : Base) (src : List UInt8) : List (List Char) :=
  let store := (List.range (src.length / 4)).flatMap (groupWords language.wordList src)
  store ++ [store.getD (createChecksumIndex crc32 store language.uniquePrefixLength) []]

@[simp] theorem length_groupIndices (wordList : List (List Char)) (src : List UInt8) (i : Nat) :
    (groupIndices wordList src i).length = 3 := rfl

@[simp] theorem length_groupWords (wordList : List (List Char)) (src : List UInt8) (i : Nat) :
    (groupWords wordList src i).length = 3 := by
  rw [groupWords, List.length_map, length_groupIndices]

theorem toUInt32_length_wordList (language : Base) :
    UInt32.ofNat language.wordList.length = 1626 := by
  rw [language.wordListLength]
  rfl

/-- Every index of a group is below 1626. -/
theorem lt_of_mem_groupIndices (language : Base) (src : List UInt8) (i : Nat) :
    ∀ t ∈ groupIndices language.wordList src i, t < 1626 := by
  intro t member
  obtain ⟨first, second, third⟩ :=
    toNat_wordIndices (UInt32.ofNat (littleEndian ((src.drop (i * 4)).take 4)))
  simp only [groupIndices, toUInt32_length_wordList, List.mem_cons, List.not_mem_nil, or_false] at member
  rcases member with same | same | same
  · rw [same, first]; exact Nat.mod_lt _ (by decide)
  · rw [same, second]; exact Nat.mod_lt _ (by decide)
  · rw [same, third]; exact Nat.mod_lt _ (by decide)

theorem seedWords_length (language : Base) {src : List UInt8} (sized : src.length = 32) :
    (seedWords crc32 language src).length = seed_length + 1 := by
  simp [seedWords, sized, seed_length]

/-- A word of a group is a word of the list. -/
theorem mem_of_mem_groupWords {language : Base} {src : List UInt8} {i : Nat} {word : List Char}
    (member : word ∈ groupWords language.wordList src i) : word ∈ language.wordList := by
  obtain ⟨t, indexed, rfl⟩ := List.mem_map.mp member
  have inRange : t < language.wordList.length := by
    rw [language.wordListLength]
    exact lt_of_mem_groupIndices language src i t indexed
  rw [List.getD_eq_getElem _ _ inRange]
  exact List.getElem_mem inRange

/-- Every word of a key's seed is a word of the list: the checksum word is one of the others. -/
theorem mem_of_mem_seedWords {language : Base} {src : List UInt8} (sized : src.length = 32)
    {word : List Char} (member : word ∈ seedWords crc32 language src) :
    word ∈ language.wordList := by
  have grouped : ∀ w ∈ (List.range (src.length / 4)).flatMap (groupWords language.wordList src),
      w ∈ language.wordList := by
    intro w listed
    obtain ⟨i, -, inGroup⟩ := List.mem_flatMap.mp listed
    exact mem_of_mem_groupWords inGroup
  rcases List.mem_append.mp member with stored | checksum
  · exact grouped word stored
  · rw [List.mem_singleton] at checksum
    rw [checksum]
    apply grouped
    have inRange : createChecksumIndex crc32
        ((List.range (src.length / 4)).flatMap (groupWords language.wordList src))
        language.uniquePrefixLength <
          ((List.range (src.length / 4)).flatMap (groupWords language.wordList src)).length := by
      simp only [createChecksumIndex, seed_length, List.length_flatMap, length_groupWords, sized]
      simp
      omega
    rw [List.getD_eq_getElem _ _ inRange]
    exact List.getElem_mem inRange

/-- The loop of `bytes_to_words` writes each group's words, each followed by a space, and stores
them. -/
theorem foldl_groupWords (wordList : List (List Char)) (src : List UInt8) :
    ∀ (indices : List Nat) (words : List Char) (store : List (List Char)),
      indices.foldl (fun (state : List Char × List (List Char)) i =>
          (state.1 ++ (groupWords wordList src i).flatMap (· ++ [' ']),
            state.2 ++ groupWords wordList src i)) (words, store) =
        (words ++ (indices.flatMap (groupWords wordList src)).flatMap (· ++ [' ']),
          store ++ indices.flatMap (groupWords wordList src))
  | [], words, store => by simp
  | i :: indices, words, store => by
    rw [List.foldl_cons, foldl_groupWords wordList src indices]
    simp [List.flatMap_append, List.append_assoc]

/-- `bytes_to_words` writes the seed's words joined by spaces. -/
theorem bytesToWords_eq (languageMap : LanguageMap) {language : Base}
    (listed : language ∈ languageMap.languages) {src : List UInt8} (sized : src.length = 32) :
    bytesToWords crc32 languageMap src language.languageName =
      some ([' '].intercalate (seedWords crc32 language src)) := by
  unfold bytesToWords
  rw [sized, LanguageMap.find_languageName languageMap listed]
  simp only [foldl_groupWords, List.nil_append]
  rw [if_neg (by decide)]
  show some _ = _
  congr 1
  -- The words are the groups' words, each followed by a space, so the last space goes before the
  -- checksum word.
  have nonempty : (List.range (32 / 4)).flatMap (groupWords language.wordList src) ≠ [] :=
    List.ne_nil_of_length_pos (by simp [length_groupWords])
  obtain ⟨w, ws, storeIs⟩ := List.exists_cons_of_ne_nil nonempty
  rw [seedWords, sized, storeIs, Tokens.flatMap_append_sep, List.dropLast_concat,
    Tokens.intercalate_concat, List.append_assoc, List.singleton_append]

/-- The words of a list the mnemonics can use: none empty, none with a blank or a NUL in it. -/
def AreTokens (wordList : List (List Char)) : Prop :=
  ∀ word ∈ wordList, word ≠ [] ∧ ∀ c ∈ word, isSpace c = false ∧ c.toNat ≠ 0

/-- The text `bytes_to_words` writes splits back into the seed's words: it starts and ends with a
word, and the words hold no space. -/
theorem split_trim_intercalate {language : Base} (tokens : AreTokens language.wordList)
    {src : List UInt8} (sized : src.length = 32) :
    Tokens.split ' ' (Tokens.trim isSpace ([' '].intercalate (seedWords crc32 language src))) =
      seedWords crc32 language src := by
  have words : ∀ word ∈ seedWords crc32 language src, word ≠ [] ∧ ∀ c ∈ word, c ≠ ' ' := by
    intro word member
    obtain ⟨nonempty, chars⟩ := tokens word (mem_of_mem_seedWords crc32 sized member)
    refine ⟨nonempty, fun c inWord same => ?_⟩
    have blank := (chars c inWord).1
    rw [same] at blank
    exact absurd blank (by decide)
  have blankless : ∀ word ∈ seedWords crc32 language src, ∀ c ∈ word, isSpace c = false := by
    intro word member c inWord
    exact ((tokens word (mem_of_mem_seedWords crc32 sized member)).2 c inWord).1
  -- The seed is its stored words, at least one, and the checksum word.
  have nonempty : (List.range (src.length / 4)).flatMap (groupWords language.wordList src) ≠ [] :=
    List.ne_nil_of_length_pos (by simp [sized])
  obtain ⟨first, rest, storeIs⟩ := List.exists_cons_of_ne_nil nonempty
  have seedIs : seedWords crc32 language src =
      first :: rest ++ [(first :: rest).getD
        (createChecksumIndex crc32 (first :: rest) language.uniquePrefixLength) []] := by
    rw [seedWords, storeIs]
  rw [seedIs] at words blankless ⊢
  rw [Tokens.trim_of_ends]
  · exact Tokens.split_intercalate first _ words
  · rw [List.cons_append, Tokens.head?_intercalate _ (words first (by simp)).1]
    intro c head
    exact blankless first (by simp) c (List.mem_of_head? head)
  · rw [Tokens.getLast?_intercalate_concat _ (words _ (by simp)).1]
    intro c last
    exact blankless _ (by simp) c (List.mem_of_getLast? last)

/-- A language whose unique prefixes are distinct finds each of its words, by its prefix, at the
word's index. -/
theorem matchIndex_getD {language : Base}
    (distinct : (language.wordList.map (trimWord language.uniquePrefixLength)).Nodup)
    (tokens : AreTokens language.wordList) {t : Nat} (inRange : t < 1626) :
    matchIndex language true (language.wordList.getD t []) = some t := by
  have listed : t < language.wordList.length := by
    rw [language.wordListLength]
    exact inRange
  have noNul : ∀ c ∈ language.wordList[t], c.toNat ≠ 0 :=
    fun c member => ((tokens _ (List.getElem_mem listed)).2 c member).2
  rw [List.getD_eq_getElem _ _ listed, matchIndex, if_pos rfl, utf8prefix_eq_take noNul,
    ← trimWord_eq_take noNul, trimmedWordMap_getElem distinct listed]

/-- The checksum word of a key's seed passes the checksum test. -/
theorem checksumTest_seedWords (language : Base) (src : List UInt8) :
    checksumTest crc32 (seedWords crc32 language src) language.uniquePrefixLength = true := by
  simp [checksumTest, seedWords]

/-- `find_seed_language` passes over the languages that lack a word of the seed, and stops at the
first that has them all and passes the checksum test. -/
theorem findSeedLanguage_append {seed : List (List Char)} {language : Base} {matched : List Nat}
    (found : seed.mapM (matchIndex language true) = some matched)
    (passes : checksumTest crc32 seed language.uniquePrefixLength = true) (post : List Base) :
    ∀ pre : List Base, (∀ other ∈ pre, seed.mapM (matchIndex other true) = none) →
      findSeedLanguage crc32 seed true (pre ++ language :: post) none = some (language, matched)
  | [], _ => by
    rw [List.nil_append, findSeedLanguage, found]
    simp [passes]
  | other :: pre, lacking => by
    rw [List.cons_append, findSeedLanguage, lacking other List.mem_cons_self]
    exact findSeedLanguage_append found passes post pre
      fun o member => lacking o (List.mem_cons_of_mem other member)

/-- The bytes of a group of a 32-byte key are the bytes of its value. -/
theorem podBytes_group {src : List UInt8} (sized : src.length = 32) {i : Nat} (inRange : i < 8) :
    ByteFile.podBytes 4 (UInt32.ofNat (littleEndian ((src.drop (i * 4)).take 4))).toNat =
      (src.drop (i * 4)).take 4 := by
  have four : ((src.drop (i * 4)).take 4).length = 4 := by
    simp only [List.length_take, List.length_drop, sized]
    omega
  have fits := littleEndian_lt ((src.drop (i * 4)).take 4)
  rw [four] at fits
  have digits := fixedDigits_littleEndian ((src.drop (i * 4)).take 4)
  rw [four] at digits
  rw [UInt32.toNat_ofNat', Nat.mod_eq_of_lt (by simpa using fits), ByteFile.podBytes]
  exact digits

/-- The indices of a group, read back by `words_to_bytes`, give the group and pass its test. -/
theorem wordValue_groupIndices (language : Base) (src : List UInt8) (i : Nat) :
    wordValue 1626 (UInt32.ofNat ((groupIndices language.wordList src i).getD 0 0))
        (UInt32.ofNat ((groupIndices language.wordList src i).getD 1 0))
        (UInt32.ofNat ((groupIndices language.wordList src i).getD 2 0)) =
      UInt32.ofNat (littleEndian ((src.drop (i * 4)).take 4)) := by
  simp only [groupIndices, toUInt32_length_wordList, List.getD_cons_zero, List.getD_cons_succ,
    UInt32.ofNat_toNat]
  exact wordValue_wordIndices _

/-- The index `find_seed_language` records for a word of a key's seed is the index the word was
written from. -/
theorem getD_map_matchIndex {language : Base}
    (distinct : (language.wordList.map (trimWord language.uniquePrefixLength)).Nodup)
    (tokens : AreTokens language.wordList) {src : List UInt8} (sized : src.length = 32) {i r : Nat}
    (group : i < 8) (within : r < 3) :
    ((seedWords crc32 language src).map fun word => (matchIndex language true word).getD 0).getD
        (i * 3 + r) 0 =
      (groupIndices language.wordList src i).getD r 0 := by
  have stored : ((List.range (src.length / 4)).flatMap (groupWords language.wordList src)).length = 24 := by
    simp [sized]
  have position : i * 3 + r < 24 := by omega
  have index : r < (groupIndices language.wordList src i).length := by
    rw [length_groupIndices]
    exact within
  -- The position lies among the stored words, in group `i`, at place `r`.
  have word : (seedWords crc32 language src).getD (i * 3 + r) [] =
      language.wordList.getD ((groupIndices language.wordList src i)[r]) [] := by
    rw [seedWords, List.getD_append _ _ _ _ (by rw [stored]; exact position), sized,
      List.getD_flatMap_range (length_groupWords _ _) [] group within, groupWords,
      List.getD_eq_getElem _ _ (by rw [List.length_map]; exact index), List.getElem_map]
  have inSeed : i * 3 + r < (seedWords crc32 language src).length := by
    rw [seedWords_length crc32 language sized, seed_length]
    omega
  rw [List.getD_eq_getElem _ _ (by rw [List.length_map]; exact inSeed), List.getElem_map,
    ← List.getD_eq_getElem _ [] inSeed, word,
    matchIndex_getD distinct tokens (lt_of_mem_groupIndices language src i _ (List.getElem_mem index)),
    List.getD_eq_getElem _ _ index]
  rfl

/-- A round of `words_to_bytes` on the indices of a group of a 32-byte key reads back the group's
bytes. -/
theorem readGroup_eq {language : Base} {src : List UInt8} (sized : src.length = 32)
    {matched : List Nat} {i : Nat} (group : i < 8)
    (reads : ∀ r < 3, matched.getD (i * 3 + r) 0 = (groupIndices language.wordList src i).getD r 0) :
    readGroup 1626 matched i = some ((src.drop (i * 4)).take 4) := by
  have first := reads 0 (by decide)
  rw [Nat.add_zero] at first
  have lowest : UInt32.ofNat ((groupIndices language.wordList src i).getD 0 0) =
      UInt32.ofNat (littleEndian ((src.drop (i * 4)).take 4)) % 1626 := by
    simp only [groupIndices, toUInt32_length_wordList, List.getD_cons_zero, UInt32.ofNat_toNat]
    rfl
  unfold readGroup
  simp only [first, reads 1 (by decide), reads 2 (by decide)]
  rw [wordValue_groupIndices, lowest, if_neg (not_not.mpr rfl), podBytes_group sized group]

theorem wordsToBytes_intercalate (languageMap : LanguageMap) {language : Base}
    (listed : language ∈ languageMap.languages)
    (distinct : (language.wordList.map (trimWord language.uniquePrefixLength)).Nodup)
    (tokens : AreTokens language.wordList) {src : List UInt8} (sized : src.length = 32)
    (alone : ∀ other ∈ languageMap.languages, other.languageName ≠ language.languageName →
      ∃ word ∈ seedWords crc32 language src,
        other.trimmedWordMap ( utf8prefix word other.uniquePrefixLength) = none) :
    wordsToBytes crc32 languageMap ([' '].intercalate (seedWords crc32 language src)) =
      some (src, language.languageName) := by
  -- The language has every word of the seed, each at the index it was written from.
  have found : (seedWords crc32 language src).mapM (matchIndex language true) =
      some ((seedWords crc32 language src).map fun word => (matchIndex language true word).getD 0) := by
    apply List.mapM_option_eq_some
    intro word member
    obtain ⟨t, inRange, rfl⟩ := List.mem_iff_getElem.mp (mem_of_mem_seedWords crc32 sized member)
    rw [← List.getD_eq_getElem _ [] inRange,
      matchIndex_getD distinct tokens (by rw [← language.wordListLength]; exact inRange)]
    rfl
  -- The languages before it in the map lack a word of the seed.
  obtain ⟨pre, post, split⟩ := List.append_of_mem listed
  have lacking : ∀ other ∈ pre, (seedWords crc32 language src).mapM (matchIndex other true) = none := by
    intro other member
    have names := languageMap.namesDistinct
    rw [split, List.map_append, List.map_cons, List.nodup_append] at names
    obtain ⟨word, inSeed, missing⟩ := alone other (by rw [split]; exact List.mem_append_left _ member)
      (names.2.2 _ (List.mem_map_of_mem member) _ List.mem_cons_self)
    exact List.mapM_option_eq_none inSeed (by rw [matchIndex, if_pos rfl]; exact missing)
  unfold wordsToBytes
  rw [split_trim_intercalate crc32 tokens sized]
  simp only [seedWords_length crc32 language sized, split,
    findSeedLanguage_append crc32 found (checksumTest_seedWords crc32 language src) post pre lacking,
    seed_length, beq_self_eq_true, toUInt32_length_wordList]
  rw [if_neg (by decide)]
  simp only [Option.pure_def, Option.bind_eq_bind, Option.bind_some, Bool.not_true, Bool.and_false,
    Bool.false_eq_true, if_false, if_true, checksumTest_seedWords]
  -- The seed without its checksum word is the eight groups' words, which read back as the key.
  have stored : (seedWords crc32 language src).dropLast.length = 24 := by
    rw [List.length_dropLast, seedWords_length crc32 language sized]
    rfl
  have decoded : (List.range 8).mapM (readGroup 1626
      ((seedWords crc32 language src).map fun word => (matchIndex language true word).getD 0)) =
        some ((List.range 8).map fun i => (src.drop (i * 4)).take 4) :=
    List.mapM_option_eq_some fun i member => readGroup_eq sized (List.mem_range.mp member)
      fun r within => getD_map_matchIndex crc32 distinct tokens sized (List.mem_range.mp member) within
  rw [stored, show 24 / 3 = 8 from rfl, decoded, Option.bind_some, if_neg (by decide),
    ← List.flatMap_def, List.flatMap_range_take_drop, show 8 * 4 = src.length by rw [sized],
    List.take_length]

/-! ### The round trip -/

/-- For every 32-byte key, every language of the map whose words are tokens with distinct unique
prefixes, when no other language finds all 25 words of the key's seed by their prefixes, and
whatever function of its bytes `crc32` is: `bytes_to_words` writes 24 words and a checksum word,
which pass the checksum test, and `words_to_bytes` reads the key and the language back. -/
theorem mnemonic_seed_round_trip (languageMap : LanguageMap) {language : Base}
    (listed : language ∈ languageMap.languages)
    (distinct : (language.wordList.map (trimWord language.uniquePrefixLength)).Nodup)
    (tokens : AreTokens language.wordList) (key : List UInt8) (sized : key.length = 32)
    (alone : ∀ other ∈ languageMap.languages, other.languageName ≠ language.languageName →
      ∃ word ∈ seedWords crc32 language key,
        other.trimmedWordMap ( utf8prefix word other.uniquePrefixLength) = none) :
    ∃ words, bytesToWords crc32 languageMap key language.languageName = some words ∧
      Tokens.split ' ' (Tokens.trim isSpace words) = seedWords crc32 language key ∧
      (seedWords crc32 language key).length = seed_length + 1 ∧
      checksumTest crc32 (seedWords crc32 language key) language.uniquePrefixLength = true ∧
      wordsToBytes crc32 languageMap words = some (key, language.languageName) :=
  ⟨_, bytesToWords_eq crc32 languageMap listed sized, split_trim_intercalate crc32 tokens sized,
    seedWords_length crc32 language sized, checksumTest_seedWords crc32 language key,
    wordsToBytes_intercalate crc32 languageMap listed distinct tokens sized alone⟩

/-- 1626 words of one CJK character each, from U+4E00 on. -/
def sampleWords : List (List Char) := (List.range 1626).map fun t => [Char.ofNat (19968 + t)]

/-- A language of those words, told apart by their first character. -/
def sampleLanguage : Base := ⟨"sample", sampleWords, 1, by simp [sampleWords]⟩

theorem toNat_sampleChar {t : Nat} (inRange : t < 1626) :
    (Char.ofNat (19968 + t)).toNat = 19968 + t := by
  rw [Char.ofNat, dif_pos (Or.inl (by omega))]
  rfl

theorem mnemonic_seed_round_trip_on_sample_language :
    ∃ words, bytesToWords (fun _ => 0) ⟨[sampleLanguage], List.nodup_singleton _⟩
        (List.replicate 32 7) "sample" = some words ∧
      Tokens.split ' ' (Tokens.trim isSpace words) =
        seedWords (fun _ => 0) sampleLanguage (List.replicate 32 7) ∧
      (seedWords (fun _ => 0) sampleLanguage (List.replicate 32 7)).length = seed_length + 1 ∧
      checksumTest (fun _ => 0) (seedWords (fun _ => 0) sampleLanguage (List.replicate 32 7)) 1 = true ∧
      wordsToBytes (fun _ => 0) ⟨[sampleLanguage], List.nodup_singleton _⟩ words =
        some (List.replicate 32 7, "sample") :=
  mnemonic_seed_round_trip (fun _ => 0) ⟨[sampleLanguage], List.nodup_singleton _⟩
    List.mem_cons_self
    (by
      -- Each word is its own one-character prefix, and the characters differ.
      dsimp only [sampleLanguage]
      have own : ∀ word ∈ sampleWords, trimWord 1 word = word := by
        intro word member
        obtain ⟨t, inRange, rfl⟩ := List.mem_map.mp member
        rw [trimWord_eq_take (by simp [toNat_sampleChar (List.mem_range.mp inRange)])]
        rfl
      rw [List.map_congr_left own, List.map_id']
      refine List.Nodup.map_on (fun a aIn b bIn same => ?_) List.nodup_range
      have chars := congrArg (fun word : List Char => (word.headD ' ').toNat) same
      simp only [List.headD_cons, toNat_sampleChar (List.mem_range.mp aIn),
        toNat_sampleChar (List.mem_range.mp bIn)] at chars
      omega)
    (by
      -- The characters are neither blanks nor NUL.
      dsimp only [sampleLanguage]
      intro word member
      obtain ⟨t, inRange, rfl⟩ := List.mem_map.mp member
      have code := toNat_sampleChar (List.mem_range.mp inRange)
      refine ⟨List.cons_ne_nil _ _, fun c inWord => ?_⟩
      rw [List.mem_singleton] at inWord
      subst inWord
      have blank : (' ' : Char).toNat = 32 := rfl
      have notBlank : (Char.ofNat (19968 + t) == ' ') = false :=
        beq_eq_false_iff_ne.mpr fun same => by
          have codes := congrArg Char.toNat same
          omega
      refine ⟨?_, by omega⟩
      simp only [isSpace, notBlank, code, Bool.false_or, Bool.and_eq_false_iff,
        decide_eq_false_iff_not]
      omega)
    (List.replicate 32 7) List.length_replicate
    (fun other member differs => absurd (List.mem_singleton.mp member ▸ rfl) differs)

end Crypto.ElectrumWords
