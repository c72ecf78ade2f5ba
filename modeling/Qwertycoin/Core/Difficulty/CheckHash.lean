import Qwertycoin.Lib.Words
import Qwertycoin.Core.Types

/-!
`check_hash` of `Difficulty.cpp`: whether a proof-of-work hash meets a difficulty. The hash is read
as a little-endian 256-bit number and multiplied by the difficulty one 64-bit word at a time; the
product fits in 256 bits exactly when the top word's product has no high word and no carry leaves
the top word (`checkHash_iff`).
-/

namespace CryptoNote

/-- `mul`, through `unsigned __int128`: the product of two words as (low word, high word). -/
def mul (a b : UInt64) : UInt64 × UInt64 :=
  let res := a.toNat * b.toNat
  (UInt64.ofNat res, UInt64.ofNat (res / 2 ^ 64))

/-- `cadd`: whether adding two words carries. -/
def cadd (a b : UInt64) : Bool := a + b < a

/-- `cadc`: whether adding two words and a carry carries. -/
def cadc (a b : UInt64) (c : Bool) : Bool := a + b < a || (c && a + b == 0xFFFFFFFFFFFFFFFF)

/-- `swap64le(((const uint64_t *) &hash)[i])`: the hash's `i`-th eight bytes, read little-endian. -/
def hashWord (hash : Hash) (i : Nat) : UInt64 :=
  UInt64.ofNat (littleEndian ((hash.data.toList.drop (8 * i)).take 8))

/-- `check_hash(hash, difficulty)`. -/
def checkHash (hash : Hash) (difficulty : UInt64) : Bool :=
  -- The highest word first: a random hash most likely fails here.
  let (top, high) := mul (hashWord hash 3) difficulty
  if high ≠ 0 then false
  else
    let (_, cur) := mul (hashWord hash 0) difficulty
    let (low, high) := mul (hashWord hash 1) difficulty
    let carry := cadd cur low
    let cur := high
    let (low, high) := mul (hashWord hash 2) difficulty
    let carry := cadc cur low carry
    let carry := cadc high top carry
    !carry

/-- The two words of a product. -/
theorem mul_spec {a b low high : UInt64} (product : mul a b = (low, high)) :
    low.toNat + 2 ^ 64 * high.toNat = a.toNat * b.toNat ∧ low.toNat < 2 ^ 64 ∧
      high.toNat < 2 ^ 64 := by
  simp only [mul, Prod.mk.injEq] at product
  obtain ⟨rfl, rfl⟩ := product
  have fits : a.toNat * b.toNat < 2 ^ 64 * 2 ^ 64 :=
    Nat.mul_lt_mul'' a.toNat_lt b.toNat_lt
  simp only [UInt64.toNat_ofNat']
  omega

theorem cadd_iff (a b : UInt64) : cadd a b = true ↔ 2 ^ 64 ≤ a.toNat + b.toNat := by
  simp [cadd, UInt64.add_lt_left_iff]

theorem cadc_iff (a b : UInt64) (c : Bool) :
    cadc a b c = true ↔ 2 ^ 64 ≤ a.toNat + b.toNat + c.toNat := by
  rw [← UInt64.add_carry_iff]
  simp [cadc]

/-- A word of the hash is its eight bytes' value. -/
theorem hashWord_toNat (hash : Hash) (i : Nat) :
    (hashWord hash i).toNat = littleEndian ((hash.data.toList.drop (8 * i)).take 8) := by
  have small := littleEndian_lt ((hash.data.toList.drop (8 * i)).take 8)
  have eight : ((hash.data.toList.drop (8 * i)).take 8).length ≤ 8 := List.length_take_le _ _
  have bound : 256 ^ ((hash.data.toList.drop (8 * i)).take 8).length ≤ 2 ^ 64 :=
    calc 256 ^ ((hash.data.toList.drop (8 * i)).take 8).length ≤ 256 ^ 8 :=
          Nat.pow_le_pow_right (by decide) eight
      _ = 2 ^ 64 := by norm_num
  simp only [hashWord, UInt64.toNat_ofNat']
  omega

/-- The hash's value is its four words, lowest first. -/
theorem littleEndian_hash (hash : Hash) :
    littleEndian hash.data.toList = (hashWord hash 0).toNat + 2 ^ 64 * (hashWord hash 1).toNat +
      2 ^ 128 * (hashWord hash 2).toNat + 2 ^ 192 * (hashWord hash 3).toNat := by
  have length : hash.data.toList.length = 32 := by simp
  simp only [hashWord_toNat]
  -- Cut after 8, 16 and 24 bytes; the last cut leaves exactly eight.
  rw [littleEndian_take_drop hash.data.toList (show 8 ≤ _ by omega),
    littleEndian_take_drop (hash.data.toList.drop 8) (show 8 ≤ _ by simp),
    littleEndian_take_drop ((hash.data.toList.drop 8).drop 8) (show 8 ≤ _ by simp)]
  simp only [List.drop_drop, Nat.mul_one, Nat.mul_zero, List.drop_zero]
  have last : (hash.data.toList.drop 24).take 8 = hash.data.toList.drop 24 :=
    List.take_of_length_le (by simp)
  rw [last]
  ring

/-- `check_hash` accepts exactly the hashes whose value times the difficulty is below `2 ^ 256`. -/
theorem checkHash_iff (hash : Hash) (difficulty : UInt64) :
    checkHash hash difficulty = true ↔ littleEndian hash.data.toList * difficulty.toNat < 2 ^ 256 := by
  -- Each word's product is a low and a high word.
  rcases product3 : mul (hashWord hash 3) difficulty with ⟨top, high3⟩
  rcases product0 : mul (hashWord hash 0) difficulty with ⟨low0, high0⟩
  rcases product1 : mul (hashWord hash 1) difficulty with ⟨low1, high1⟩
  rcases product2 : mul (hashWord hash 2) difficulty with ⟨low2, high2⟩
  obtain ⟨spec3, top_lt, -⟩ := mul_spec product3
  obtain ⟨spec0, low0_lt, high0_lt⟩ := mul_spec product0
  obtain ⟨spec1, low1_lt, high1_lt⟩ := mul_spec product1
  obtain ⟨spec2, low2_lt, high2_lt⟩ := mul_spec product2
  -- The whole product is the four partial products, each shifted to its word.
  have expand : littleEndian hash.data.toList * difficulty.toNat =
      low0.toNat + 2 ^ 64 * (high0.toNat + low1.toNat) + 2 ^ 128 * (high1.toNat + low2.toNat) +
        2 ^ 192 * (high2.toNat + top.toNat) + 2 ^ 256 * high3.toNat := by
    rw [littleEndian_hash]
    calc ((hashWord hash 0).toNat + 2 ^ 64 * (hashWord hash 1).toNat +
          2 ^ 128 * (hashWord hash 2).toNat + 2 ^ 192 * (hashWord hash 3).toNat) * difficulty.toNat
        = (hashWord hash 0).toNat * difficulty.toNat +
            2 ^ 64 * ((hashWord hash 1).toNat * difficulty.toNat) +
            2 ^ 128 * ((hashWord hash 2).toNat * difficulty.toNat) +
            2 ^ 192 * ((hashWord hash 3).toNat * difficulty.toNat) := by ring
      _ = _ := by rw [← spec0, ← spec1, ← spec2, ← spec3]; ring
  rw [expand]
  simp only [checkHash, product0, product1, product2, product3]
  by_cases overflow : high3 = 0
  · -- The top word's product fits: the sum fits exactly when no carry leaves the top word.
    have zero : high3.toNat = 0 := by simp [overflow]
    have carry1 := cadd_iff high0 low1
    have carry2 := cadc_iff high1 low2 (cadd high0 low1)
    have carry3 := cadc_iff high2 top (cadc high1 low2 (cadd high0 low1))
    simp only [overflow, ne_eq, not_true_eq_false, if_false]
    generalize cadd high0 low1 = c1 at carry1 carry2 carry3
    generalize cadc high1 low2 c1 = c2 at carry2 carry3
    generalize cadc high2 top c2 = c3 at carry3
    cases c1 <;> cases c2 <;> cases c3 <;> simp at carry1 carry2 carry3 ⊢ <;> omega
  · -- A high word on top puts the product past `2 ^ 256`.
    have positive : 0 < high3.toNat := by
      rcases Nat.eq_zero_or_pos high3.toNat with zero | positive
      · exact absurd (UInt64.toNat_inj.mp (by simpa using zero)) overflow
      · exact positive
    simp only [overflow, ne_eq, not_false_eq_true, if_true, Bool.false_eq_true, false_iff]
    omega

end CryptoNote
