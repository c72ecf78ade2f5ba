import Qwertycoin.Lib.GreedyMatch
import Qwertycoin.Core.Blockchain.Run

/-!
`validateInput` for a multisignature input, against what it is meant to decide. The signature loop
walks the output's keys once and moves to the next signature each time one checks; it is the
greedy walk of `List.greedyMatch`, so it succeeds exactly when the signatures check against keys at
strictly increasing positions, whatever `check_signature` is (`validateInput_multisignature_iff`).
-/

namespace CryptoNote

namespace Blockchain

variable (currency : Currency) (p : Primitives) (s : Blockchain)

/-- One round of the loop: the next signature is checked against the next key. -/
theorem matchSignatures_cons {prefixHash : Hash} {signatures : List Signature} {count i : Nat}
    (left : i < count) {signature : Signature} (found : signatures[i]? = some signature)
    (key : PublicKey) (keys : List PublicKey) :
    matchSignatures p prefixHash signatures count i (key :: keys) =
      if p.checkSignature prefixHash key signature then
        matchSignatures p prefixHash signatures count (i + 1) keys
      else matchSignatures p prefixHash signatures count i keys := by
  rw [matchSignatures]
  simp [left, found]

/-- The loop from signature `i` on, with as many signatures as the input counts, is the greedy
walk of the signatures left over the keys. -/
theorem matchSignatures_eq_greedyMatch (prefixHash : Hash) (signatures : List Signature) :
    ∀ (keys : List PublicKey) (i : Nat), i ≤ signatures.length →
      matchSignatures p prefixHash signatures signatures.length i keys =
        .ok ((signatures.drop i).greedyMatch
          (fun signature key => p.checkSignature prefixHash key signature) keys)
  | [], i, within => by
    by_cases left : i < signatures.length
    · -- Signatures are left and the keys ran out.
      obtain ⟨signature, others, dropped⟩ : ∃ signature others,
          signatures.drop i = signature :: others :=
        List.exists_cons_of_ne_nil (by simpa using left)
      rw [matchSignatures]
      simp [left, dropped, List.greedyMatch, pure, Except.pure]
    · have done : signatures.drop i = [] := List.drop_eq_nil_of_le (by omega)
      rw [matchSignatures]
      simp [left, done, List.greedyMatch, pure, Except.pure]
  | key :: keys, i, within => by
    by_cases left : i < signatures.length
    · -- The next signature is checked against this key; a check moves to the next signature.
      have dropped : signatures.drop i = signatures[i] :: signatures.drop (i + 1) :=
        List.drop_eq_getElem_cons left
      rw [matchSignatures_cons p left (List.getElem?_eq_getElem left), dropped]
      by_cases checks : p.checkSignature prefixHash key signatures[i] = true
      · rw [if_pos checks, matchSignatures_eq_greedyMatch prefixHash signatures keys (i + 1) left]
        simp [List.greedyMatch, checks]
      · rw [if_neg checks, matchSignatures_eq_greedyMatch prefixHash signatures keys i within,
          dropped]
        simp [List.greedyMatch, checks]
    · have done : signatures.drop i = [] := List.drop_eq_nil_of_le (by omega)
      rw [matchSignatures]
      simp [left, done, List.greedyMatch, pure, Except.pure]

/-- `validateInput` for a multisignature input returns true exactly when the output it names exists,
is unused and unlocked, asks for as many signatures as the input carries, and the signatures check
in order against keys of the output at strictly increasing positions. -/
theorem validateInput_multisignature_iff (input : MultisignatureInput) (prefixHash : Hash)
    (signatures : List Signature) (counted : input.signatureCount.toNat = signatures.length) :
    s.validateInput currency p input prefixHash signatures = .ok true ↔
      ∃ usage, (s.multisignatureOutputs input.amount)[input.outputIndex.toNat]? = some usage ∧
        usage.isUsed = false ∧
        ∃ tx amount output, s.transactionByIndex usage.transactionIndex = .ok tx ∧
          s.isTxSpendtimeUnlocked currency tx.unlockTime = .ok true ∧
          tx.outputs[usage.outputIndex.toNat]? = some ⟨amount, .multisignature output⟩ ∧
          output.requiredSignatureCount = input.signatureCount ∧
          ∃ k : Fin signatures.length → Fin output.keys.length, StrictMono k ∧
            ∀ i, p.checkSignature prefixHash output.keys[k i] signatures[i] = true := by
  -- The signature loop is the greedy walk, which succeeds exactly on an increasing match.
  have scan : ∀ keys : List PublicKey,
      matchSignatures p prefixHash signatures input.signatureCount.toNat 0 keys = .ok true ↔
        ∃ k : Fin signatures.length → Fin keys.length, StrictMono k ∧
          ∀ i, p.checkSignature prefixHash keys[k i] signatures[i] = true := by
    intro keys
    rw [counted, matchSignatures_eq_greedyMatch p prefixHash signatures keys 0 (Nat.zero_le _),
      List.drop_zero, Except.ok.injEq, List.greedyMatch_iff,
      List.sublistForall₂_iff_exists_strictMono]
  constructor
  · -- Each early return of the source is a `false` and each failed read a fault, so a `true`
    -- passed every check.
    intro valid
    cases found : (s.multisignatureOutputs input.amount)[input.outputIndex.toNat]? with
    | none => simp [validateInput, found, pure, Except.pure] at valid
    | some usage =>
      by_cases used : usage.isUsed = true
      · simp [validateInput, found, used, pure, Except.pure] at valid
      simp only [Bool.not_eq_true] at used
      cases txFound : s.transactionByIndex usage.transactionIndex with
      | error fault => simp [validateInput, found, used, txFound, bind, Except.bind] at valid
      | ok tx =>
        cases unlock : s.isTxSpendtimeUnlocked currency tx.unlockTime with
        | error fault =>
          simp [validateInput, found, used, txFound, unlock, bind, Except.bind] at valid
        | ok unlocked =>
          cases unlocked with
          | false =>
            simp [validateInput, found, used, txFound, unlock, bind, Except.bind, pure,
              Except.pure] at valid
          | true =>
            cases outputFound : tx.outputs[usage.outputIndex.toNat]? with
            | none =>
              simp [validateInput, found, used, txFound, unlock, outputFound, bind,
                Except.bind] at valid
            | some output =>
              obtain ⟨amount, target⟩ := output
              cases target with
              | key target =>
                simp [validateInput, found, used, txFound, unlock, outputFound, bind,
                  Except.bind] at valid
              | multisignature output =>
                by_cases required : input.signatureCount = output.requiredSignatureCount
                · simp only [validateInput, found, used, txFound, unlock, outputFound, bind,
                    Except.bind, required, ne_eq, not_true_eq_false, if_false] at valid
                  rw [← required] at valid
                  exact ⟨usage, rfl, used, tx, amount, output, txFound, unlock, outputFound,
                    required.symm, (scan output.keys).mp valid⟩
                · simp [validateInput, found, used, txFound, unlock, outputFound, required, bind,
                    Except.bind, pure, Except.pure] at valid
  · -- With every check passing, the loop decides, and the match makes it succeed.
    rintro ⟨usage, found, used, tx, amount, output, txFound, unlock, outputFound, required,
      matched⟩
    simp only [validateInput, found, used, txFound, unlock, outputFound, bind, Except.bind,
      required, ne_eq, not_true_eq_false, if_false, Bool.false_eq_true, Bool.not_true]
    exact (scan output.keys).mpr matched

/-- The key of thirty-two bytes `n`. -/
def keyOf (n : UInt8) : PublicKey := ⟨Vector.replicate 32 n⟩

/-- The signature of sixty-four bytes `n`. -/
def signatureBy (n : UInt8) : Signature := ⟨Vector.replicate 64 n⟩

/-- Primitives whose signature check accepts a signature exactly when it starts with its key's first
byte. -/
def firstBytePrimitives : Primitives :=
  { acceptingPrimitives with
    checkSignature := fun _ key signature => key.data[0] == signature.data[0] }

/-- A coinbase paying seven units to two signatures of three keys, unlocked at once. -/
def twoOfThreeCoinbase : Transaction :=
  { coinbaseFor 0 0 with
    unlockTime := 0, outputs := [⟨7, .multisignature ⟨[keyOf 1, keyOf 2, keyOf 3], 2⟩⟩] }

/-- A chain of one block whose coinbase pays the two-of-three output, indexed as unused. -/
def twoOfThreeChain : Blockchain :=
  { initial noCheckpoints with
    blocks := [⟨{ minedBlock (initial noCheckpoints) 0 [] with baseTransaction := twoOfThreeCoinbase },
      0, 0, 0, 0, [⟨twoOfThreeCoinbase, [0]⟩]⟩]
    multisignatureOutputs := fun amount => if amount = 7 then [⟨⟨0, 0⟩, 0, false⟩] else [] }

/-- Signatures for the first and the last of three keys spend the two-of-three output: the walk
tries the second signature against the middle key, which refuses it, and then against the last. -/
theorem validateInput_multisignature_iff_on_two_of_three :
    twoOfThreeChain.validateInput fixedDifficultyCurrency firstBytePrimitives ⟨7, 2, 0⟩ NULL_HASH
        [signatureBy 1, signatureBy 3] = .ok true ∧
      firstBytePrimitives.checkSignature NULL_HASH (keyOf 2) (signatureBy 3) = false ∧
      ∃ usage, (twoOfThreeChain.multisignatureOutputs 7)[0]? = some usage ∧ usage.isUsed = false ∧
        ∃ tx amount output, twoOfThreeChain.transactionByIndex usage.transactionIndex = .ok tx ∧
          twoOfThreeChain.isTxSpendtimeUnlocked fixedDifficultyCurrency tx.unlockTime = .ok true ∧
          tx.outputs[usage.outputIndex.toNat]? = some ⟨amount, .multisignature output⟩ ∧
          output.requiredSignatureCount = 2 ∧
          ∃ k : Fin 2 → Fin output.keys.length, StrictMono k ∧
            ∀ i, firstBytePrimitives.checkSignature NULL_HASH output.keys[k i]
              [signatureBy 1, signatureBy 3][i] = true := by
  have accepted : twoOfThreeChain.validateInput fixedDifficultyCurrency firstBytePrimitives
      ⟨7, 2, 0⟩ NULL_HASH [signatureBy 1, signatureBy 3] = .ok true := by
    decide
  exact ⟨accepted, by decide, (validateInput_multisignature_iff fixedDifficultyCurrency
    firstBytePrimitives twoOfThreeChain ⟨7, 2, 0⟩ NULL_HASH [signatureBy 1, signatureBy 3] rfl).mp
    accepted⟩

end Blockchain

end CryptoNote
