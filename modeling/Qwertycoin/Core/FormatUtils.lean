import Qwertycoin.Core.Types
import Qwertycoin.Lib.Words

/-! The helpers of `CryptoNoteFormatUtils.cpp` the block checks and the memory pool call: the
coinbase height, the overflow checks on amounts, the fee and the supported input types. The overflow
checks decide exactly whether the amounts' true sum fits in 64 bits, and when both sums fit the fee
is their exact difference. -/

namespace CryptoNote

/-- `get_block_height`: the index a block's coinbase input names, zero when the coinbase does not
have exactly one input or that input is not a coinbase input. -/
def getBlockHeight (b : Block) : UInt32 :=
  match b.baseTransaction.inputs with
  | [.base input] => input.blockIndex
  | _ => 0

/-- The amount an input spends; a coinbase input spends nothing. -/
def TransactionInput.amount : TransactionInput → UInt64
  | .key input => input.amount
  | .multisignature input => input.amount
  | .base _ => 0

/-- The loop of `check_inputs_overflow` and `check_outs_overflow`: `money` is the sum so far, and an
amount whose addition wraps stops the check. -/
def checkAmountsOverflow : (money : UInt64) → List UInt64 → Bool
  | _, [] => true
  | money, amount :: rest =>
    if money > amount + money then false else checkAmountsOverflow (money + amount) rest

/-- `check_inputs_overflow`: the input amounts sum without wrapping. -/
def checkInputsOverflow (tx : Transaction) : Bool :=
  checkAmountsOverflow 0 (tx.inputs.map TransactionInput.amount)

/-- `check_outs_overflow`: the output amounts sum without wrapping. -/
def checkOutsOverflow (tx : Transaction) : Bool :=
  checkAmountsOverflow 0 (tx.outputs.map TransactionOutput.amount)

/-- `check_money_overflow`. -/
def checkMoneyOverflow (tx : Transaction) : Bool :=
  checkInputsOverflow tx && checkOutsOverflow tx

/-- `get_tx_fee(tx, fee)`: the fee, or `none` where it returns false because the outputs exceed the
inputs. Its two loops add up the amounts in 64 bits as `getInputAmount` and `getOutputAmount` do. -/
def getTxFee (tx : Transaction) : Option UInt64 :=
  let amountIn := getInputAmount tx
  let amountOut := getOutputAmount tx
  if amountIn ≥ amountOut then some (amountIn - amountOut) else none

/-- `check_inputs_types_supported`: only ring and multisignature inputs. -/
def checkInputsTypesSupported (tx : Transaction) : Bool :=
  tx.inputs.all fun
    | .base _ => false
    | _ => true


/-! ### The overflow checks decide the true sums -/

/-- The check passes exactly when the running sum and all amounts after it fit in 64 bits. -/
theorem checkAmountsOverflow_iff (money : UInt64) (amounts : List UInt64) :
    checkAmountsOverflow money amounts = true ↔
      money.toNat + (amounts.map UInt64.toNat).sum < 2 ^ 64 := by
  induction amounts generalizing money with
  | nil => simpa [checkAmountsOverflow] using money.toNat_lt
  | cons amount rest ih =>
    rw [checkAmountsOverflow, List.map_cons, List.sum_cons]
    by_cases wraps : money > amount + money
    · -- The wrap test fires exactly when `money + amount` does not fit.
      rw [if_pos wraps]
      have beyond := (UInt64.add_lt_right_iff money amount).mp wraps
      simp only [Bool.false_eq_true, false_iff, not_lt]
      omega
    · rw [if_neg wraps, ih]
      have fits : money.toNat + amount.toNat < 2 ^ 64 :=
        Nat.lt_of_not_le fun beyond => wraps ((UInt64.add_lt_right_iff money amount).mpr beyond)
      rw [UInt64.toNat_add, Nat.mod_eq_of_lt fits, Nat.add_assoc]

/-- `getInputAmount` is the 64-bit sum of the amounts the inputs spend. -/
theorem getInputAmount_eq_foldl (tx : Transaction) :
    getInputAmount tx = (tx.inputs.map TransactionInput.amount).foldl (· + ·) 0 := by
  rw [getInputAmount, List.foldl_map]
  congr 1
  funext amount input
  cases input <;> simp [TransactionInput.amount]

theorem getOutputAmount_eq_foldl (tx : Transaction) :
    getOutputAmount tx = (tx.outputs.map TransactionOutput.amount).foldl (· + ·) 0 := by
  rw [getOutputAmount, List.foldl_map]

/-- A sum that fits is computed exactly. -/
theorem toNat_sum_of_fits {amounts : List UInt64} (fits : (amounts.map UInt64.toNat).sum < 2 ^ 64) :
    (amounts.foldl (· + ·) 0).toNat = (amounts.map UInt64.toNat).sum := by
  rw [UInt64.toNat_foldl_add, UInt64.toNat_zero, Nat.zero_add, Nat.mod_eq_of_lt fits]

/-- `check_inputs_overflow`, `check_outs_overflow` and `get_tx_fee` together: each check holds exactly
when the true sum of its amounts is below `2 ^ 64`, and when both hold `get_tx_fee` succeeds exactly
when the inputs cover the outputs, with the exact difference as the fee. -/
theorem check_money_overflow_exact (tx : Transaction) :
    (checkInputsOverflow tx = true ↔ (tx.inputs.map (·.amount.toNat)).sum < 2 ^ 64) ∧
      (checkOutsOverflow tx = true ↔ (tx.outputs.map (·.amount.toNat)).sum < 2 ^ 64) ∧
      (checkMoneyOverflow tx = true →
        (getTxFee tx).map UInt64.toNat =
          if (tx.outputs.map (·.amount.toNat)).sum ≤ (tx.inputs.map (·.amount.toNat)).sum then
            some ((tx.inputs.map (·.amount.toNat)).sum - (tx.outputs.map (·.amount.toNat)).sum)
          else none) := by
  have inputs : checkInputsOverflow tx = true ↔ (tx.inputs.map (·.amount.toNat)).sum < 2 ^ 64 := by
    rw [checkInputsOverflow, checkAmountsOverflow_iff, List.map_map, UInt64.toNat_zero,
      Nat.zero_add]
    rfl
  have outputs : checkOutsOverflow tx = true ↔ (tx.outputs.map (·.amount.toNat)).sum < 2 ^ 64 := by
    rw [checkOutsOverflow, checkAmountsOverflow_iff, List.map_map, UInt64.toNat_zero, Nat.zero_add]
    rfl
  refine ⟨inputs, outputs, fun both => ?_⟩
  rw [checkMoneyOverflow, Bool.and_eq_true, inputs, outputs] at both
  -- Both sums fit, so `get_tx_fee` compares and subtracts the true sums.
  have amountIn : (getInputAmount tx).toNat = (tx.inputs.map (·.amount.toNat)).sum := by
    rw [getInputAmount_eq_foldl, toNat_sum_of_fits] <;> rw [List.map_map]
    · rfl
    · exact both.1
  have amountOut : (getOutputAmount tx).toNat = (tx.outputs.map (·.amount.toNat)).sum := by
    rw [getOutputAmount_eq_foldl, toNat_sum_of_fits] <;> rw [List.map_map]
    · rfl
    · exact both.2
  unfold getTxFee
  dsimp only
  by_cases covered : getOutputAmount tx ≤ getInputAmount tx
  · rw [if_pos covered, Option.map_some, UInt64.toNat_sub_of_le _ _ covered, amountIn, amountOut,
      if_pos (by rw [UInt64.le_iff_toNat_le, amountIn, amountOut] at covered; exact covered)]
  · rw [if_neg covered, Option.map_none,
      if_neg (by rw [UInt64.le_iff_toNat_le, amountIn, amountOut] at covered; exact covered)]

/-- A transaction spending a multisignature output of 5 into an output of 3 passes both checks and
pays a fee of 2. -/
theorem check_money_overflow_exact_on_fee :
    let tx : Transaction :=
      ⟨⟨1, 0, [.multisignature ⟨5, 1, 0⟩], [⟨3, .multisignature ⟨[], 1⟩⟩], []⟩, []⟩
    checkMoneyOverflow tx = true ∧ (getTxFee tx).map UInt64.toNat = some 2 := by
  intro tx
  exact ⟨by decide, ((check_money_overflow_exact tx).2.2 (by decide)).trans (by decide)⟩

end CryptoNote
