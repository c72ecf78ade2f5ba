import Qwertycoin.Transfers.Visibility

/-!
What a call of the container leaves behind when it throws. `markTransactionConfirmed` has no
handler: it writes the transaction's new height and time into its record, and only then checks the
transaction's transfers, one by one, against `globalIndices` and against the multisignature outputs
already known. A check that throws leaves the record confirmed while the transfers not yet moved stay
unconfirmed (`markTransactionConfirmed_error_transactions`), from a container the wallet reaches
(`markTransactionConfirmed_throws_after_recording`).
-/

namespace CryptoNote

namespace TransfersContainer

open EStateM (Keeps)

section Records

variable (block : TransactionBlockInfo) (transactionHash : Hash) (globalIndices : List UInt32)
  (records : List TransactionInformation)

/-- A round of the confirming loop writes no transaction record. -/
theorem keeps_records_confirmTransfer :
    Keeps (·.transactions = records) (confirmTransfer block transactionHash globalIndices) := by
  unfold confirmTransfer
  dsimp only
  refine Keeps.get_bind fun s kept => ?_
  split
  · exact Keeps.pure _
  · -- The transfer moves; the records stay.
    refine Keeps.ite (Keeps.bind (Keeps.throw _) fun _ => ?_) ?_ <;>
      refine Keeps.ite (Keeps.ite (Keeps.bind (Keeps.throw _) fun _ => ?_) ?_) ?_ <;>
      exact Keeps.set (by rw [transactions_updateVisibilityOf]; exact kept)

theorem keeps_records_confirmTransfers :
    ∀ rounds, Keeps (·.transactions = records)
      (confirmTransfers block transactionHash globalIndices rounds)
  | 0 => Keeps.pure _
  | rounds + 1 =>
    Keeps.bind (keeps_records_confirmTransfer block transactionHash globalIndices records) fun _ =>
      keeps_records_confirmTransfers rounds

/-- When `markTransactionConfirmed` throws past its check of the block's height, the transaction's
record has the block's height and time already. -/
theorem markTransactionConfirmed_error_transactions {s s' : TransfersContainer} {e : Exception}
    (confirmed : block.height ≠ WALLET_LEGACY_UNCONFIRMED_TRANSACTION_HEIGHT)
    (threw : (markTransactionConfirmed block transactionHash globalIndices).run s = .error e s') :
    ∃ transaction, s.transactions.find? (·.transactionHash == transactionHash) = some transaction ∧
      s'.transactions = confirmedRecords block transaction s.transactions := by
  unfold markTransactionConfirmed at threw
  dsimp only at threw
  rw [if_neg confirmed] at threw
  rw [EStateM.run_bind, EStateM.run_get] at threw
  dsimp only at threw
  split at threw
  · cases threw
  · rename_i transaction found
    split at threw
    · cases threw
    · -- The record is written first; the loop and the spent records leave it as written.
      rw [EStateM.run_set_bind] at threw
      refine ⟨transaction, found, ?_⟩
      refine @Keeps.of_run_error Exception TransfersContainer Bool
        (·.transactions = confirmedRecords block transaction s.transactions) _ ?_ _ _ _ rfl threw
      exact Keeps.bind (keeps_records_confirmTransfers block transactionHash globalIndices _ _)
        fun _ => Keeps.bind (Keeps.modify fun _ kept => kept) fun _ => Keeps.pure true

end Records

variable (currency : Currency) (transactionSpendableAge safeTransactionSpendableAge : Nat)

/-- The block the pool transaction is confirmed in. -/
def confirmingBlock : TransactionBlockInfo := ⟨5, 0, 0⟩

/-- Confirming the pool transaction with no global indices throws, for its transfer has no index to
take; the record then says the transaction is confirmed, while its transfer stays unconfirmed. -/
theorem markTransactionConfirmed_throws_after_recording :
    ∃ s, Reachable currency transactionSpendableAge safeTransactionSpendableAge s ∧
      ∃ s', (markTransactionConfirmed confirmingBlock NULL_HASH []).run s =
          .error (.invalidArgument
            "Failed to confirm transaction: not enough elements in globalIndices") s' ∧
        s'.transactions ≠ s.transactions ∧ s'.unconfirmedTransfers = s.unconfirmedTransfers :=
  ⟨pending, pending_reachable currency transactionSpendableAge safeTransactionSpendableAge, _, rfl,
    by decide, by decide⟩

end TransfersContainer

end CryptoNote
