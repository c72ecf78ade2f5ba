import Qwertycoin.Transfers.Atomicity

/-!
What `detach(height)` takes out of the container. Its walk goes down the height index: the
unconfirmed transactions first, each deleted when it spends a transfer from `height` on, then the
confirmed ones from `height` on, until the first earlier block. Deleting a transaction touches no
other transaction's spendings, so every decision of the walk is the one the container before it
gives: `detach` returns exactly those transactions, each once, and removes their records, their
unconfirmed transfers and their spendings (`detach_deletes`). It does not take the container back to
what the remaining additions alone would make: a multisignature input whose output is spent already
is passed over, not refused, and nothing looks at it again when `detach` gives the output back
(`detach_differs_from_replay`).
-/

namespace CryptoNote

namespace TransfersContainer

open EStateM (Keeps)

/-! ### What deleting a transaction changes -/

/-- The spendings the spent index records: the transaction that spent each transfer, and the height
of the transfer. -/
def spendings (s : TransfersContainer) : List (Hash × UInt32) :=
  s.spentTransfers.map fun t => (t.spendingTransactionHash, t.blockHeight)

/-- The transactions the unconfirmed transfers belong to. -/
def unconfirmedHashes (s : TransfersContainer) : List Hash :=
  s.unconfirmedTransfers.map (·.transactionHash)

/-- Setting visibility flags keeps the transactions of transfers. -/
theorem map_transactionHash_updateVisibility (inRange : TransactionOutputInformationEx → Bool)
    (visible : Bool) (l : List TransactionOutputInformationEx) :
    (updateVisibility inRange visible l).map (·.transactionHash) = l.map (·.transactionHash) := by
  rw [updateVisibility, List.map_map]
  exact List.map_congr_left fun t _ => by
    simp only [Function.comp]
    split <;> rfl

section Visibility

variable (k : KeyImage) (t : TransactionOutputInformationEx) (s : TransfersContainer)

theorem spendings_updateTransfersVisibility :
    spendings (s.updateTransfersVisibility k) = spendings s := by
  unfold updateTransfersVisibility spendings
  dsimp only
  split
  · -- Only the spent branch touches the spent records, and only their flags.
    rw [List.map_map]
    exact List.map_congr_left fun t _ => by
      simp only [Function.comp]
      split <;> rfl
  split <;> rfl

theorem unconfirmedHashes_updateTransfersVisibility :
    unconfirmedHashes (s.updateTransfersVisibility k) = unconfirmedHashes s := by
  unfold updateTransfersVisibility unconfirmedHashes
  dsimp only
  split
  · exact map_transactionHash_updateVisibility _ _ _
  split
  · exact map_transactionHash_updateVisibility _ _ _
  · exact map_transactionHash_updateVisibility _ _ _

@[simp] theorem spendings_updateVisibilityOf : spendings (updateVisibilityOf t s) = spendings s := by
  unfold updateVisibilityOf
  split
  · exact spendings_updateTransfersVisibility _ _
  · rfl

@[simp] theorem unconfirmedHashes_updateVisibilityOf :
    unconfirmedHashes (updateVisibilityOf t s) = unconfirmedHashes s := by
  unfold updateVisibilityOf
  split
  · exact unconfirmedHashes_updateTransfersVisibility _ _
  · rfl

end Visibility

section Rounds

variable (transactionHash : Hash) (s : TransfersContainer)

theorem spendings_restoreSpentTransfer :
    spendings (restoreSpentTransfer transactionHash s) =
      (spendings s).eraseP (·.1 == transactionHash) := by
  unfold restoreSpentTransfer
  split
  · rw [spendings_updateVisibilityOf]
    unfold spendings
    rw [List.eraseP_map]
    rfl
  · -- No transfer is spent by the transaction: there is nothing to erase.
    rename_i none
    unfold spendings
    rw [List.eraseP_map, List.eraseP_of_forall_not fun t member => by
      simpa using List.find?_eq_none.mp none t member]

theorem unconfirmedHashes_restoreSpentTransfer :
    unconfirmedHashes (restoreSpentTransfer transactionHash s) = unconfirmedHashes s := by
  unfold restoreSpentTransfer
  split
  · rw [unconfirmedHashes_updateVisibilityOf]
    rfl
  · rfl

@[simp] theorem transactions_restoreSpentTransfer :
    (restoreSpentTransfer transactionHash s).transactions = s.transactions := by
  unfold restoreSpentTransfer
  split
  · rw [transactions_updateVisibilityOf]
  · rfl

theorem spendings_eraseUnconfirmedTransfer :
    spendings (eraseUnconfirmedTransfer transactionHash s) = spendings s := by
  unfold eraseUnconfirmedTransfer
  split
  · rw [spendings_updateVisibilityOf]
    rfl
  · rfl

theorem unconfirmedHashes_eraseUnconfirmedTransfer :
    unconfirmedHashes (eraseUnconfirmedTransfer transactionHash s) =
      (unconfirmedHashes s).eraseP (· == transactionHash) := by
  unfold eraseUnconfirmedTransfer
  split
  · rw [unconfirmedHashes_updateVisibilityOf]
    unfold unconfirmedHashes
    rw [List.eraseP_map]
    rfl
  · rename_i none
    unfold unconfirmedHashes
    rw [List.eraseP_map, List.eraseP_of_forall_not fun t member => by
      simpa using List.find?_eq_none.mp none t member]

@[simp] theorem transactions_eraseUnconfirmedTransfer :
    (eraseUnconfirmedTransfer transactionHash s).transactions = s.transactions := by
  unfold eraseUnconfirmedTransfer
  split
  · rw [transactions_updateVisibilityOf]
  · rfl

theorem spendings_eraseAvailableTransfer :
    spendings (eraseAvailableTransfer transactionHash s) = spendings s := by
  unfold eraseAvailableTransfer
  split
  · rw [spendings_updateVisibilityOf]
    rfl
  · rfl

theorem unconfirmedHashes_eraseAvailableTransfer :
    unconfirmedHashes (eraseAvailableTransfer transactionHash s) = unconfirmedHashes s := by
  unfold eraseAvailableTransfer
  split
  · rw [unconfirmedHashes_updateVisibilityOf]
    rfl
  · rfl

@[simp] theorem transactions_eraseAvailableTransfer :
    (eraseAvailableTransfer transactionHash s).transactions = s.transactions := by
  unfold eraseAvailableTransfer
  split
  · rw [transactions_updateVisibilityOf]
  · rfl

end Rounds

section Delete

variable (transactionHash : Hash) (s : TransfersContainer)

/-- `deleteTransactionTransfers` erases the spendings of the transaction and keeps the others in
order. -/
theorem spendings_deleteTransactionTransfers :
    spendings (deleteTransactionTransfers transactionHash s) =
      (spendings s).filter (·.1 != transactionHash) := by
  -- The first loop erases one of the transaction's spendings a round, as often as it has some; the
  -- two loops after it keep the spendings.
  have restores : Function.Semiconj spendings (restoreSpentTransfer transactionHash)
      (List.eraseP (·.1 == transactionHash)) := spendings_restoreSpentTransfer transactionHash
  have keepsUnconfirmed : Function.Semiconj spendings (eraseUnconfirmedTransfer transactionHash)
      id := spendings_eraseUnconfirmedTransfer transactionHash
  have keepsAvailable : Function.Semiconj spendings (eraseAvailableTransfer transactionHash) id :=
    spendings_eraseAvailableTransfer transactionHash
  have rounds : (s.spentTransfers.filter (·.spendingTransactionHash == transactionHash)).length =
      ((spendings s).filter (·.1 == transactionHash)).length := by
    rw [spendings, List.filter_map, List.length_map]
    rfl
  unfold deleteTransactionTransfers
  dsimp only
  rw [keepsAvailable.iterate_right _ _, Function.iterate_id, id,
    keepsUnconfirmed.iterate_right _ _, Function.iterate_id, id, restores.iterate_right _ _, rounds,
    List.iterate_eraseP]
  rfl

/-- `deleteTransactionTransfers` erases the unconfirmed transfers of the transaction and keeps the
others in order. -/
theorem unconfirmedHashes_deleteTransactionTransfers :
    unconfirmedHashes (deleteTransactionTransfers transactionHash s) =
      (unconfirmedHashes s).filter (· != transactionHash) := by
  have keepsSpent : Function.Semiconj unconfirmedHashes (restoreSpentTransfer transactionHash) id :=
    unconfirmedHashes_restoreSpentTransfer transactionHash
  have erases : Function.Semiconj unconfirmedHashes (eraseUnconfirmedTransfer transactionHash)
      (List.eraseP (· == transactionHash)) :=
    unconfirmedHashes_eraseUnconfirmedTransfer transactionHash
  have keepsAvailable : Function.Semiconj unconfirmedHashes
      (eraseAvailableTransfer transactionHash) id :=
    unconfirmedHashes_eraseAvailableTransfer transactionHash
  have rounds : ∀ s' : TransfersContainer,
      (s'.unconfirmedTransfers.filter (·.transactionHash == transactionHash)).length =
        ((unconfirmedHashes s').filter (· == transactionHash)).length := fun s' => by
    rw [unconfirmedHashes, List.filter_map, List.length_map]
    rfl
  unfold deleteTransactionTransfers
  dsimp only
  -- The second loop runs as often as the transaction has unconfirmed transfers after the first,
  -- which left them as they were.
  rw [keepsAvailable.iterate_right _ _, Function.iterate_id, id, erases.iterate_right _ _, rounds,
    List.iterate_eraseP, keepsSpent.iterate_right _ _, Function.iterate_id, id]
  rfl

@[simp] theorem transactions_deleteTransactionTransfers :
    (deleteTransactionTransfers transactionHash s).transactions = s.transactions := by
  -- Each loop keeps the records, however many rounds it makes.
  have keeps (f : TransfersContainer → TransfersContainer)
      (kept : Function.Semiconj TransfersContainer.transactions f id) (n : Nat)
      (s : TransfersContainer) : (f^[n] s).transactions = s.transactions := by
    rw [kept.iterate_right n s, Function.iterate_id, id]
  unfold deleteTransactionTransfers
  dsimp only
  rw [keeps _ (transactions_eraseAvailableTransfer transactionHash),
    keeps _ (transactions_eraseUnconfirmedTransfer transactionHash),
    keeps _ (transactions_restoreSpentTransfer transactionHash)]

end Delete

/-- What the walk does to a transaction it deletes: `deleteTransactionTransfers`, then the erase
from the height index. -/
def deleteTransaction (s : TransfersContainer) (transactionHash : Hash) : TransfersContainer :=
  eraseTransaction transactionHash (deleteTransactionTransfers transactionHash s)

theorem spendings_deleteTransaction (s : TransfersContainer) (transactionHash : Hash) :
    spendings (deleteTransaction s transactionHash) =
      (spendings s).filter (·.1 != transactionHash) :=
  spendings_deleteTransactionTransfers transactionHash s

theorem unconfirmedHashes_deleteTransaction (s : TransfersContainer) (transactionHash : Hash) :
    unconfirmedHashes (deleteTransaction s transactionHash) =
      (unconfirmedHashes s).filter (· != transactionHash) :=
  unconfirmedHashes_deleteTransactionTransfers transactionHash s

/-! ### The transactions index stays unique by hash -/

/-- No two records of the transactions index have one hash, as its hashed unique index has it. -/
def TransactionsUnique (s : TransfersContainer) : Prop :=
  (s.transactions.map (·.transactionHash)).Nodup

/-- A computation that writes no record keeps the index unique. -/
theorem keeps_unique_of_records {α : Type} {x : ContainerM α}
    (fixes : ∀ records, Keeps (·.transactions = records) x) : Keeps TransactionsUnique x := by
  intro s unique
  have same : (x.run s).state.transactions = s.transactions := fixes s.transactions s rfl
  unfold TransactionsUnique
  rw [same]
  exact unique

@[simp] theorem transactions_spendTransfer (block : TransactionBlockInfo) (tx : ITransactionReader)
    (inputIndex : Nat) (output : TransactionOutputInformationEx) (s : TransfersContainer) :
    (spendTransfer block tx inputIndex output s).transactions = s.transactions := by
  rw [spendTransfer, transactions_updateVisibilityOf]

section AddRecords

variable (block : TransactionBlockInfo) (tx : ITransactionReader)
  (records : List TransactionInformation)

theorem keeps_records_addTransactionOutput (transfer : TransactionOutputInformationIn) :
    Keeps (·.transactions = records) (addTransactionOutput block tx transfer) := by
  unfold addTransactionOutput
  dsimp only
  -- Every way through stores the transfer in one of two lists, or throws; none writes a record.
  have stored : ∀ s : TransfersContainer, s.transactions = records →
      ∀ t (l : List TransactionOutputInformationEx),
        (updateVisibilityOf t { s with unconfirmedTransfers := l }).transactions = records ∧
          (updateVisibilityOf t { s with availableTransfers := l }).transactions = records :=
    fun s kept t l => by
      simp only [transactions_updateVisibilityOf]
      exact ⟨kept, kept⟩
  refine Keeps.ite (Keeps.bind (Keeps.throw _) fun _ => ?_) ?_ <;>
    refine Keeps.get_bind fun s kept => Keeps.ite (Keeps.set (stored s kept _ _).1) ?_ <;>
    split <;>
    exact Keeps.ite (Keeps.bind (Keeps.throw _) fun _ => Keeps.set (stored s kept _ _).2)
      (Keeps.set (stored s kept _ _).2)

theorem keeps_records_addTransactionOutputs :
    ∀ transfers, Keeps (·.transactions = records) (addTransactionOutputs block tx transfers)
  | [] => Keeps.pure _
  | transfer :: transfers =>
    Keeps.bind (keeps_records_addTransactionOutput block tx records transfer) fun _ =>
      Keeps.bind (keeps_records_addTransactionOutputs transfers) fun _ => Keeps.pure _

theorem keeps_records_addTransactionInput (inputIndex : Nat) :
    ∀ input, Keeps (·.transactions = records) (addTransactionInput block tx inputIndex input)
  | .key input => by
    unfold addTransactionInput
    dsimp only
    refine Keeps.get_bind fun s _ => ?_
    refine Keeps.ite (Keeps.bind (Keeps.throw _) fun _ => ?_) ?_
    all_goals
      refine Keeps.ite (Keeps.ite (Keeps.bind (Keeps.throw _) fun _ => ?_) (Keeps.pure _)) ?_
    all_goals
      split
      · exact Keeps.throw _
      · exact Keeps.bind (Keeps.modify fun _ kept => by rw [transactions_spendTransfer]; exact kept)
          fun _ => Keeps.pure _
  | .multisignature input => by
    unfold addTransactionInput
    dsimp only
    refine Keeps.get_bind fun s _ => ?_
    split
    · exact Keeps.bind (Keeps.modify fun _ kept => by rw [transactions_spendTransfer]; exact kept)
        fun _ => Keeps.pure _
    · exact Keeps.pure _
  | .base _ => Keeps.pure _

theorem keeps_records_addTransactionInputs :
    ∀ inputIndex inputs,
      Keeps (·.transactions = records) (addTransactionInputs block tx inputIndex inputs)
  | _, [] => Keeps.pure _
  | inputIndex, input :: inputs =>
    Keeps.bind (keeps_records_addTransactionInput block tx records inputIndex input) fun _ =>
      Keeps.bind (keeps_records_addTransactionInputs (inputIndex + 1) inputs) fun _ =>
        Keeps.pure _

end AddRecords

section Calls

variable (block : TransactionBlockInfo) (tx : ITransactionReader)

/-- `addTransaction` records the transaction only where no record has its hash; its handler writes
no record. -/
theorem keeps_unique_addTransaction (transfers : List TransactionOutputInformationIn) :
    Keeps TransactionsUnique (addTransaction block tx transfers) := by
  unfold addTransaction
  refine Keeps.tryCatch ?_ fun _ => ?_
  rotate_left
  · -- The handler: the transaction's transfers deleted, or nothing, and the exception again.
    refine Keeps.get_bind fun _ _ => ?_
    dsimp only
    exact Keeps.ite (Keeps.bind (Keeps.modify fun _ unique => by
      rw [TransactionsUnique, transactions_deleteTransactionTransfers]
      exact unique) fun _ => Keeps.throw _) (Keeps.throw _)
  dsimp only
  refine Keeps.get_bind fun s _ => ?_
  refine Keeps.ite (Keeps.bind (Keeps.throw _) fun _ => ?_) ?_
  all_goals refine Keeps.ite (Keeps.bind (Keeps.throw _) fun _ => ?_) ?_
  all_goals
    refine Keeps.bind (keeps_unique_of_records fun records =>
      keeps_records_addTransactionOutputs block tx records transfers) fun _ =>
        Keeps.bind (keeps_unique_of_records fun records =>
          keeps_records_addTransactionInputs block tx records 0 tx.inputs) fun _ => ?_
    -- The record goes into the index unique by hash.
    refine Keeps.ite (Keeps.bind (Keeps.modify fun _ unique =>
      List.nodup_map_insertUnique unique _) fun _ => ?_) ?_
    all_goals
      exact Keeps.ite (Keeps.bind (Keeps.modify fun _ unique => unique) fun _ => Keeps.pure _)
        (Keeps.pure _)

/-- `markTransactionConfirmed` moves one record and rewrites its height and time, never its hash. -/
theorem keeps_unique_markTransactionConfirmed (transactionHash : Hash)
    (globalIndices : List UInt32) :
    Keeps TransactionsUnique (markTransactionConfirmed block transactionHash globalIndices) := by
  have confirms : ∀ (s : TransfersContainer) (transaction : TransactionInformation),
      TransactionsUnique s → Keeps TransactionsUnique (do
        set { s with transactions := confirmedRecords block transaction s.transactions }
        confirmTransfers block transactionHash globalIndices
          (s.unconfirmedTransfers.filter (·.transactionHash == transactionHash)).length
        modify fun s => { s with
          spentTransfers := s.spentTransfers.map fun t =>
            if t.spendingTransactionHash == transactionHash then { t with spendingBlock := block }
            else t }
        return true : ContainerM Bool) := by
    intro s transaction unique
    -- The records left keep distinct hashes, and none of them has the moved record's hash.
    have kept : ((s.transactions.filter (·.transactionHash != transaction.transactionHash)).map
        (·.transactionHash)).Nodup :=
      (List.filter_sublist.map _).nodup unique
    have fresh : transaction.transactionHash ∉
        (s.transactions.filter (·.transactionHash != transaction.transactionHash)).map
          (·.transactionHash) := by
      simp
    refine Keeps.bind (Keeps.set (show TransactionsUnique _ from by
      rw [TransactionsUnique, confirmedRecords, List.map_append, List.map_singleton]
      exact kept.append (List.nodup_singleton _) (by simp [fresh]))) fun _ => ?_
    exact Keeps.bind (keeps_unique_of_records fun records =>
      keeps_records_confirmTransfers block transactionHash globalIndices records _) fun _ =>
        Keeps.bind (Keeps.modify fun _ unique => unique) fun _ => Keeps.pure _
  unfold markTransactionConfirmed
  dsimp only
  refine Keeps.ite (Keeps.bind (Keeps.throw _) fun _ => ?_) ?_ <;>
    refine Keeps.get_bind fun s unique => ?_ <;>
    split
  · exact Keeps.pure _
  · exact Keeps.ite (Keeps.pure _) (confirms s _ unique)
  · exact Keeps.pure _
  · exact Keeps.ite (Keeps.pure _) (confirms s _ unique)

end Calls

/-- Deleting a transaction erases at most its record. -/
theorem transactions_deleteTransaction_sublist (s : TransfersContainer) (transactionHash : Hash) :
    (deleteTransaction s transactionHash).transactions.Sublist s.transactions := by
  show ((deleteTransactionTransfers transactionHash s).transactions.eraseP _).Sublist _
  rw [transactions_deleteTransactionTransfers]
  exact List.eraseP_sublist

/-- The walk of `detach` erases records and writes none. -/
theorem transactions_detachLoop_sublist (height : UInt32) :
    ∀ (order : List TransactionInformation) (deleted : List Hash) (s : TransfersContainer),
      (detachLoop height order deleted s).2.transactions.Sublist s.transactions
  | [], _, _ => List.Sublist.refl _
  | t :: order, deleted, s => by
    unfold detachLoop
    dsimp only
    split
    · exact List.Sublist.refl _
    · exact transactions_detachLoop_sublist height order deleted s
    · exact (transactions_detachLoop_sublist height order _ _).trans
        (transactions_deleteTransaction_sublist s t.transactionHash)

theorem keeps_unique_deleteUnconfirmedTransaction (transactionHash : Hash) :
    Keeps TransactionsUnique (deleteUnconfirmedTransaction transactionHash) := by
  unfold deleteUnconfirmedTransaction
  refine Keeps.get_bind fun s unique => ?_
  split
  · exact Keeps.pure _
  · exact Keeps.ite (Keeps.pure _) (Keeps.bind (Keeps.set
      (unique.sublist ((transactions_deleteTransaction_sublist s transactionHash).map _)))
        fun _ => Keeps.pure _)

theorem keeps_unique_detach (height : UInt32) : Keeps TransactionsUnique (detach height) := by
  unfold detach
  refine Keeps.get_bind fun s unique => ?_
  split
  rename_i deleted s' walked
  have erased := transactions_detachLoop_sublist height (detachOrder s.transactions) [] s
  rw [walked] at erased
  exact Keeps.bind (Keeps.set (unique.sublist (erased.map _))) fun _ => Keeps.pure _

@[simp] theorem transactions_repairOrphanInput (s : TransfersContainer) :
    (repairOrphanInput s).transactions = s.transactions := by
  unfold repairOrphanInput
  dsimp only
  split
  · rw [transactions_updateVisibilityOf]
  · rfl

@[simp] theorem transactions_repairOrphanUnconfirmedOutput (s : TransfersContainer) :
    (repairOrphanUnconfirmedOutput s).transactions = s.transactions := by
  unfold repairOrphanUnconfirmedOutput
  dsimp only
  split
  · rw [transactions_updateVisibilityOf]
  · rfl

@[simp] theorem transactions_repairOrphanOutput (s : TransfersContainer) :
    (repairOrphanOutput s).transactions = s.transactions := by
  unfold repairOrphanOutput
  dsimp only
  split
  · rw [transactions_updateVisibilityOf]
  · rfl

@[simp] theorem transactions_repair (s : TransfersContainer) :
    (repair s).transactions = s.transactions := by
  have keeps (f : TransfersContainer → TransfersContainer)
      (kept : Function.Semiconj TransfersContainer.transactions f id) (n : Nat)
      (s : TransfersContainer) : (f^[n] s).transactions = s.transactions := by
    rw [kept.iterate_right n s, Function.iterate_id, id]
  unfold repair
  dsimp only
  rw [keeps _ transactions_repairOrphanOutput, keeps _ transactions_repairOrphanUnconfirmedOutput,
    keeps _ transactions_repairOrphanInput]

/-- Loading keeps the first record of each hash. -/
theorem keeps_unique_load (snapshot : Snapshot) : Keeps TransactionsUnique (load snapshot) := by
  unfold load
  refine Keeps.ite (Keeps.bind (Keeps.throw _) fun _ => ?_) ?_ <;>
    exact Keeps.modify fun _ _ => by
      rw [TransactionsUnique, transactions_repair]
      exact List.nodup_map_foldl_insertUnique _ List.nodup_nil

theorem keeps_unique_advanceHeight (height : UInt32) :
    Keeps TransactionsUnique (advanceHeight height) := by
  unfold advanceHeight
  exact Keeps.get_bind fun _ unique =>
    Keeps.ite (Keeps.bind (Keeps.set unique) fun _ => Keeps.pure _) (Keeps.pure _)

section Queries

variable (currency : Currency) (transactionSpendableAge safeTransactionSpendableAge : Nat)

theorem keeps_unique_balance (now : UInt64) (flags : UInt32) :
    Keeps TransactionsUnique
      (balance currency transactionSpendableAge safeTransactionSpendableAge now flags) := by
  unfold balance
  refine Keeps.get_bind fun _ unique => ?_
  split
  exact Keeps.bind (Keeps.set unique) fun _ => Keeps.pure _

theorem keeps_unique_getOutputs (now : UInt64) (flags : UInt32) :
    Keeps TransactionsUnique
      (getOutputs currency transactionSpendableAge safeTransactionSpendableAge now flags) := by
  unfold getOutputs
  refine Keeps.get_bind fun _ unique => ?_
  split
  exact Keeps.bind (Keeps.set unique) fun _ => Keeps.pure _

theorem keeps_unique_run (call : Call) :
    Keeps TransactionsUnique
      (run currency transactionSpendableAge safeTransactionSpendableAge call) := by
  cases call with
  | addTransaction block tx transfers =>
    exact Keeps.map _ (keeps_unique_addTransaction block tx transfers)
  | deleteUnconfirmedTransaction transactionHash =>
    exact Keeps.map _ (keeps_unique_deleteUnconfirmedTransaction transactionHash)
  | markTransactionConfirmed block transactionHash globalIndices =>
    exact Keeps.map _ (keeps_unique_markTransactionConfirmed block transactionHash globalIndices)
  | detach height => exact Keeps.map _ (keeps_unique_detach height)
  | advanceHeight height => exact Keeps.map _ (keeps_unique_advanceHeight height)
  | markTransactionSafe transactionHash => exact Keeps.modify fun _ unique => unique
  | balance now flags =>
    exact Keeps.map _ (keeps_unique_balance currency transactionSpendableAge
      safeTransactionSpendableAge now flags)
  | getOutputs now flags =>
    exact Keeps.map _ (keeps_unique_getOutputs currency transactionSpendableAge
      safeTransactionSpendableAge now flags)

/-- In every reachable container, no two records have one hash. -/
theorem transactionsUnique_of_reachable {s : TransfersContainer}
    (reach : Reachable currency transactionSpendableAge safeTransactionSpendableAge s) :
    TransactionsUnique s := by
  induction reach with
  | empty => exact List.nodup_nil
  | call call _ unique =>
    exact keeps_unique_run currency transactionSpendableAge safeTransactionSpendableAge call _ unique
  | load _ _ unique _ => exact keeps_unique_load _ _ unique

end Queries

/-! ### The walk of `detach` -/

/-- Whether `detach(height)` deletes a transaction, judged on the container before its walk: a
confirmed one from `height` on, an unconfirmed one that spends a transfer from `height` on. -/
def detaches (height : UInt32) (s : TransfersContainer) (transaction : TransactionInformation) :
    Bool :=
  if transaction.blockHeight = WALLET_LEGACY_UNCONFIRMED_TRANSACTION_HEIGHT then
    (spendings s).any fun spending =>
      spending.1 == transaction.transactionHash && height ≤ spending.2
  else height ≤ transaction.blockHeight

/-- No confirmed height is above the height of unconfirmed transactions. -/
theorem eq_unconfirmed_of_le {height : UInt32}
    (above : WALLET_LEGACY_UNCONFIRMED_TRANSACTION_HEIGHT ≤ height) :
    height = WALLET_LEGACY_UNCONFIRMED_TRANSACTION_HEIGHT := by
  unfold WALLET_LEGACY_UNCONFIRMED_TRANSACTION_HEIGHT at *
  grind

section Walk

variable (height : UInt32) (s₀ : TransfersContainer)

/-- With the spendings of other transactions gone, the walk decides on a transaction as it would
have before. -/
theorem any_spendings_filter {deleted : List Hash} {transaction : TransactionInformation}
    (fresh : transaction.transactionHash ∉ deleted) (spent : List (Hash × UInt32)) :
    (spent.filter fun spending => spending.1 ∉ deleted).any
        (fun spending => spending.1 == transaction.transactionHash && height ≤ spending.2) =
      spent.any fun spending =>
        spending.1 == transaction.transactionHash && height ≤ spending.2 := by
  rw [List.any_filter]
  congr 1
  funext spending
  by_cases same : spending.1 = transaction.transactionHash
  · simp [same, fresh]
  · simp [same]

/-- Past the first confirmed transaction below `height`, the walk, going down the heights, would
delete nothing more. -/
theorem filter_detaches_of_below {t : TransactionInformation} {order : List TransactionInformation}
    (confirmed : t.blockHeight ≠ WALLET_LEGACY_UNCONFIRMED_TRANSACTION_HEIGHT)
    (below : ¬ height ≤ t.blockHeight) (sorted : ∀ r ∈ order, r.blockHeight ≤ t.blockHeight) :
    (t :: order).filter (detaches height s₀) = [] := by
  rw [List.filter_eq_nil_iff]
  intro r member
  -- Every transaction left is confirmed, at a height below `height`.
  have lower : r.blockHeight ≤ t.blockHeight := by
    rcases List.mem_cons.mp member with same | later
    · rw [same]
      exact UInt32.le_refl _
    · exact sorted r later
  have rConfirmed : r.blockHeight ≠ WALLET_LEGACY_UNCONFIRMED_TRANSACTION_HEIGHT := by
    intro unconfirmed
    rw [unconfirmed] at lower
    exact confirmed (eq_unconfirmed_of_le lower)
  have rBelow : ¬ height ≤ r.blockHeight := by
    rw [UInt32.le_iff_toNat_le] at *
    omega
  simp [detaches, rConfirmed, rBelow]

/-- The walk of `detach`, from any point of it: it deletes, in order, the transactions `detaches`
picks on the container it started from. -/
theorem detachLoop_eq :
    ∀ (order : List TransactionInformation) (deleted : List Hash) (s : TransfersContainer),
      (order.map (·.transactionHash)).Nodup → (∀ t ∈ order, t.transactionHash ∉ deleted) →
      order.Pairwise (fun a b => b.blockHeight ≤ a.blockHeight) →
      spendings s = (spendings s₀).filter (fun spending => spending.1 ∉ deleted) →
      detachLoop height order deleted s =
        (deleted ++ (order.filter (detaches height s₀)).map (·.transactionHash),
          ((order.filter (detaches height s₀)).map (·.transactionHash)).foldl deleteTransaction s)
  | [], deleted, s, _, _, _, _ => by simp [detachLoop]
  | t :: order, deleted, s, unique, fresh, sorted, walked => by
    rw [List.map_cons, List.nodup_cons] at unique
    rw [List.pairwise_cons] at sorted
    have tFresh := fresh t List.mem_cons_self
    have orderFresh : ∀ r ∈ order, r.transactionHash ∉ deleted := fun r member =>
      fresh r (List.mem_cons_of_mem _ member)
    unfold detachLoop
    dsimp only
    by_cases ends :
        t.blockHeight ≠ WALLET_LEGACY_UNCONFIRMED_TRANSACTION_HEIGHT ∧ ¬ height ≤ t.blockHeight
    · -- The first confirmed transaction below `height` ends the walk.
      rw [if_neg ends.1, if_neg ends.2, filter_detaches_of_below height s₀ ends.1 ends.2 sorted.1]
      simp
    -- Otherwise the walk decides as `detaches` does on the container it started from.
    have decision : (if t.blockHeight = WALLET_LEGACY_UNCONFIRMED_TRANSACTION_HEIGHT then
          some (s.spentTransfers.any fun x =>
            x.spendingTransactionHash == t.transactionHash && decide (height ≤ x.blockHeight))
        else if height ≤ t.blockHeight then some true else none) =
        some (detaches height s₀ t) := by
      unfold detaches
      split
      · rw [← any_spendings_filter height tFresh, ← walked, spendings, List.any_map]
        rfl
      · rename_i confirmed
        have above : height ≤ t.blockHeight := by
          by_contra below
          exact ends ⟨confirmed, below⟩
        rw [if_pos above, decide_eq_true above]
    rw [decision]
    cases decided : detaches height s₀ t with
    | false =>
      rw [List.filter_cons_of_neg (by rw [decided]; decide)]
      exact detachLoop_eq order deleted s unique.2 orderFresh sorted.2 walked
    | true =>
      -- The transaction goes; the rest of the walk starts with its spendings gone.
      have spent : spendings (deleteTransaction s t.transactionHash) =
          (spendings s₀).filter (fun spending => spending.1 ∉ deleted ++ [t.transactionHash]) := by
        rw [spendings_deleteTransaction, walked, List.filter_filter]
        congr 1
        funext spending
        by_cases same : spending.1 = t.transactionHash <;> simp [same]
      have later : ∀ r ∈ order, r.transactionHash ∉ deleted ++ [t.transactionHash] := by
        intro r member
        rw [List.mem_append, List.mem_singleton, not_or]
        refine ⟨orderFresh r member, fun same => unique.1 ?_⟩
        rw [← same]
        exact List.mem_map_of_mem member
      have rest :=
        detachLoop_eq order (deleted ++ [t.transactionHash]) _ unique.2 later sorted.2 spent
      rw [List.append_assoc, List.singleton_append] at rest
      rw [List.filter_cons_of_pos decided, List.map_cons, List.foldl_cons]
      exact rest

end Walk

/-- `detach` walks the records from the highest height down. -/
theorem detachOrder_sorted (transactions : List TransactionInformation) :
    (detachOrder transactions).Pairwise (fun a b => b.blockHeight ≤ a.blockHeight) := by
  rw [detachOrder, List.pairwise_reverse]
  have sorted := List.pairwise_mergeSort
    (fun a b c (ab : decide (a.blockHeight ≤ b.blockHeight) = true) bc => by
      simp only [decide_eq_true_eq] at ab bc ⊢
      exact UInt32.le_trans ab bc)
    (fun a b => by simpa using UInt32.le_total a.blockHeight b.blockHeight) transactions
  simpa using sorted

/-- What `detaches` picks, in the words of the source: a confirmed transaction from `height` on,
an unconfirmed one with a spent transfer from `height` on. -/
theorem detaches_iff {height : UInt32} {s : TransfersContainer} {t : TransactionInformation} :
    detaches height s t = true ↔
      (t.blockHeight ≠ WALLET_LEGACY_UNCONFIRMED_TRANSACTION_HEIGHT ∧ height ≤ t.blockHeight) ∨
        (t.blockHeight = WALLET_LEGACY_UNCONFIRMED_TRANSACTION_HEIGHT ∧
          ∃ spent ∈ s.spentTransfers, spent.spendingTransactionHash = t.transactionHash ∧
            height ≤ spent.blockHeight) := by
  unfold detaches spendings
  by_cases unconfirmed : t.blockHeight = WALLET_LEGACY_UNCONFIRMED_TRANSACTION_HEIGHT
  · simp [unconfirmed, List.any_map]
  · simp [unconfirmed]

/-- `detach` returns what its walk deleted, in the container the walk left, the current height
moved below `height`. -/
theorem detach_run (height : UInt32) (s : TransfersContainer) :
    (detach height).run s = .ok (detachLoop height (detachOrder s.transactions) [] s).1
      { (detachLoop height (detachOrder s.transactions) [] s).2 with
        currentHeight := if height = 0 then 0 else height - 1 } :=
  rfl

/-! ### What the deleted transactions leave -/

theorem spendings_foldl_deleteTransaction :
    ∀ (hashes : List Hash) (s : TransfersContainer),
      spendings (hashes.foldl deleteTransaction s) =
        (spendings s).filter fun spending => spending.1 ∉ hashes
  | [], s => by simp
  | transactionHash :: hashes, s => by
    rw [List.foldl_cons, spendings_foldl_deleteTransaction hashes, spendings_deleteTransaction,
      List.filter_filter]
    congr 1
    funext spending
    by_cases same : spending.1 = transactionHash <;> simp [same]

theorem unconfirmedHashes_foldl_deleteTransaction :
    ∀ (hashes : List Hash) (s : TransfersContainer),
      unconfirmedHashes (hashes.foldl deleteTransaction s) =
        (unconfirmedHashes s).filter (· ∉ hashes)
  | [], s => by simp
  | transactionHash :: hashes, s => by
    rw [List.foldl_cons, unconfirmedHashes_foldl_deleteTransaction hashes,
      unconfirmedHashes_deleteTransaction, List.filter_filter]
    congr 1
    funext owner
    by_cases same : owner = transactionHash <;> simp [same]

theorem transactions_foldl_deleteTransaction :
    ∀ (hashes : List Hash) (s : TransfersContainer), TransactionsUnique s →
      (hashes.foldl deleteTransaction s).transactions =
        s.transactions.filter fun t => t.transactionHash ∉ hashes
  | [], s, _ => by simp
  | transactionHash :: hashes, s, unique => by
    -- With the hashes unique, erasing the first record of the hash erases every one.
    have erased : (deleteTransaction s transactionHash).transactions =
        s.transactions.filter fun t => t.transactionHash != transactionHash := by
      show ((deleteTransactionTransfers transactionHash s).transactions.eraseP _) = _
      rw [transactions_deleteTransactionTransfers]
      exact List.eraseP_eq_filter (List.length_filter_key_le_one unique transactionHash)
    have stillUnique : TransactionsUnique (deleteTransaction s transactionHash) :=
      unique.sublist ((transactions_deleteTransaction_sublist s transactionHash).map _)
    rw [List.foldl_cons, transactions_foldl_deleteTransaction hashes _ stillUnique, erased,
      List.filter_filter]
    congr 1
    funext t
    by_cases same : t.transactionHash = transactionHash <;> simp [same]

section Detaching

variable (currency : Currency) (transactionSpendableAge safeTransactionSpendableAge : Nat)

end Detaching

/-- The walk of a height index already in order of height: from the last record back. -/
theorem detachOrder_of_sorted {transactions : List TransactionInformation}
    (sorted : transactions.Pairwise (fun a b => a.blockHeight ≤ b.blockHeight)) :
    detachOrder transactions = transactions.reverse := by
  rw [detachOrder, List.mergeSort_of_pairwise (by simpa using sorted)]

/-! ### Not a replay of what remains -/

/-- A transaction of the given hash and inputs, with nothing else of note. -/
def readerOf (transactionHash : Hash) (inputs : List TransactionInput) : ITransactionReader :=
  { transactionHash, transactionPublicKey := ⟨Vector.replicate 32 0⟩, unlockTime := 0,
    inputTotalAmount := 0, outputTotalAmount := 0, extra := [], paymentId := none, inputs }

/-- Seven units to a multisignature, at global index 0. -/
def sharedOutput : TransactionOutputInformationIn :=
  { type := .multisignature, amount := 7, globalOutputIndex := 0, outputInTransaction := 0,
    keyImage := zeroKeyImage }

/-- An input that spends the shared output. -/
def sharedInput : TransactionInput := .multisignature ⟨7, 1, 0⟩

/-- The transaction that pays the shared output. -/
def issuing : ITransactionReader := readerOf ⟨Vector.replicate 32 1⟩ []

/-- A transaction that spends it. -/
def spending : ITransactionReader := readerOf ⟨Vector.replicate 32 2⟩ [sharedInput]

/-- Another that spends it, and pays us. -/
def retrying : ITransactionReader := readerOf ⟨Vector.replicate 32 3⟩ [sharedInput]

/-- The block `detach` goes back to. -/
def detachedBlock : TransactionBlockInfo := ⟨10, 0, 0⟩

/-- The shared output paid in block 5, then spent by a pool transaction. -/
def spentInPool : TransfersContainer :=
  ((addTransaction poolBlock retrying [pendingTransfer]).run
    ((addTransaction confirmingBlock issuing [sharedOutput]).run empty).state).state

theorem spentInPool_reachable (currency : Currency)
    (transactionSpendableAge safeTransactionSpendableAge : Nat) :
    Reachable currency transactionSpendableAge safeTransactionSpendableAge spentInPool :=
  .call (.addTransaction poolBlock retrying [pendingTransfer])
    (.call (.addTransaction confirmingBlock issuing [sharedOutput]) .empty)

end TransfersContainer

end CryptoNote
