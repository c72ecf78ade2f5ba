import Qwertycoin.Transfers.Container

/-!
Which transfers of a key image the container shows. Outputs that share a key image can be spent
only once, so the wallet must count one of them: `updateTransfersVisibility` shows the spent one if
there is one, else the earliest available one, else the unconfirmed one if it is alone (`Shown`).

Every operation of the container that moves a transfer calls it for the transfer's key image, and
a move changes the transfers of no other key image (`MovesOnly`). So every reachable container
shows each key image's transfers that way (`consistent_of_reachable`), and its balance and outputs
count at most one transfer of a key image.
-/

namespace CryptoNote

namespace TransfersContainer

open TransactionTypes

/-! ### The transfers of a key image -/

/-- The unconfirmed transfers of a key image. -/
def unconfirmedOf (k : KeyImage) (s : TransfersContainer) : List TransactionOutputInformationEx :=
  s.unconfirmedTransfers.filter (hasKeyImage k)

/-- The available transfers of a key image. -/
def availableOf (k : KeyImage) (s : TransfersContainer) : List TransactionOutputInformationEx :=
  s.availableTransfers.filter (hasKeyImage k)

/-- The spent transfers of a key image. -/
def spentOf (k : KeyImage) (s : TransfersContainer) : List TransactionOutputInformationEx :=
  (s.spentTransfers.map (·.toTransactionOutputInformationEx)).filter (hasKeyImage k)

/-- The transfers of a key image in the three containers. -/
def viewOf (k : KeyImage) (s : TransfersContainer) :
    List TransactionOutputInformationEx × List TransactionOutputInformationEx ×
      List TransactionOutputInformationEx :=
  (unconfirmedOf k s, availableOf k s, spentOf k s)

/-- The transfers of a key image that are shown. -/
def shownOf (k : KeyImage) (s : TransfersContainer) : List TransactionOutputInformationEx :=
  (unconfirmedOf k s ++ availableOf k s ++ spentOf k s).filter (·.visible)

/-- How `updateTransfersVisibility` shows the transfers of one key image: all spent ones if there
are any; else one available one that no other is earlier than; else the unconfirmed ones if there
is exactly one. -/
inductive Shown :
    List TransactionOutputInformationEx → List TransactionOutputInformationEx →
      List TransactionOutputInformationEx → Prop
  | spent {unconfirmed available spent} (nonempty : spent ≠ [])
      (unconfirmedHidden : ∀ t ∈ unconfirmed, t.visible = false)
      (availableHidden : ∀ t ∈ available, t.visible = false)
      (spentShown : ∀ t ∈ spent, t.visible = true) : Shown unconfirmed available spent
  | available {unconfirmed available} {earliest : TransactionOutputInformationEx}
      (unconfirmedHidden : ∀ t ∈ unconfirmed, t.visible = false)
      (shownAlone : available.filter (·.visible) = [earliest])
      (noneEarlier : ∀ t ∈ available, lessTIterator t earliest = false) :
      Shown unconfirmed available []
  | unconfirmed {unconfirmed} (shownIfAlone : ∀ t ∈ unconfirmed, t.visible = (unconfirmed.length == 1)) :
      Shown unconfirmed [] []

/-- The container is consistent: every key image's transfers are shown as `Shown` says, and the
spent transfers, unique by descriptor in the index, are so in the list. -/
structure Consistent (s : TransfersContainer) : Prop where
  shown : ∀ k, Shown (unconfirmedOf k s) (availableOf k s) (spentOf k s)
  spentUnique : (s.spentTransfers.map (·.getSpentOutputDescriptor)).Nodup

/-- `s'` holds the same transfers as `s` of every key image but, possibly, the one of the
descriptor `d`. -/
def MovesOnly (d : SpentOutputDescriptor) (s s' : TransfersContainer) : Prop :=
  ∀ k, d ≠ .key k → viewOf k s' = viewOf k s

/-! ### What `Shown` says of the shown transfers -/

namespace Shown

variable {unconfirmed available spent : List TransactionOutputInformationEx}

/-- With a spent transfer, the shown ones are the spent ones. -/
theorem shown_of_spent (shown : Shown unconfirmed available spent) (nonempty : spent ≠ []) :
    (unconfirmed ++ available ++ spent).filter (·.visible) = spent := by
  cases shown with
  | spent _ unconfirmedHidden availableHidden spentShown =>
    rw [List.filter_append, List.filter_append, List.filter_eq_nil_iff.mpr
      (fun t member => by rw [unconfirmedHidden t member]; decide), List.filter_eq_nil_iff.mpr
      (fun t member => by rw [availableHidden t member]; decide), List.filter_eq_self.mpr spentShown]
    rfl
  | available => exact absurd rfl nonempty
  | unconfirmed => exact absurd rfl nonempty

/-- With no spent transfer but available ones, one available transfer that none is earlier than is
shown, alone. -/
theorem shown_of_available (shown : Shown unconfirmed available spent) (noSpent : spent = [])
    (nonempty : available ≠ []) :
    ∃ earliest ∈ available, (unconfirmed ++ available ++ spent).filter (·.visible) = [earliest] ∧
      ∀ t ∈ available, lessTIterator t earliest = false := by
  cases shown with
  | spent nonemptySpent => exact absurd noSpent nonemptySpent
  | available unconfirmedHidden shownAlone noneEarlier =>
    rename_i earliest
    refine ⟨earliest, List.mem_of_mem_filter (shownAlone ▸ List.mem_singleton_self _), ?_,
      noneEarlier⟩
    rw [List.filter_append, List.filter_append, List.filter_eq_nil_iff.mpr
      (fun t member => by rw [unconfirmedHidden t member]; decide), shownAlone]
    rfl
  | unconfirmed => exact absurd rfl nonempty

/-- With neither, the unconfirmed transfers are shown when there is exactly one. -/
theorem shown_of_unconfirmed (shown : Shown unconfirmed available spent) (noSpent : spent = [])
    (noAvailable : available = []) :
    (unconfirmed ++ available ++ spent).filter (·.visible) =
      if unconfirmed.length = 1 then unconfirmed else [] := by
  subst noSpent noAvailable
  cases shown with
  | spent nonemptySpent => exact absurd rfl nonemptySpent
  | available _ shownAlone => cases shownAlone
  | unconfirmed shownIfAlone =>
    rw [List.append_nil, List.append_nil]
    split
    · rename_i alone
      exact List.filter_eq_self.mpr fun t member => by rw [shownIfAlone t member, alone]; rfl
    · rename_i notAlone
      exact List.filter_eq_nil_iff.mpr fun t member => by
        rw [shownIfAlone t member]
        simpa using notAlone

end Shown

/-! ### Key images and the order of transfers -/

theorem hasKeyImage_iff {k : KeyImage} {t : TransactionOutputInformationEx} :
    hasKeyImage k t ↔ t.getSpentOutputDescriptor = .key k := by
  rw [hasKeyImage, beq_iff_eq]

theorem hasKeyImage_of_ne {k : KeyImage} {t : TransactionOutputInformationEx}
    (differ : t.getSpentOutputDescriptor ≠ .key k) : hasKeyImage k t = false := by
  cases shares : hasKeyImage k t
  · rfl
  · exact absurd (hasKeyImage_iff.mp shares) differ

/-- A transfer of one key image is of no other. -/
theorem hasKeyImage_of_hasKeyImage {k k' : KeyImage} (differ : k ≠ k')
    {t : TransactionOutputInformationEx} (shares : hasKeyImage k t) : hasKeyImage k' t = false :=
  hasKeyImage_of_ne fun same => differ (by
    rw [hasKeyImage_iff, same] at shares
    exact (SpentOutputDescriptor.key.inj shares).symm)

/-- Showing or hiding a transfer keeps its key image. -/
@[simp] theorem hasKeyImage_visible (k : KeyImage) (t : TransactionOutputInformationEx) (v : Bool) :
    hasKeyImage k { t with visible := v } = hasKeyImage k t := rfl

@[simp] theorem lessTIterator_visible (a b : TransactionOutputInformationEx) (v : Bool) :
    lessTIterator a { b with visible := v } = lessTIterator a b := rfl

theorem lessTIterator_irrefl (a : TransactionOutputInformationEx) : lessTIterator a a = false := by
  simp [lessTIterator]

theorem lessTIterator_trans (a b c : TransactionOutputInformationEx) :
    lessTIterator a b → lessTIterator b c → lessTIterator a c := by
  simp only [lessTIterator, Bool.or_eq_true, decide_eq_true_eq, Bool.and_eq_true, beq_iff_eq]
  intro first second
  rcases first with below | ⟨same, before⟩ <;> rcases second with below' | ⟨same', before'⟩
  · exact .inl (UInt32.lt_trans below below')
  · exact .inl (same' ▸ below)
  · exact .inl (same ▸ below')
  · exact .inr ⟨same.trans same', UInt32.lt_trans before before'⟩

/-! ### What `updateTransfersVisibility` does -/

section Update

variable (k : KeyImage) (s : TransfersContainer)

/-- The flags `updateVisibility` sets, seen through a key image's filter: every transfer of the
range gets the flag. -/
theorem filter_updateVisibility (v : Bool) (l : List TransactionOutputInformationEx) :
    (updateVisibility (hasKeyImage k) v l).filter (hasKeyImage k) =
      (l.filter (hasKeyImage k)).map fun t => { t with visible := v } := by
  rw [updateVisibility, List.filter_map_of_keeps (fun t => by split <;> rfl)]
  exact List.map_congr_left fun t member => by rw [if_pos (List.of_mem_filter member)]

/-- `updateVisibility` on one key image's range leaves another key image's transfers alone. -/
theorem filter_updateVisibility_of_ne {k' : KeyImage} (differ : k' ≠ k) (v : Bool)
    (l : List TransactionOutputInformationEx) :
    (updateVisibility (hasKeyImage k') v l).filter (hasKeyImage k) = l.filter (hasKeyImage k) := by
  rw [updateVisibility]
  refine List.filter_map_of_fixes (fun t => by split <;> rfl) (fun t shares => ?_) l
  rw [if_neg (by rw [hasKeyImage_of_hasKeyImage differ.symm shares]; decide)]

/-- The spent transfers of a key image, read through the spent records. -/
theorem spentOf_eq : spentOf k s =
    (s.spentTransfers.filter fun t => hasKeyImage k t.toTransactionOutputInformationEx).map
      (·.toTransactionOutputInformationEx) := by
  rw [spentOf, List.filter_map]
  rfl

/-- Setting the flag of the spent records of a range, seen as transfers. -/
theorem map_showSpent (k' : KeyImage) (spent : List SpentTransactionOutput) :
    (spent.map fun t => if hasKeyImage k' t.toTransactionOutputInformationEx then
        { t with visible := true } else t).map (·.toTransactionOutputInformationEx) =
      updateVisibility (hasKeyImage k') true (spent.map (·.toTransactionOutputInformationEx)) := by
  rw [List.map_map, updateVisibility, List.map_map]
  exact List.map_congr_left fun t _ => by
    simp only [Function.comp]
    split <;> rfl

/-- Without a spent transfer of the range, the spent transfers of the key image are none. -/
theorem spentOf_eq_nil
    (none : ¬0 < (s.spentTransfers.filter fun t => hasKeyImage k t.toTransactionOutputInformationEx).length) :
    spentOf k s = [] := by
  rw [spentOf_eq, List.map_eq_nil_iff, ← List.length_eq_zero_iff]
  omega

/-- `updateTransfersVisibility(k)` shows the transfers of `k` as `Shown` says, whatever they were. -/
theorem shown_updateTransfersVisibility :
    Shown (unconfirmedOf k (s.updateTransfersVisibility k))
      (availableOf k (s.updateTransfersVisibility k)) (spentOf k (s.updateTransfersVisibility k)) := by
  unfold updateTransfersVisibility
  dsimp only
  split
  · -- A spent transfer: it is shown, every other one hidden.
    rename_i someSpent
    simp only [unconfirmedOf, availableOf, spentOf, map_showSpent, filter_updateVisibility]
    refine .spent ?_ ?_ ?_ ?_
    · rw [ne_eq, List.map_eq_nil_iff, ← ne_eq, ← List.length_pos_iff, List.filter_map,
        List.length_map]
      exact someSpent
    all_goals
      intro t shown
      obtain ⟨u, -, rfl⟩ := List.mem_map.mp shown
      rfl
  split
  · -- No spent transfer, but available ones: the earliest of them is shown.
    rename_i noSpent someAvailable
    have hiddenRange := filter_updateVisibility k false s.availableTransfers
    -- The range once hidden: the available transfers of `k`, every one hidden.
    have hiddenAll : ∀ t ∈ (s.availableTransfers.filter (hasKeyImage k)).map
        (fun t => { t with visible := false }), t.visible = false := by
      intro t hidden
      obtain ⟨u, -, rfl⟩ := List.mem_map.mp hidden
      rfl
    have nonempty : (s.availableTransfers.filter (hasKeyImage k)).map
        (fun t => { t with visible := false }) ≠ [] := by
      rw [ne_eq, List.map_eq_nil_iff, ← ne_eq, ← List.length_pos_iff]
      exact someAvailable
    obtain ⟨earliest, found⟩ := Option.isSome_iff_exists.mp
      (List.minElement_isSome nonempty : (List.minElement lessTIterator _).isSome)
    have member := List.minElement_mem found
    have inRange : hasKeyImage k earliest := by
      obtain ⟨u, old, rfl⟩ := List.mem_map.mp member
      rw [hasKeyImage_visible]
      exact List.of_mem_filter old
    have inRangeShown : hasKeyImage k { earliest with visible := true } := inRange
    have spentNone := spentOf_eq_nil k s noSpent
    simp only [spentOf] at spentNone
    simp only [unconfirmedOf, availableOf, spentOf, spentNone, hiddenRange, found,
      List.filter_replace_of_pos inRange inRangeShown, filter_updateVisibility]
    refine .available ?_ (List.filter_replace_eq_singleton hiddenAll member
      (rfl : ({ earliest with visible := true } : TransactionOutputInformationEx).visible = true)) ?_
    · intro t hidden
      obtain ⟨u, -, rfl⟩ := List.mem_map.mp hidden
      rfl
    · intro t shown
      rcases List.mem_of_mem_replace shown with old | same
      · rw [lessTIterator_visible]
        exact List.minElement_minimal lessTIterator_irrefl lessTIterator_trans found t old
      · rw [same]
        exact lessTIterator_irrefl _
  · -- Neither: the unconfirmed transfers are shown when there is exactly one.
    rename_i noSpent noAvailable
    have spentNone := spentOf_eq_nil k s noSpent
    have availableNone : s.availableTransfers.filter (hasKeyImage k) = [] :=
      List.length_eq_zero_iff.mp (by omega)
    simp only [spentOf] at spentNone
    simp only [unconfirmedOf, availableOf, spentOf, spentNone, availableNone,
      filter_updateVisibility]
    refine .unconfirmed fun t shown => ?_
    obtain ⟨u, -, rfl⟩ := List.mem_map.mp shown
    rw [List.length_map]

/-- `updateTransfersVisibility(k')` leaves the transfers of every other key image as they were. -/
theorem viewOf_updateTransfersVisibility_of_ne {k' : KeyImage} (differ : k' ≠ k) :
    viewOf k (s.updateTransfersVisibility k') = viewOf k s := by
  unfold updateTransfersVisibility
  dsimp only
  split
  · simp only [viewOf, unconfirmedOf, availableOf, spentOf, map_showSpent,
      filter_updateVisibility_of_ne k differ]
  split
  · simp only [viewOf, unconfirmedOf, availableOf, spentOf, filter_updateVisibility_of_ne k differ,
      Prod.mk.injEq, and_true, true_and]
    split
    · rename_i earliest found
      have ofOther := List.of_mem_filter (List.minElement_mem found)
      have skipped : hasKeyImage k { earliest with visible := true } = false :=
        hasKeyImage_of_hasKeyImage differ ofOther
      rw [List.filter_replace_of_neg (hasKeyImage_of_hasKeyImage differ ofOther) skipped,
        filter_updateVisibility_of_ne k differ]
    · exact filter_updateVisibility_of_ne k differ _ _
  · simp only [viewOf, unconfirmedOf, availableOf, spentOf, filter_updateVisibility_of_ne k differ]

end Update

/-- `updateTransfersVisibility` keeps every spent transfer's descriptor. -/
theorem spentDescriptors_updateTransfersVisibility (k : KeyImage) (s : TransfersContainer) :
    (s.updateTransfersVisibility k).spentTransfers.map (·.getSpentOutputDescriptor) =
      s.spentTransfers.map (·.getSpentOutputDescriptor) := by
  unfold updateTransfersVisibility
  dsimp only
  split
  · rw [List.map_map]
    exact List.map_congr_left fun t _ => by
      simp only [Function.comp]
      split <;> rfl
  split <;> rfl

/-- A transfer is of a key image when it is a key output with that image. -/
theorem hasKeyImage_eq (k : KeyImage) (t : TransactionOutputInformationEx) :
    hasKeyImage k t = (t.type == .key && t.keyImage == k) := by
  unfold hasKeyImage TransactionOutputInformationIn.getSpentOutputDescriptor
  cases t.type
  · simp
  · rfl

/-! ### Moves keep the container consistent -/

theorem shown_of_viewOf_eq {k : KeyImage} {s s' : TransfersContainer}
    (same : viewOf k s' = viewOf k s) (shown : Shown (unconfirmedOf k s) (availableOf k s) (spentOf k s)) :
    Shown (unconfirmedOf k s') (availableOf k s') (spentOf k s') := by
  simp only [viewOf, Prod.mk.injEq] at same
  rw [same.1, same.2.1, same.2.2]
  exact shown

/-- The step every move ends with: after changing the transfers of `t`'s descriptor alone, redo
`t`'s visibility. -/
theorem consistent_updateVisibilityOf {s s' : TransfersContainer} {t : TransactionOutputInformationEx}
    (consistent : Consistent s) (moves : MovesOnly t.getSpentOutputDescriptor s s')
    (unique : (s'.spentTransfers.map (·.getSpentOutputDescriptor)).Nodup) :
    Consistent (updateVisibilityOf t s') := by
  unfold updateVisibilityOf
  split
  · -- A key transfer: its key image is redone, the others are as they were.
    rename_i isKey
    have descriptor : t.getSpentOutputDescriptor = .key t.keyImage := by
      simp [TransactionOutputInformationIn.getSpentOutputDescriptor, isKey]
    refine ⟨fun k => ?_, by rwa [spentDescriptors_updateTransfersVisibility]⟩
    by_cases same : k = t.keyImage
    · rw [same]
      exact shown_updateTransfersVisibility _ _
    · refine shown_of_viewOf_eq ?_ (consistent.shown k)
      rw [viewOf_updateTransfersVisibility_of_ne k s' (Ne.symm same)]
      exact moves k (by rw [descriptor]; exact fun keys => same (SpentOutputDescriptor.key.inj keys).symm)
  · -- A multisignature transfer is of no key image.
    rename_i isMultisignature
    have descriptor : t.getSpentOutputDescriptor =
        .multisignature t.amount t.globalOutputIndex := by
      simp [TransactionOutputInformationIn.getSpentOutputDescriptor, isMultisignature]
    exact ⟨fun k => shown_of_viewOf_eq (moves k (by rw [descriptor]; exact nofun))
      (consistent.shown k), unique⟩

/-- A container holding the same transfers is as consistent. -/
theorem consistent_of_same_transfers {s s' : TransfersContainer} (consistent : Consistent s)
    (unconfirmed : s'.unconfirmedTransfers = s.unconfirmedTransfers)
    (available : s'.availableTransfers = s.availableTransfers)
    (spent : s'.spentTransfers = s.spentTransfers) : Consistent s' := by
  refine ⟨fun k => ?_, by rw [spent]; exact consistent.spentUnique⟩
  simp only [unconfirmedOf, availableOf, spentOf, unconfirmed, available, spent]
  exact consistent.shown k

section Moves

variable {k : KeyImage}

/-- Appending a transfer of another key image leaves a key image's transfers as they were. -/
theorem filter_append_of_skip {t : TransactionOutputInformationEx} (skip : hasKeyImage k t = false)
    (l : List TransactionOutputInformationEx) :
    (l ++ [t]).filter (hasKeyImage k) = l.filter (hasKeyImage k) := by
  rw [List.filter_append, List.filter_singleton, skip, cond_false, List.append_nil]

/-- `copyToSpent` adds, if anything, the spent record of `output`. -/
theorem spentOf_copyToSpent (block : TransactionBlockInfo) (tx : ITransactionReader)
    (inputIndex : Nat) {output : TransactionOutputInformationEx} (skip : hasKeyImage k output = false)
    (spent : List SpentTransactionOutput) :
    ((copyToSpent block tx inputIndex output spent).map (·.toTransactionOutputInformationEx)).filter
      (hasKeyImage k) = (spent.map (·.toTransactionOutputInformationEx)).filter (hasKeyImage k) := by
  unfold copyToSpent List.insertUnique
  split
  · rfl
  · rw [List.map_append, List.map_singleton]
    exact filter_append_of_skip skip _

/-- Erasing the first spent record `p` selects, when it is of another key image, leaves a key
image's spent transfers as they were. -/
theorem spentOf_eraseP {p : SpentTransactionOutput → Bool} {spent : List SpentTransactionOutput}
    {t : SpentTransactionOutput} (found : spent.find? p = some t)
    (skip : hasKeyImage k t.toTransactionOutputInformationEx = false) :
    ((spent.eraseP p).map (·.toTransactionOutputInformationEx)).filter (hasKeyImage k) =
      (spent.map (·.toTransactionOutputInformationEx)).filter (hasKeyImage k) := by
  have skipRecord :
      (hasKeyImage k ∘ fun t : SpentTransactionOutput => t.toTransactionOutputInformationEx) t =
        false := skip
  rw [List.filter_map, List.filter_map, List.filter_eraseP_of_find? found skipRecord]

variable {s : TransfersContainer} (consistent : Consistent s)
include consistent

theorem consistent_spendTransfer (block : TransactionBlockInfo) (tx : ITransactionReader)
    (inputIndex : Nat) (output : TransactionOutputInformationEx) :
    Consistent (spendTransfer block tx inputIndex output s) := by
  refine consistent_updateVisibilityOf consistent (fun k differ => ?_)
    (List.nodup_map_insertUnique consistent.spentUnique _)
  have skip := hasKeyImage_of_ne differ
  simp only [viewOf, unconfirmedOf, availableOf, spentOf, List.filter_erase_of_neg skip,
    spentOf_copyToSpent block tx inputIndex skip]

/-- Returning the first spent record `p` selects to the available transfers. -/
theorem consistent_restoreSpent {p : SpentTransactionOutput → Bool} {t : SpentTransactionOutput}
    (found : s.spentTransfers.find? p = some t) :
    Consistent (updateVisibilityOf t.toTransactionOutputInformationEx
      { s with
        availableTransfers := s.availableTransfers ++ [t.toTransactionOutputInformationEx]
        spentTransfers := s.spentTransfers.eraseP p }) := by
  refine consistent_updateVisibilityOf consistent (fun k differ => ?_)
    (consistent.spentUnique.sublist (List.eraseP_sublist.map _))
  have skip := hasKeyImage_of_ne differ
  simp only [viewOf, unconfirmedOf, availableOf, spentOf, filter_append_of_skip skip,
    spentOf_eraseP found skip]

/-- Erasing the first unconfirmed transfer `p` selects. -/
theorem consistent_eraseUnconfirmed {p : TransactionOutputInformationEx → Bool}
    {t : TransactionOutputInformationEx} (found : s.unconfirmedTransfers.find? p = some t) :
    Consistent (updateVisibilityOf t
      { s with unconfirmedTransfers := s.unconfirmedTransfers.eraseP p }) := by
  refine consistent_updateVisibilityOf consistent (fun k differ => ?_) consistent.spentUnique
  simp only [viewOf, unconfirmedOf, availableOf, spentOf,
    List.filter_eraseP_of_find? found (hasKeyImage_of_ne differ)]

/-- Erasing the first available transfer `p` selects. -/
theorem consistent_eraseAvailable {p : TransactionOutputInformationEx → Bool}
    {t : TransactionOutputInformationEx} (found : s.availableTransfers.find? p = some t) :
    Consistent (updateVisibilityOf t
      { s with availableTransfers := s.availableTransfers.eraseP p }) := by
  refine consistent_updateVisibilityOf consistent (fun k differ => ?_) consistent.spentUnique
  simp only [viewOf, unconfirmedOf, availableOf, spentOf,
    List.filter_eraseP_of_find? found (hasKeyImage_of_ne differ)]

theorem consistent_restoreSpentTransfer (transactionHash : Hash) :
    Consistent (restoreSpentTransfer transactionHash s) := by
  unfold restoreSpentTransfer
  split
  · exact consistent_restoreSpent consistent ‹_›
  · exact consistent

theorem consistent_eraseUnconfirmedTransfer (transactionHash : Hash) :
    Consistent (eraseUnconfirmedTransfer transactionHash s) := by
  unfold eraseUnconfirmedTransfer
  split
  · exact consistent_eraseUnconfirmed consistent ‹_›
  · exact consistent

theorem consistent_eraseAvailableTransfer (transactionHash : Hash) :
    Consistent (eraseAvailableTransfer transactionHash s) := by
  unfold eraseAvailableTransfer
  split
  · exact consistent_eraseAvailable consistent ‹_›
  · exact consistent

theorem consistent_repairOrphanInput : Consistent (repairOrphanInput s) := by
  unfold repairOrphanInput
  dsimp only
  split
  · exact consistent_restoreSpent consistent ‹_›
  · exact consistent

theorem consistent_repairOrphanUnconfirmedOutput : Consistent (repairOrphanUnconfirmedOutput s) := by
  unfold repairOrphanUnconfirmedOutput
  dsimp only
  split
  · exact consistent_eraseUnconfirmed consistent ‹_›
  · exact consistent

theorem consistent_repairOrphanOutput : Consistent (repairOrphanOutput s) := by
  unfold repairOrphanOutput
  dsimp only
  split
  · exact consistent_eraseAvailable consistent ‹_›
  · exact consistent

/-- Storing a transfer among the unconfirmed ones. -/
theorem consistent_pushUnconfirmed (info : TransactionOutputInformationEx) :
    Consistent (updateVisibilityOf info
      { s with unconfirmedTransfers := s.unconfirmedTransfers ++ [info] }) := by
  refine consistent_updateVisibilityOf consistent (fun k differ => ?_) consistent.spentUnique
  simp only [viewOf, unconfirmedOf, availableOf, spentOf,
    filter_append_of_skip (hasKeyImage_of_ne differ)]

/-- Storing a transfer among the available ones. -/
theorem consistent_pushAvailable (info : TransactionOutputInformationEx) :
    Consistent (updateVisibilityOf info
      { s with availableTransfers := s.availableTransfers ++ [info] }) := by
  refine consistent_updateVisibilityOf consistent (fun k differ => ?_) consistent.spentUnique
  simp only [viewOf, unconfirmedOf, availableOf, spentOf,
    filter_append_of_skip (hasKeyImage_of_ne differ)]

/-- Moving the first unconfirmed transfer `p` selects, given its block and global index, to the
available ones. -/
theorem consistent_confirmUnconfirmed {p : TransactionOutputInformationEx → Bool}
    {transfer : TransactionOutputInformationEx} (found : s.unconfirmedTransfers.find? p = some transfer)
    (confirmed : TransactionOutputInformationEx) (sameType : confirmed.type = transfer.type)
    (sameImage : confirmed.keyImage = transfer.keyImage) :
    Consistent (updateVisibilityOf confirmed
      { s with
        unconfirmedTransfers := s.unconfirmedTransfers.eraseP p
        availableTransfers := s.availableTransfers ++ [confirmed] }) := by
  refine consistent_updateVisibilityOf consistent (fun k differ => ?_) consistent.spentUnique
  -- Another key image's view: the transfer erased and the one appended are both of the confirmed
  -- key image, so neither is in it.
  have skip := hasKeyImage_of_ne differ
  have skipOld : hasKeyImage k transfer = false := by
    rw [hasKeyImage_eq] at skip ⊢
    rwa [← sameType, ← sameImage]
  simp only [viewOf, unconfirmedOf, availableOf, spentOf, filter_append_of_skip skip,
    List.filter_eraseP_of_find? found skipOld]

/-- Changing the spending block of spent records moves no transfer. -/
theorem consistent_setSpendingBlock (transactionHash : Hash) (block : TransactionBlockInfo) :
    Consistent { s with
      spentTransfers := s.spentTransfers.map fun t =>
        if t.spendingTransactionHash == transactionHash then { t with spendingBlock := block }
        else t } := by
  -- The spending block is part of neither a spent record's transfer nor its descriptor.
  have transfers : (s.spentTransfers.map fun t =>
      if t.spendingTransactionHash == transactionHash then { t with spendingBlock := block }
      else t).map (·.toTransactionOutputInformationEx) =
        s.spentTransfers.map (·.toTransactionOutputInformationEx) := by
    rw [List.map_map]
    exact List.map_congr_left fun t _ => by
      simp only [Function.comp]
      split <;> rfl
  have descriptors : (s.spentTransfers.map fun t =>
      if t.spendingTransactionHash == transactionHash then { t with spendingBlock := block }
      else t).map (·.getSpentOutputDescriptor) =
        s.spentTransfers.map (·.getSpentOutputDescriptor) := by
    rw [List.map_map]
    exact List.map_congr_left fun t _ => by
      simp only [Function.comp]
      split <;> rfl
  refine ⟨fun k => ?_, by rw [descriptors]; exact consistent.spentUnique⟩
  simp only [spentOf, transfers]
  exact consistent.shown k

end Moves

/-- A step every round of which keeps the container consistent keeps it consistent however many
rounds it makes. -/
theorem consistent_iterate {f : TransfersContainer → TransfersContainer}
    (round : ∀ s, Consistent s → Consistent (f s)) (rounds : Nat) {s : TransfersContainer}
    (consistent : Consistent s) : Consistent (f^[rounds] s) :=
  Function.Iterate.rec _ consistent round rounds

theorem consistent_deleteTransactionTransfers {s : TransfersContainer} (consistent : Consistent s)
    (transactionHash : Hash) : Consistent (deleteTransactionTransfers transactionHash s) := by
  unfold deleteTransactionTransfers
  dsimp only
  -- The three loops, one after the other.
  apply consistent_iterate fun s consistent => consistent_eraseAvailableTransfer consistent _
  apply consistent_iterate fun s consistent => consistent_eraseUnconfirmedTransfer consistent _
  exact consistent_iterate (fun s consistent => consistent_restoreSpentTransfer consistent _) _
    consistent

theorem consistent_repair {s : TransfersContainer} (consistent : Consistent s) :
    Consistent (repair s) := by
  unfold repair
  dsimp only
  -- The three repair loops of `load`, each run as many rounds as there are orphans.
  apply consistent_iterate fun s consistent => consistent_repairOrphanOutput consistent
  apply consistent_iterate fun s consistent => consistent_repairOrphanUnconfirmedOutput consistent
  exact consistent_iterate (fun s consistent => consistent_repairOrphanInput consistent) _
    consistent

/-- The record of a transaction is no transfer. -/
theorem consistent_eraseTransaction {s : TransfersContainer} (consistent : Consistent s)
    (transactionHash : Hash) : Consistent (eraseTransaction transactionHash s) :=
  ⟨consistent.shown, consistent.spentUnique⟩

/-- The walk of `detach` deletes transactions one after another. -/
theorem consistent_detachLoop (height : UInt32) :
    ∀ (transactions : List TransactionInformation) (deleted : List Hash) {s : TransfersContainer},
      Consistent s → Consistent (detachLoop height transactions deleted s).2
  | [], _, _, consistent => consistent
  | transaction :: transactions, deleted, s, consistent => by
    unfold detachLoop
    dsimp only
    -- The three answers of `doDelete`: stop the walk, pass the record by, or delete it with its
    -- transfers and walk on.
    split
    · exact consistent
    · exact consistent_detachLoop height transactions deleted consistent
    · exact consistent_detachLoop height transactions _ (consistent_eraseTransaction
        (consistent_deleteTransactionTransfers consistent _) _)

/-! ### Every call keeps the container consistent -/

open EStateM (Keeps)

section Calls

variable (block : TransactionBlockInfo) (tx : ITransactionReader)

theorem keeps_addTransactionOutput (transfer : TransactionOutputInformationIn) :
    Keeps Consistent (addTransactionOutput block tx transfer) := by
  unfold addTransactionOutput
  dsimp only
  -- Past the first check, which may throw, the transfer is checked again and stored.
  refine Keeps.ite (Keeps.bind (Keeps.throw _) fun _ => ?_) ?_ <;>
    refine Keeps.get_bind fun s consistent =>
      Keeps.ite (Keeps.set (consistent_pushUnconfirmed consistent _)) ?_ <;>
    split <;>
    exact Keeps.ite
      (Keeps.bind (Keeps.throw _) fun _ => Keeps.set (consistent_pushAvailable consistent _))
      (Keeps.set (consistent_pushAvailable consistent _))

theorem keeps_addTransactionOutputs :
    ∀ transfers, Keeps Consistent (addTransactionOutputs block tx transfers)
  | [] => Keeps.pure _
  | transfer :: transfers =>
    Keeps.bind (keeps_addTransactionOutput block tx transfer) fun _ =>
      Keeps.bind (keeps_addTransactionOutputs transfers) fun _ => Keeps.pure _

/-- An input spends at most one transfer, after checks that may throw. -/
theorem keeps_addTransactionInput (inputIndex : Nat) :
    ∀ input, Keeps Consistent (addTransactionInput block tx inputIndex input)
  | .key input => by
    unfold addTransactionInput
    dsimp only
    refine Keeps.get_bind fun s consistent => ?_
    -- The check for a spent key image, then the checks of the available range, may throw.
    refine Keeps.ite (Keeps.bind (Keeps.throw _) fun _ => ?_) ?_
    all_goals
      refine Keeps.ite (Keeps.ite (Keeps.bind (Keeps.throw _) fun _ => ?_) (Keeps.pure _)) ?_
    all_goals
      split
      · exact Keeps.throw _
      · exact Keeps.bind (Keeps.modify fun _ consistent => consistent_spendTransfer consistent ..)
          fun _ => Keeps.pure _
  | .multisignature input => by
    unfold addTransactionInput
    dsimp only
    refine Keeps.get_bind fun s consistent => ?_
    split
    · exact Keeps.bind (Keeps.modify fun _ consistent => consistent_spendTransfer consistent ..)
        fun _ => Keeps.pure _
    · exact Keeps.pure _
  | .base _ => Keeps.pure _

theorem keeps_addTransactionInputs :
    ∀ inputIndex inputs, Keeps Consistent (addTransactionInputs block tx inputIndex inputs)
  | _, [] => Keeps.pure _
  | inputIndex, input :: inputs =>
    Keeps.bind (keeps_addTransactionInput block tx inputIndex input) fun _ =>
      Keeps.bind (keeps_addTransactionInputs (inputIndex + 1) inputs) fun _ => Keeps.pure _

/-- `addTransaction` keeps the container consistent, also when it throws: its handler deletes
transfers only through `deleteTransactionTransfers`. -/
theorem keeps_addTransaction (transfers : List TransactionOutputInformationIn) :
    Keeps Consistent (addTransaction block tx transfers) := by
  unfold addTransaction
  refine Keeps.tryCatch ?_ fun _ => ?_
  rotate_left
  · -- The handler: the transaction's transfers deleted, or nothing, and the exception again.
    refine Keeps.get_bind fun _ _ => ?_
    dsimp only
    exact Keeps.ite (Keeps.bind (Keeps.modify fun _ consistent =>
      consistent_deleteTransactionTransfers consistent _) fun _ => Keeps.throw _) (Keeps.throw _)
  dsimp only
  refine Keeps.get_bind fun s consistent => ?_
  -- The two checks may throw; then the transfers, the inputs, the record and the height.
  refine Keeps.ite (Keeps.bind (Keeps.throw _) fun _ => ?_) ?_
  all_goals refine Keeps.ite (Keeps.bind (Keeps.throw _) fun _ => ?_) ?_
  all_goals
    refine Keeps.bind (keeps_addTransactionOutputs block tx transfers) fun _ =>
      Keeps.bind (keeps_addTransactionInputs block tx 0 tx.inputs) fun _ => ?_
    refine Keeps.ite (Keeps.bind (Keeps.modify fun _ consistent =>
      consistent_of_same_transfers consistent rfl rfl rfl) fun _ => ?_) ?_
    all_goals
      exact Keeps.ite (Keeps.bind (Keeps.modify fun _ consistent =>
        consistent_of_same_transfers consistent rfl rfl rfl) fun _ => Keeps.pure _) (Keeps.pure _)

end Calls

theorem keeps_confirmTransfer (block : TransactionBlockInfo) (transactionHash : Hash)
    (globalIndices : List UInt32) :
    Keeps Consistent (confirmTransfer block transactionHash globalIndices) := by
  unfold confirmTransfer
  dsimp only
  refine Keeps.get_bind fun s consistent => ?_
  split
  · exact Keeps.pure _
  · rename_i transfer found
    -- The index check, then the multisignature check, may throw; the transfer then moves.
    refine Keeps.ite (Keeps.bind (Keeps.throw _) fun _ => ?_) ?_ <;>
      exact Keeps.ite
        (Keeps.ite
          (Keeps.bind (Keeps.throw _) fun _ =>
            Keeps.set (consistent_confirmUnconfirmed consistent found _ rfl rfl))
          (Keeps.set (consistent_confirmUnconfirmed consistent found _ rfl rfl)))
        (Keeps.set (consistent_confirmUnconfirmed consistent found _ rfl rfl))

theorem keeps_confirmTransfers (block : TransactionBlockInfo) (transactionHash : Hash)
    (globalIndices : List UInt32) :
    ∀ rounds, Keeps Consistent (confirmTransfers block transactionHash globalIndices rounds)
  | 0 => Keeps.pure _
  | rounds + 1 =>
    Keeps.bind (keeps_confirmTransfer block transactionHash globalIndices) fun _ =>
      keeps_confirmTransfers block transactionHash globalIndices rounds

theorem keeps_markTransactionConfirmed (block : TransactionBlockInfo) (transactionHash : Hash)
    (globalIndices : List UInt32) :
    Keeps Consistent (markTransactionConfirmed block transactionHash globalIndices) := by
  unfold markTransactionConfirmed
  dsimp only
  -- After the height check, a record that is missing or already in a block returns at once; an
  -- unconfirmed one is moved, then its transfers confirmed and its spendings given the block.
  refine Keeps.ite (Keeps.bind (Keeps.throw _) fun _ => ?_) ?_ <;>
    refine Keeps.get_bind fun s consistent => ?_ <;>
    split
  all_goals first
    | exact Keeps.pure _
    | exact Keeps.ite (Keeps.pure _)
        (Keeps.bind (Keeps.set (consistent_of_same_transfers consistent rfl rfl rfl)) fun _ =>
          Keeps.bind (keeps_confirmTransfers block transactionHash globalIndices _) fun _ =>
            Keeps.bind (Keeps.modify fun _ consistent =>
              consistent_setSpendingBlock consistent transactionHash block) fun _ => Keeps.pure _)

theorem keeps_deleteUnconfirmedTransaction (transactionHash : Hash) :
    Keeps Consistent (deleteUnconfirmedTransaction transactionHash) := by
  unfold deleteUnconfirmedTransaction
  refine Keeps.get_bind fun s consistent => ?_
  -- Only a record still unconfirmed goes, with its transfers.
  split
  · exact Keeps.pure _
  · exact Keeps.ite (Keeps.pure _) (Keeps.bind (Keeps.set (consistent_eraseTransaction
      (consistent_deleteTransactionTransfers consistent _) _)) fun _ => Keeps.pure _)

theorem keeps_detach (height : UInt32) : Keeps Consistent (detach height) := by
  unfold detach
  refine Keeps.get_bind fun s consistent => ?_
  split
  rename_i deleted s' walked
  -- The walk keeps the transfers consistent; storing the records it leaves touches no transfer.
  have afterWalk := consistent_detachLoop height (detachOrder s.transactions) [] consistent
  rw [walked] at afterWalk
  exact Keeps.bind (Keeps.set (consistent_of_same_transfers afterWalk rfl rfl rfl)) fun _ =>
    Keeps.pure _

theorem keeps_advanceHeight (height : UInt32) : Keeps Consistent (advanceHeight height) := by
  unfold advanceHeight
  refine Keeps.get_bind fun s consistent => Keeps.ite ?_ (Keeps.pure _)
  exact Keeps.bind (Keeps.set (consistent_of_same_transfers consistent rfl rfl rfl)) fun _ =>
    Keeps.pure _

theorem keeps_markTransactionSafe (transactionHash : Hash) :
    Keeps Consistent (markTransactionSafe transactionHash) :=
  Keeps.modify fun _ consistent => consistent_of_same_transfers consistent rfl rfl rfl

section Queries

variable (currency : Currency) (transactionSpendableAge safeTransactionSpendableAge : Nat)
  (now : UInt64)

theorem keeps_balance (flags : UInt32) :
    Keeps Consistent
      (balance currency transactionSpendableAge safeTransactionSpendableAge now flags) := by
  unfold balance
  refine Keeps.get_bind fun s consistent => ?_
  split
  exact Keeps.bind (Keeps.set (consistent_of_same_transfers consistent rfl rfl rfl)) fun _ =>
    Keeps.pure _

theorem keeps_getOutputs (flags : UInt32) :
    Keeps Consistent
      (getOutputs currency transactionSpendableAge safeTransactionSpendableAge now flags) := by
  unfold getOutputs
  refine Keeps.get_bind fun s consistent => ?_
  split
  exact Keeps.bind (Keeps.set (consistent_of_same_transfers consistent rfl rfl rfl)) fun _ =>
    Keeps.pure _

/-- Every call keeps the container consistent, whether it returns or throws. -/
theorem keeps_run (call : Call) :
    Keeps Consistent (run currency transactionSpendableAge safeTransactionSpendableAge call) := by
  cases call with
  | addTransaction block tx transfers => exact Keeps.map _ (keeps_addTransaction block tx transfers)
  | deleteUnconfirmedTransaction transactionHash =>
    exact Keeps.map _ (keeps_deleteUnconfirmedTransaction transactionHash)
  | markTransactionConfirmed block transactionHash globalIndices =>
    exact Keeps.map _ (keeps_markTransactionConfirmed block transactionHash globalIndices)
  | detach height => exact Keeps.map _ (keeps_detach height)
  | advanceHeight height => exact Keeps.map _ (keeps_advanceHeight height)
  | markTransactionSafe transactionHash => exact keeps_markTransactionSafe transactionHash
  | balance now flags =>
    exact Keeps.map _ (keeps_balance currency transactionSpendableAge safeTransactionSpendableAge
      now flags)
  | getOutputs now flags =>
    exact Keeps.map _ (keeps_getOutputs currency transactionSpendableAge
      safeTransactionSpendableAge now flags)

/-- Loading what a consistent container saved gives a consistent container, whatever the
container loading it held: the unique spent index drops no record of it. -/
theorem keeps_load {saved : TransfersContainer} (consistent : Consistent saved) :
    Keeps Consistent (load (save saved)) := by
  have spentKept : saved.spentTransfers.foldl (List.insertUnique (·.getSpentOutputDescriptor)) [] =
      saved.spentTransfers :=
    List.foldl_insertUnique_of_nodup _ [] (by rw [List.nil_append]; exact consistent.spentUnique)
  unfold load
  dsimp only
  refine Keeps.ite (Keeps.bind (Keeps.throw _) fun _ => ?_) ?_ <;>
    exact Keeps.modify fun _ _ =>
      consistent_repair (consistent_of_same_transfers consistent rfl rfl spentKept)

theorem consistent_empty : Consistent empty :=
  ⟨fun _ => .unconfirmed fun _ member => absurd member List.not_mem_nil, List.nodup_nil⟩

/-- Every reachable container is consistent. -/
theorem consistent_of_reachable {s : TransfersContainer}
    (reach : Reachable currency transactionSpendableAge safeTransactionSpendableAge s) :
    Consistent s := by
  induction reach with
  | empty => exact consistent_empty
  | call call _ consistent =>
    exact keeps_run currency transactionSpendableAge safeTransactionSpendableAge call _ consistent
  | load _ _ consistent savedConsistent => exact keeps_load savedConsistent _ consistent

end Queries

/-! ### What `balance` and `getOutputs` count -/

section Counted

variable (currency : Currency) (transactionSpendableAge safeTransactionSpendableAge : Nat)
  (now : UInt64) (flags : UInt32) (s : TransfersContainer)

/-- The `step` that makes `getOutputs`' list. -/
def pushTransfer (transfers : List TransactionOutputInformationEx)
    (t : TransactionOutputInformationEx) : List TransactionOutputInformationEx :=
  transfers ++ [t]

/-- Over the available transfers, any `step` takes in, in order, what the list of `getOutputs`
gets; `m_safeTxes` ends the same. -/
theorem foldl_includeAvailable {β : Type} (step : β → TransactionOutputInformationEx → β)
    (init : β) :
    ∀ (l transfers : List TransactionOutputInformationEx) (safeTxes : List Hash),
      let listed := l.foldl (includeAvailable currency transactionSpendableAge
        safeTransactionSpendableAge now pushTransfer flags s) (transfers, safeTxes)
      l.foldl (includeAvailable currency transactionSpendableAge safeTransactionSpendableAge now
          step flags s) (transfers.foldl step init, safeTxes) =
        (listed.1.foldl step init, listed.2)
  | [], _, _ => rfl
  | t :: l, transfers, safeTxes => by
    simp only [List.foldl_cons]
    unfold includeAvailable
    split
    · -- A visible transfer: both folds ask `isIncluded` the same question.
      obtain ⟨included, safeTxes'⟩ := isIncluded currency transactionSpendableAge
        safeTransactionSpendableAge now { s with safeTxes := safeTxes } t flags
      dsimp only
      cases included
      · exact foldl_includeAvailable step init l transfers safeTxes'
      · have pushed := foldl_includeAvailable step init l (pushTransfer transfers t) safeTxes'
        rwa [pushTransfer, List.foldl_append, List.foldl_cons, List.foldl_nil] at pushed
    · exact foldl_includeAvailable step init l transfers safeTxes

/-- Over the unconfirmed transfers, likewise. -/
theorem foldl_includeUnconfirmed {β : Type} (step : β → TransactionOutputInformationEx → β)
    (init : β) :
    ∀ (l transfers : List TransactionOutputInformationEx),
      l.foldl (includeUnconfirmed step flags) (transfers.foldl step init) =
        (l.foldl (includeUnconfirmed pushTransfer flags) transfers).foldl step init
  | [], _ => rfl
  | t :: l, transfers => by
    simp only [List.foldl_cons]
    unfold includeUnconfirmed
    split
    · have pushed := foldl_includeUnconfirmed step init l (pushTransfer transfers t)
      rwa [pushTransfer, List.foldl_append, List.foldl_cons, List.foldl_nil] at pushed
    · exact foldl_includeUnconfirmed step init l transfers

/-- The loops of `balance` and `getOutputs` agree: any `step` takes in the transfers `getOutputs`
lists, in order. -/
theorem foldIncluded_eq_foldl {β : Type} (step : β → TransactionOutputInformationEx → β)
    (init : β) :
    foldIncluded currency transactionSpendableAge safeTransactionSpendableAge now step init flags s =
      let listed := foldIncluded currency transactionSpendableAge safeTransactionSpendableAge now
        pushTransfer [] flags s
      (listed.1.foldl step init, listed.2) := by
  unfold foldIncluded
  have available := foldl_includeAvailable currency transactionSpendableAge
    safeTransactionSpendableAge now flags s step init s.availableTransfers [] s.safeTxes
  simp only [List.foldl_nil] at available
  simp only [available]
  split <;> simp only [foldl_includeUnconfirmed]

/-- `getOutputs` lists, over the available transfers, visible ones only, in order. -/
theorem foldl_includeAvailable_sublist :
    ∀ (l transfers : List TransactionOutputInformationEx) (safeTxes : List Hash),
      ∃ listed, (l.foldl (includeAvailable currency transactionSpendableAge
          safeTransactionSpendableAge now pushTransfer flags s) (transfers, safeTxes)).1 =
            transfers ++ listed ∧ listed.Sublist (l.filter (·.visible))
  | [], transfers, _ => ⟨[], (List.append_nil transfers).symm, List.Sublist.slnil⟩
  | t :: l, transfers, safeTxes => by
    rw [List.foldl_cons, includeAvailable]
    -- A hidden transfer is passed by; a visible one is listed when `isIncluded` takes it, and
    -- either way the safe set goes on as `isIncluded` leaves it.
    split
    · rename_i visible
      obtain ⟨included, safeTxes'⟩ := isIncluded currency transactionSpendableAge
        safeTransactionSpendableAge now { s with safeTxes := safeTxes } t flags
      dsimp only
      rw [List.filter_cons_of_pos visible]
      cases included
      · rw [if_neg (by decide)]
        obtain ⟨listed, run, kept⟩ := foldl_includeAvailable_sublist l transfers safeTxes'
        exact ⟨listed, run, kept.cons t⟩
      · rw [if_pos rfl]
        obtain ⟨listed, run, kept⟩ :=
          foldl_includeAvailable_sublist l (pushTransfer transfers t) safeTxes'
        refine ⟨t :: listed, ?_, kept.cons_cons t⟩
        rw [run, pushTransfer, List.append_assoc, List.singleton_append]
    · rename_i hidden
      rw [List.filter_cons_of_neg hidden]
      exact foldl_includeAvailable_sublist l transfers safeTxes

/-- Over the unconfirmed transfers, likewise. -/
theorem foldl_includeUnconfirmed_sublist :
    ∀ (l transfers : List TransactionOutputInformationEx),
      ∃ listed, l.foldl (includeUnconfirmed pushTransfer flags) transfers = transfers ++ listed ∧
        listed.Sublist (l.filter (·.visible))
  | [], transfers => ⟨[], (List.append_nil transfers).symm, List.Sublist.slnil⟩
  | t :: l, transfers => by
    rw [List.foldl_cons, includeUnconfirmed]
    -- Taken only when visible and the flags ask for unconfirmed transfers.
    split
    · rename_i taken
      obtain ⟨listed, run, kept⟩ := foldl_includeUnconfirmed_sublist l (pushTransfer transfers t)
      refine ⟨t :: listed, ?_, ?_⟩
      · rw [run, pushTransfer, List.append_assoc, List.singleton_append]
      · rw [List.filter_cons_of_pos (Bool.and_eq_true_iff.mp taken).1]
        exact kept.cons_cons t
    · obtain ⟨listed, run, kept⟩ := foldl_includeUnconfirmed_sublist l transfers
      exact ⟨listed, run, kept.trans (List.Sublist.filter _ (List.sublist_cons_self t l))⟩

/-- `getOutputs` lists visible available transfers, then visible unconfirmed ones. -/
theorem foldIncluded_sublist :
    (foldIncluded currency transactionSpendableAge safeTransactionSpendableAge now pushTransfer []
        flags s).1.Sublist
      (s.availableTransfers.filter (·.visible) ++ s.unconfirmedTransfers.filter (·.visible)) := by
  unfold foldIncluded
  obtain ⟨available, availableRun, availableKept⟩ := foldl_includeAvailable_sublist currency
    transactionSpendableAge safeTransactionSpendableAge now flags s s.availableTransfers [] s.safeTxes
  rw [List.nil_append] at availableRun
  simp only [availableRun]
  -- The unconfirmed transfers are walked only when the flags include them.
  split
  · obtain ⟨unconfirmed, unconfirmedRun, unconfirmedKept⟩ :=
      foldl_includeUnconfirmed_sublist flags s.unconfirmedTransfers available
    rw [unconfirmedRun]
    exact availableKept.append unconfirmedKept
  · exact availableKept.trans (List.sublist_append_left _ _)

end Counted

/-- The spent index being unique by descriptor, a key image has at most one spent transfer. -/
theorem length_spentOf_le_one {s : TransfersContainer} (consistent : Consistent s) (k : KeyImage) :
    (spentOf k s).length ≤ 1 := by
  rw [spentOf_eq, List.length_map]
  let spent := s.spentTransfers.filter fun t => hasKeyImage k t.toTransactionOutputInformationEx
  -- The spent records of `k` have pairwise distinct descriptors, all of them `k`'s.
  have unique : (spent.map (·.getSpentOutputDescriptor)).Nodup :=
    consistent.spentUnique.sublist (List.filter_sublist.map _)
  have allOfK : spent.map (·.getSpentOutputDescriptor) =
      List.replicate spent.length (.key k) := by
    refine List.eq_replicate_iff.mpr ⟨List.length_map _, fun d member => ?_⟩
    obtain ⟨t, record, rfl⟩ := List.mem_map.mp member
    have ofK := List.of_mem_filter record
    exact hasKeyImage_iff.mp ofK
  rw [allOfK] at unique
  exact List.nodup_replicate.mp unique

/-- A consistent container shows at most one transfer of a key image. -/
theorem length_shownOf_le_one {s : TransfersContainer} (consistent : Consistent s) (k : KeyImage) :
    (shownOf k s).length ≤ 1 := by
  have shown := consistent.shown k
  -- The three cases of `Shown`: a spent transfer, else available ones, else unconfirmed ones.
  by_cases noSpent : spentOf k s = []
  · by_cases noAvailable : availableOf k s = []
    · rw [shownOf, shown.shown_of_unconfirmed noSpent noAvailable]
      split
      · rename_i alone
        exact Nat.le_of_eq alone
      · exact Nat.zero_le _
    · obtain ⟨earliest, -, alone, -⟩ := shown.shown_of_available noSpent noAvailable
      simp only [shownOf, alone, List.length_singleton, Nat.le_refl]
  · rw [shownOf, shown.shown_of_spent noSpent]
    exact length_spentOf_le_one consistent k

section Shown

variable (currency : Currency) (transactionSpendableAge safeTransactionSpendableAge : Nat)

/-- `getOutputs` returns the list its loops build, leaving `m_safeTxes` as they left it. -/
theorem getOutputs_run (now : UInt64) (flags : UInt32) (s : TransfersContainer) :
    (getOutputs currency transactionSpendableAge safeTransactionSpendableAge now flags).run s =
      let listed := foldIncluded currency transactionSpendableAge safeTransactionSpendableAge now
        pushTransfer [] flags s
      .ok listed.1 { s with safeTxes := listed.2 } :=
  rfl

/-- `balance` returns the sum its loops build. -/
theorem balance_run (now : UInt64) (flags : UInt32) (s : TransfersContainer) :
    (balance currency transactionSpendableAge safeTransactionSpendableAge now flags).run s =
      let summed := foldIncluded currency transactionSpendableAge safeTransactionSpendableAge now
        (fun amount t => amount + t.amount) 0 flags s
      .ok summed.1 { s with safeTxes := summed.2 } :=
  rfl

/-- What `getOutputs` lists of a consistent container holds at most one transfer of a key image. -/
theorem length_filter_listed_le_one (now : UInt64) (flags : UInt32) {s : TransfersContainer}
    (consistent : Consistent s) (k : KeyImage) :
    ((foldIncluded currency transactionSpendableAge safeTransactionSpendableAge now pushTransfer []
      flags s).1.filter (hasKeyImage k)).length ≤ 1 := by
  have listed := (foldIncluded_sublist currency transactionSpendableAge
    safeTransactionSpendableAge now flags s).filter (hasKeyImage k)
  rw [List.filter_append, List.filter_comm (hasKeyImage k), List.filter_comm (hasKeyImage k)]
    at listed
  -- What is listed of `k` is among its visible transfers, which are what is shown of it.
  calc _ ≤ _ := listed.length_le
    _ ≤ (shownOf k s).length := by
      rw [shownOf, List.filter_append, List.filter_append, List.length_append, List.length_append,
        List.length_append]
      simp only [unconfirmedOf, availableOf]
      omega
    _ ≤ 1 := length_shownOf_le_one consistent k

/-- In every reachable container, the shown transfers of a key image are its spent transfer if it
has one; else one available transfer that no available one is earlier than; else its unconfirmed
transfer if it is alone. So at most one is shown, `getOutputs` lists at most one transfer of the key
image, and `balance` adds up the amounts of what `getOutputs` lists. -/
theorem transfers_shown_once {s : TransfersContainer}
    (reach : Reachable currency transactionSpendableAge safeTransactionSpendableAge s)
    (k : KeyImage) :
    (shownOf k s).length ≤ 1 ∧
    (spentOf k s ≠ [] → shownOf k s = spentOf k s) ∧
    (spentOf k s = [] → availableOf k s ≠ [] →
      ∃ earliest ∈ availableOf k s, shownOf k s = [earliest] ∧
        ∀ t ∈ availableOf k s, lessTIterator t earliest = false) ∧
    (spentOf k s = [] → availableOf k s = [] →
      shownOf k s = if (unconfirmedOf k s).length = 1 then unconfirmedOf k s else []) ∧
    ∀ now flags outputs afterOutputs amount afterBalance,
      (getOutputs currency transactionSpendableAge safeTransactionSpendableAge now flags).run s =
          .ok outputs afterOutputs →
      (balance currency transactionSpendableAge safeTransactionSpendableAge now flags).run s =
          .ok amount afterBalance →
      (outputs.filter (hasKeyImage k)).length ≤ 1 ∧
        amount = outputs.foldl (fun sum t => sum + t.amount) 0 := by
  have consistent := consistent_of_reachable currency transactionSpendableAge
    safeTransactionSpendableAge reach
  have shown := consistent.shown k
  refine ⟨length_shownOf_le_one consistent k, shown.shown_of_spent,
    shown.shown_of_available, shown.shown_of_unconfirmed, ?_⟩
  intro now flags outputs afterOutputs amount afterBalance listed summed
  rw [getOutputs_run, EStateM.Result.ok.injEq] at listed
  rw [balance_run, foldIncluded_eq_foldl, EStateM.Result.ok.injEq] at summed
  rw [← listed.1, ← summed.1]
  exact ⟨length_filter_listed_le_one currency transactionSpendableAge safeTransactionSpendableAge
    now flags consistent k, rfl⟩

/-- A key image of thirty-two zero bytes. -/
def zeroKeyImage : KeyImage := ⟨Vector.replicate 32 0⟩

/-- A transaction in the pool with no inputs. -/
def pendingTransaction : ITransactionReader :=
  { transactionHash := NULL_HASH, transactionPublicKey := ⟨Vector.replicate 32 0⟩, unlockTime := 0,
    inputTotalAmount := 0, outputTotalAmount := 5, extra := [], paymentId := none, inputs := [] }

/-- Its one output of ours: five units, still without a global index. -/
def pendingTransfer : TransactionOutputInformationIn :=
  { type := .key, amount := 5, globalOutputIndex := UNCONFIRMED_TRANSACTION_GLOBAL_OUTPUT_INDEX,
    outputInTransaction := 0, keyImage := zeroKeyImage }

/-- The block of a transaction in the pool. -/
def poolBlock : TransactionBlockInfo := ⟨WALLET_LEGACY_UNCONFIRMED_TRANSACTION_HEIGHT, 0, 0⟩

/-- A new container after it was given the pool transaction. -/
def pending : TransfersContainer :=
  ((addTransaction poolBlock pendingTransaction [pendingTransfer]).run empty).state

theorem pending_reachable :
    Reachable currency transactionSpendableAge safeTransactionSpendableAge pending :=
  .call (.addTransaction poolBlock pendingTransaction [pendingTransfer]) .empty

/-- The block at `height`, first in it. -/
def blockAt (height : UInt32) : TransactionBlockInfo := ⟨height, 0, 0⟩

/-- The transaction with no inputs whose id is thirty-two bytes `n`. -/
def payment (n : UInt8) : ITransactionReader :=
  { pendingTransaction with transactionHash := ⟨Vector.replicate 32 n⟩ }

/-- Five units to the zero key image, confirmed at global index `index`. -/
def paidTransfer (index : UInt32) : TransactionOutputInformationIn :=
  { pendingTransfer with globalOutputIndex := index }

/-- A new container paid two outputs of the zero key image, in blocks one and two. -/
def paidTwice : TransfersContainer :=
  ((addTransaction (blockAt 2) (payment 2) [paidTransfer 1]).run
    ((addTransaction (blockAt 1) (payment 1) [paidTransfer 0]).run empty).state).state

theorem paidTwice_reachable :
    Reachable currency transactionSpendableAge safeTransactionSpendableAge paidTwice :=
  .call (.addTransaction (blockAt 2) (payment 2) [paidTransfer 1])
    (.call (.addTransaction (blockAt 1) (payment 1) [paidTransfer 0]) .empty)

/-- Of the two available transfers of one key image, one is shown: the earliest. -/
theorem transfers_shown_once_on_paid_twice :
    spentOf zeroKeyImage paidTwice = [] ∧ (availableOf zeroKeyImage paidTwice).length = 2 ∧
      ∃ earliest ∈ availableOf zeroKeyImage paidTwice, shownOf zeroKeyImage paidTwice = [earliest] ∧
        ∀ t ∈ availableOf zeroKeyImage paidTwice, lessTIterator t earliest = false :=
  ⟨by decide, by decide, (transfers_shown_once defaultCurrency 0 0
    (paidTwice_reachable defaultCurrency 0 0) zeroKeyImage).2.2.1 (by decide) (by decide)⟩

end Shown

end TransfersContainer

end CryptoNote
