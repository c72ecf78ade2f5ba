import Qwertycoin.Core.RingOffsets
import Qwertycoin.Lib.IndexedList

/-!
The rings `WalletGreen::prepareInputs` builds for the transfers a transaction spends: the node's
reply of random outputs of the same amount, sorted by global index, the transfer's own index
skipped, taken until there are `mixIn` of them; then the real output inserted in front of the first
fake whose index is not smaller. Each ring comes out strictly increasing, with the real output once
at the position recorded for it, and the fakes the smallest entries of the reply
(`prepareInputs_rings`); so its relative offsets pass `check_tx_inputs_keyimages_diff`.
-/

namespace CryptoNote

/-- `COMMAND_RPC_GET_RANDOM_OUTPUTS_FOR_AMOUNTS::out_entry`. -/
structure OutEntry where
  globalAmountIndex : UInt64
  outKey : PublicKey
deriving DecidableEq, Repr

/-- `COMMAND_RPC_GET_RANDOM_OUTPUTS_FOR_AMOUNTS::outs_for_amount`. -/
structure OutsForAmount where
  amount : UInt64
  outs : List OutEntry
deriving DecidableEq, Repr

/-- `TransactionTypes::GlobalOutput`: a ring member. -/
structure GlobalOutput where
  targetKey : PublicKey
  outputIndex : UInt32
deriving DecidableEq, Repr

/-- `TransactionTypes::OutputKeyInfo`: where the real output is, in its transaction and in the
ring. -/
structure OutputKeyInfo where
  transactionPublicKey : PublicKey
  transactionIndex : Nat
  outputInTransaction : Nat
deriving DecidableEq, Repr

/-- `TransactionTypes::InputKeyInfo`: an input's amount, ring and real output. -/
structure InputKeyInfo where
  amount : UInt64
  outputs : List GlobalOutput
  realOutput : OutputKeyInfo
deriving DecidableEq, Repr

/-- `TransactionOutputInformation`, the fields the wallet reads of an output it owns. -/
structure TransactionOutputInformation where
  amount : UInt64
  globalOutputIndex : UInt32
  outputInTransaction : UInt32
  transactionPublicKey : PublicKey
  outputKey : PublicKey
deriving DecidableEq, Repr

/-- `WalletGreen::OutputToTransfer`: an output and the wallet that owns it. -/
structure OutputToTransfer (WalletRecord : Type) where
  out : TransactionOutputInformation
  wallet : WalletRecord

/-- `WalletGreen::InputInfo`. -/
structure InputInfo (WalletRecord : Type) where
  keyInfo : InputKeyInfo
  walletRecord : WalletRecord

namespace WalletGreen

/-- The `std::sort` of a reply by global index. -/
def sortOuts (outs : List OutEntry) : List OutEntry :=
  outs.mergeSort fun a b => decide (a.globalAmountIndex ≤ b.globalAmountIndex)

/-- A reply entry as a ring member; the index is cast to `uint32_t`. -/
def fakeOutput (fakeOut : OutEntry) : GlobalOutput :=
  ⟨fakeOut.outKey, fakeOut.globalAmountIndex.toUInt32⟩

/-- The loop over the sorted reply: the real output's own index is skipped, every other entry is
pushed, and the loop stops once the ring holds `mixIn`, checked after each push. -/
def takeFakes (globalOutputIndex : UInt32) (mixIn : UInt64) :
    List GlobalOutput → List OutEntry → List GlobalOutput
  | outputs, [] => outputs
  | outputs, fakeOut :: rest =>
    if globalOutputIndex.toUInt64 = fakeOut.globalAmountIndex then
      takeFakes globalOutputIndex mixIn outputs rest
    else
      let outputs := outputs ++ [fakeOutput fakeOut]
      if mixIn.toNat ≤ outputs.length then outputs
      else takeFakes globalOutputIndex mixIn outputs rest

/-- The fakes of the `i`-th ring: taken from the `i`-th reply, sorted, when there is a reply at
all. -/
def fakeOutputs (mixinResult : List OutsForAmount) (mixIn : UInt64) (i : Nat)
    (globalOutputIndex : UInt32) : List GlobalOutput :=
  if mixinResult.length ≠ 0 then
    takeFakes globalOutputIndex mixIn [] (sortOuts (mixinResult.getD i ⟨0, []⟩).outs)
  else []

/-- One round of `prepareInputs`: the ring of the `i`-th transfer. The real output goes in front of
the first fake whose index is not below its own, and its position is recorded. -/
def prepareInput {WalletRecord : Type} (mixinResult : List OutsForAmount) (mixIn : UInt64)
    (i : Nat) (input : OutputToTransfer WalletRecord) : InputInfo WalletRecord :=
  let fakes := fakeOutputs mixinResult mixIn i input.out.globalOutputIndex
  let insertIn := fakes.findIdx fun a => decide (input.out.globalOutputIndex ≤ a.outputIndex)
  let realOutput : GlobalOutput := ⟨input.out.outputKey, input.out.globalOutputIndex⟩
  { keyInfo :=
      { amount := input.out.amount
        outputs := fakes.take insertIn ++ realOutput :: fakes.drop insertIn
        realOutput :=
          ⟨input.out.transactionPublicKey, insertIn, input.out.outputInTransaction.toNat⟩ }
    walletRecord := input.wallet }

/-- `prepareInputs(selectedTransfers, mixinResult, mixIn, keysInfo)`: one input per transfer, in
the transfers' order. -/
def prepareInputs {WalletRecord : Type} (selectedTransfers : List (OutputToTransfer WalletRecord))
    (mixinResult : List OutsForAmount) (mixIn : UInt64) : List (InputInfo WalletRecord) :=
  selectedTransfers.mapIdx (prepareInput mixinResult mixIn)

/-! ### The fakes taken -/

/-- The reply's entries other than the real output's own, as ring members. -/
def candidates (globalOutputIndex : UInt32) (outs : List OutEntry) : List GlobalOutput :=
  (outs.filter fun fakeOut => globalOutputIndex.toUInt64 ≠ fakeOut.globalAmountIndex).map fakeOutput

/-- While the ring is short of `mixIn`, the loop takes the candidates in order until it has
`mixIn`. -/
theorem takeFakes_eq (globalOutputIndex : UInt32) (mixIn : UInt64) :
    ∀ (outputs : List GlobalOutput) (outs : List OutEntry), outputs.length < mixIn.toNat →
      takeFakes globalOutputIndex mixIn outputs outs =
        outputs ++ (candidates globalOutputIndex outs).take (mixIn.toNat - outputs.length)
  | outputs, [], _ => by simp [takeFakes, candidates]
  | outputs, fakeOut :: rest, short => by
    rw [takeFakes]
    by_cases own : globalOutputIndex.toUInt64 = fakeOut.globalAmountIndex
    · -- The real output's own entry is skipped.
      rw [if_pos own, takeFakes_eq globalOutputIndex mixIn outputs rest short]
      simp [candidates, own]
    · rw [if_neg own]
      have pushed : candidates globalOutputIndex (fakeOut :: rest) =
          fakeOutput fakeOut :: candidates globalOutputIndex rest := by
        simp [candidates, own]
      dsimp only
      rw [pushed, List.length_append, List.length_singleton]
      by_cases full : mixIn.toNat ≤ outputs.length + 1
      · -- The push filled the ring.
        rw [if_pos full, show mixIn.toNat - outputs.length = 1 by omega]
        rfl
      · rw [if_neg full, takeFakes_eq globalOutputIndex mixIn _ rest (by simp; omega),
          List.length_append, List.length_singleton, List.append_assoc,
          show mixIn.toNat - outputs.length = (mixIn.toNat - (outputs.length + 1)) + 1 by omega,
          List.take_succ_cons]
        rfl

/-! ### A reply with distinct indexes below `2^32` -/

section Reply

variable {outs : List OutEntry}
  (distinct : (outs.map (·.globalAmountIndex)).Nodup)
  (small : ∀ fakeOut ∈ outs, fakeOut.globalAmountIndex.toNat < 2 ^ 32)

/-- A ring member's index is the entry's, as the cast does not wrap below `2^32`. -/
theorem outputIndex_fakeOutput {fakeOut : OutEntry} (fits : fakeOut.globalAmountIndex.toNat < 2 ^ 32) :
    (fakeOutput fakeOut).outputIndex.toNat = fakeOut.globalAmountIndex.toNat := by
  rw [fakeOutput, UInt64.toNat_toUInt32, Nat.mod_eq_of_lt fits]

include distinct in
/-- Sorting a reply with distinct indexes orders it strictly by index. -/
theorem sortOuts_increasing :
    ((sortOuts outs).map (·.globalAmountIndex.toNat)).Pairwise (· < ·) := by
  have sorted := @List.pairwise_mergeSort _
    (fun a b : OutEntry => decide (a.globalAmountIndex ≤ b.globalAmountIndex))
    (fun _ _ _ first second => decide_eq_true (UInt64.le_trans (of_decide_eq_true first)
      (of_decide_eq_true second)))
    (fun a b => by
      rcases UInt64.le_total a.globalAmountIndex b.globalAmountIndex with le | ge
      · simp [le]
      · simp [ge]) outs
  -- No two entries share an index, so the order is strict.
  have apart : ((sortOuts outs).map (·.globalAmountIndex)).Nodup :=
    ((List.mergeSort_perm outs _).map _).nodup_iff.mpr distinct
  rw [List.Nodup, List.pairwise_map] at apart
  rw [List.pairwise_map]
  exact (sorted.and apart).imp fun ⟨le, ne⟩ => by
    have le' := UInt64.le_iff_toNat_le.mp (of_decide_eq_true le)
    have ne' : _ ≠ _ := fun same => ne (UInt64.toNat_inj.mp same)
    omega

theorem mem_sortOuts {fakeOut : OutEntry} : fakeOut ∈ sortOuts outs ↔ fakeOut ∈ outs :=
  (List.mergeSort_perm outs _).mem_iff

theorem candidates_sortOuts_perm (g : UInt32) :
    (candidates g (sortOuts outs)).Perm (candidates g outs) :=
  ((List.mergeSort_perm outs _).filter _).map _

include small in
/-- The ring members taken from the reply keep the entries' indexes. -/
theorem candidates_keys (g : UInt32) :
    (candidates g outs).map (·.outputIndex.toNat) =
      (outs.filter fun fakeOut => g.toUInt64 ≠ fakeOut.globalAmountIndex).map
        (·.globalAmountIndex.toNat) := by
  rw [candidates, List.map_map]
  exact List.map_congr_left fun fakeOut member =>
    outputIndex_fakeOutput (small fakeOut (List.mem_of_mem_filter member))

include small in
/-- No ring member taken from the reply has the real output's index. -/
theorem candidates_fresh (g : UInt32) :
    ∀ x ∈ candidates g outs, x.outputIndex.toNat ≠ g.toNat := by
  intro x member
  obtain ⟨fakeOut, kept, rfl⟩ := List.mem_map.mp member
  rw [List.mem_filter, decide_eq_true_iff] at kept
  rw [outputIndex_fakeOutput (small _ kept.1)]
  intro same
  exact kept.2 (UInt64.toNat_inj.mp (by rw [UInt32.toNat_toUInt64]; omega))

include distinct small in
/-- The sorted reply's ring members come in strictly increasing index order. -/
theorem candidates_sortOuts_increasing (g : UInt32) :
    ((candidates g (sortOuts outs)).map (·.outputIndex.toNat)).Pairwise (· < ·) := by
  rw [candidates_keys (fun fakeOut member => small fakeOut (mem_sortOuts.mp member))]
  exact (sortOuts_increasing distinct).sublist (List.filter_sublist.map _)

end Reply

/-! ### The rings -/

/-- With `mixIn` at least one, or no reply at all, the fakes are the first `mixIn` ring members of
the sorted reply. -/
theorem fakeOutputs_eq {mixinResult : List OutsForAmount} {mixIn : UInt64} (i : Nat) (g : UInt32)
    (positive : mixinResult = [] ∨ 1 ≤ mixIn.toNat) :
    fakeOutputs mixinResult mixIn i g =
      (candidates g (sortOuts (mixinResult.getD i ⟨0, []⟩).outs)).take mixIn.toNat := by
  rcases mixinResult with _ | ⟨reply, replies⟩
  · simp [fakeOutputs, sortOuts, candidates]
  · have positive : 1 ≤ mixIn.toNat := by simpa using positive
    rw [fakeOutputs, if_pos (by simp), takeFakes_eq g mixIn [] _ (by simp; omega)]
    simp

/-- What the ring built for the output `out` from the reply `outs` is: strictly increasing, the real
output once and at the position recorded for it, and around it the smallest `mixIn` ring members of
the reply; so its relative offsets are nonzero after the first. -/
structure RingSpec (mixIn : UInt64) (out : TransactionOutputInformation) (outs : List OutEntry)
    (keyInfo : InputKeyInfo) : Prop where
  increasing : (keyInfo.outputs.map (·.outputIndex.toNat)).Pairwise (· < ·)
  real_at : keyInfo.outputs[keyInfo.realOutput.transactionIndex]? =
    some ⟨out.outputKey, out.globalOutputIndex⟩
  real_once : (keyInfo.outputs.filter (·.outputIndex = out.globalOutputIndex)).length = 1
  fakes_count : (keyInfo.outputs.eraseIdx keyInfo.realOutput.transactionIndex).length =
    min mixIn.toNat (candidates out.globalOutputIndex outs).length
  fakes_from_reply : ∀ x ∈ keyInfo.outputs.eraseIdx keyInfo.realOutput.transactionIndex,
    x ∈ candidates out.globalOutputIndex outs
  fakes_smallest : ∀ c ∈ candidates out.globalOutputIndex outs,
    c ∉ keyInfo.outputs.eraseIdx keyInfo.realOutput.transactionIndex →
      ∀ x ∈ keyInfo.outputs.eraseIdx keyInfo.realOutput.transactionIndex,
        x.outputIndex.toNat < c.outputIndex.toNat
  offsets : OffsetsNonzeroAfterFirst
    (absoluteOutputOffsetsToRelative (keyInfo.outputs.map (·.outputIndex)))

/-- Inserting a member whose index none of the others has leaves it the only one with that
index. -/
theorem filter_insert_eq_singleton {fakes : List GlobalOutput} {real : GlobalOutput} (n : Nat)
    (fresh : ∀ x ∈ fakes, x.outputIndex.toNat ≠ real.outputIndex.toNat) :
    (fakes.take n ++ real :: fakes.drop n).filter (·.outputIndex = real.outputIndex) = [real] := by
  have others : ∀ x ∈ fakes, decide (x.outputIndex = real.outputIndex) = false := fun x member =>
    decide_eq_false fun same => fresh x member (congrArg UInt32.toNat same)
  rw [List.filter_append, List.filter_cons_of_pos (by simp),
    List.filter_eq_nil_iff.mpr fun x member => by
      simp [others x (List.mem_of_mem_take member)],
    List.filter_eq_nil_iff.mpr fun x member => by
      simp [others x (List.mem_of_mem_drop member)]]
  rfl

/-- The ring of one transfer meets `RingSpec` against its reply, when the reply's indexes are
distinct and below `2^32` and `mixIn` is at least one (or there is no reply). -/
theorem prepareInput_ring {WalletRecord : Type} {mixinResult : List OutsForAmount} {mixIn : UInt64}
    (i : Nat) (input : OutputToTransfer WalletRecord)
    (distinct : ((mixinResult.getD i ⟨0, []⟩).outs.map (·.globalAmountIndex)).Nodup)
    (small : ∀ fakeOut ∈ (mixinResult.getD i ⟨0, []⟩).outs,
      fakeOut.globalAmountIndex.toNat < 2 ^ 32)
    (positive : mixinResult = [] ∨ 1 ≤ mixIn.toNat) :
    RingSpec mixIn input.out (mixinResult.getD i ⟨0, []⟩).outs
      (prepareInput mixinResult mixIn i input).keyInfo := by
  unfold prepareInput
  dsimp only
  set outs := (mixinResult.getD i ⟨0, []⟩).outs
  set g := input.out.globalOutputIndex
  have fakesEq := fakeOutputs_eq i g positive
  set fakes := fakeOutputs mixinResult mixIn i g
  set real : GlobalOutput := ⟨input.out.outputKey, g⟩
  set insertIn := fakes.findIdx fun a => decide (g ≤ a.outputIndex)
  -- The fakes are a prefix of the sorted reply's ring members, so they inherit its order.
  have sortedIncreasing := candidates_sortOuts_increasing distinct small g
  have fromReply : ∀ x ∈ fakes, x ∈ candidates g outs := fun x member =>
    (candidates_sortOuts_perm g).mem_iff.mp (List.mem_of_mem_take (fakesEq ▸ member))
  have increasing : (fakes.map (·.outputIndex.toNat)).Pairwise (· < ·) := by
    rw [fakesEq]
    exact sortedIncreasing.sublist ((List.take_sublist _ _).map _)
  have fresh : ∀ x ∈ fakes, x.outputIndex.toNat ≠ g.toNat := fun x member =>
    candidates_fresh small g x (fromReply x member)
  have ringIncreasing := @List.pairwise_insert_findIdx _ (fun a => decide (g ≤ a.outputIndex)) real
    fakes (·.outputIndex.toNat) (fun x => by simp [real, UInt32.le_iff_toNat_le]) increasing fresh
  have erased : (fakes.take insertIn ++ real :: fakes.drop insertIn).eraseIdx insertIn = fakes :=
    List.eraseIdx_insert_findIdx
  refine
    { increasing := ringIncreasing
      real_at := List.getElem_insert_findIdx
      real_once := congrArg List.length (@filter_insert_eq_singleton fakes real insertIn fresh)
      fakes_count := ?_
      fakes_from_reply := ?_
      fakes_smallest := ?_
      offsets := ?_ }
  · rw [erased, fakesEq, List.length_take, (candidates_sortOuts_perm g).length_eq]
  · rw [erased]
    exact fromReply
  · -- A reply member left out comes after every fake in the sorted order.
    rw [erased]
    intro c member left x taken
    rw [fakesEq] at left taken
    exact List.key_lt_of_mem_take _ sortedIncreasing _
      ((candidates_sortOuts_perm g).mem_iff.mpr member) left taken
  · apply absoluteOutputOffsetsToRelative_nonzero
    rw [List.pairwise_map]
    exact (List.pairwise_map.mp ringIncreasing).imp UInt32.lt_iff_toNat_lt.mpr

/-- `prepareInputs` makes one input per transfer, in the transfers' order, and each ring meets
`RingSpec` against the transfer's own reply, when every reply has distinct indexes below `2^32` and
`mixIn` is at least one (or there is no reply). -/
theorem prepareInputs_rings {WalletRecord : Type}
    (selectedTransfers : List (OutputToTransfer WalletRecord)) (mixinResult : List OutsForAmount)
    (mixIn : UInt64)
    (distinct : ∀ reply ∈ mixinResult, (reply.outs.map (·.globalAmountIndex)).Nodup)
    (small : ∀ reply ∈ mixinResult, ∀ fakeOut ∈ reply.outs,
      fakeOut.globalAmountIndex.toNat < 2 ^ 32)
    (positive : mixinResult = [] ∨ 1 ≤ mixIn.toNat) :
    (prepareInputs selectedTransfers mixinResult mixIn).length = selectedTransfers.length ∧
      ∀ i (t : OutputToTransfer WalletRecord), selectedTransfers[i]? = some t →
        ∃ info, (prepareInputs selectedTransfers mixinResult mixIn)[i]? = some info ∧
          info.walletRecord = t.wallet ∧ info.keyInfo.amount = t.out.amount ∧
          RingSpec mixIn t.out (mixinResult.getD i ⟨0, []⟩).outs info.keyInfo := by
  refine ⟨List.length_mapIdx, fun i t selected =>
    ⟨prepareInput mixinResult mixIn i t, ?_, rfl, rfl, ?_⟩⟩
  · rw [prepareInputs, List.getElem?_mapIdx, selected]
    rfl
  -- The `i`-th reply is one of the list, or the empty default past its end.
  have reply : mixinResult.getD i ⟨0, []⟩ ∈ mixinResult ∨
      mixinResult.getD i ⟨0, []⟩ = ⟨0, []⟩ := by
    rw [List.getD_eq_getElem?_getD]
    cases entry : mixinResult[i]? with
    | none => exact Or.inr rfl
    | some found => exact Or.inl (List.mem_of_getElem? entry)
  apply prepareInput_ring i t _ _ positive
  · rcases reply with member | default
    · exact distinct _ member
    · rw [default]
      exact List.nodup_nil
  · rcases reply with member | default
    · exact small _ member
    · rw [default]
      simp

/-- A reply of four outputs, the transfer's own among them, gives a ring of the two smallest
others around the real output. -/
theorem prepareInputs_rings_on_four_outs :
    let key : PublicKey := ⟨Vector.replicate 32 0⟩
    let transfer : OutputToTransfer Unit := ⟨⟨10, 5, 0, key, key⟩, ()⟩
    let reply : OutsForAmount := ⟨10, [⟨7, key⟩, ⟨5, key⟩, ⟨2, key⟩, ⟨9, key⟩]⟩
    (∀ r ∈ [reply], (r.outs.map (·.globalAmountIndex)).Nodup) ∧
      (∀ r ∈ [reply], ∀ fakeOut ∈ r.outs, fakeOut.globalAmountIndex.toNat < 2 ^ 32) ∧
      ([reply] = [] ∨ 1 ≤ (2 : UInt64).toNat) ∧
      ∃ info, (prepareInputs [transfer] [reply] 2)[0]? = some info ∧
        RingSpec 2 transfer.out reply.outs info.keyInfo := by
  intro key transfer reply
  have distinct : ∀ r ∈ [reply], (r.outs.map (·.globalAmountIndex)).Nodup := by decide
  have small : ∀ r ∈ [reply], ∀ fakeOut ∈ r.outs, fakeOut.globalAmountIndex.toNat < 2 ^ 32 := by
    decide
  have positive : [reply] = [] ∨ 1 ≤ (2 : UInt64).toNat := by decide
  obtain ⟨-, rings⟩ := prepareInputs_rings [transfer] [reply] 2 distinct small positive
  obtain ⟨info, found, -, -, spec⟩ := rings 0 transfer rfl
  exact ⟨distinct, small, positive, info, found, spec⟩

end WalletGreen

end CryptoNote
