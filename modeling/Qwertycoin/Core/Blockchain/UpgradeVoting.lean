import Qwertycoin.Core.Blockchain.Run

/-!
The voting height of an upgrade detector against the chain it watches. A detector whose upgrade is
left to voting tests only the newest height on a push and forgets its voting height only when the
block at that height is popped. Beside a chain changed by pushes and pops that tell it, this keeps
its voting height the first height at which voting is complete (`votingHeightAgrees_of_run`), since
a height's votes read only the blocks up to it.

`Blockchain::rollbackBlockchainTo`, which `core::rollbackBlockchain` calls, removes blocks without
telling the detectors, so the voting height outlives the block it names
(`rollbackBlockchainTo_keeps_voting_height`).
-/

namespace CryptoNote

namespace UpgradeDetector

variable (currency : Currency)

section Votes

variable {blocks : List BlockEntry} {d d' : UpgradeDetector}

/-- The votes a height counts read the detector only for its target version. -/
theorem isVotingComplete_congr (same : d'.targetVersion = d.targetVersion) (height : Nat) :
    isVotingComplete currency blocks d' height = isVotingComplete currency blocks d height := by
  have votes : isVote d' = isVote d := by
    funext entry
    simp [isVote, same]
  simp [isVotingComplete, getNumberOfVotes, votes]

/-- The votes a height counts read only the blocks up to it. -/
theorem isVotingComplete_append {height : Nat} (within : height < blocks.length)
    (more : List BlockEntry) :
    isVotingComplete currency (blocks ++ more) d height = isVotingComplete currency blocks d height := by
  simp only [isVotingComplete, getNumberOfVotes]
  split
  · rfl
  · -- The window ends at `height`, inside the blocks before `more`.
    rename_i full
    rw [List.drop_append_of_le_length (by omega),
      List.take_append_of_le_length (by rw [List.length_drop]; omega)]

end Votes

/-- A detector beside the chain it watches. -/
structure Watch where
  blocks : List BlockEntry
  detector : UpgradeDetector

/-- A block pushed and `blockPushed` run, or the top block popped and `blockPopped` run. A height is
a `uint32_t` below `UNDEF_HEIGHT`, which bounds the chain. -/
inductive Step : Watch → Watch → Prop
  | push (blocks : List BlockEntry) (d d' : UpgradeDetector) (block : BlockEntry)
      (short : blocks.length + 1 < UNDEF_HEIGHT.toNat)
      (pushed : blockPushed currency (blocks ++ [block]) d = .ok d') :
      Step ⟨blocks, d⟩ ⟨blocks ++ [block], d'⟩
  | pop (blocks : List BlockEntry) (d : UpgradeDetector) (block : BlockEntry) :
      Step ⟨blocks ++ [block], d⟩ ⟨blocks, blockPopped blocks d⟩

/-- The voting height is the first height of the chain at which voting is complete, and
`UNDEF_HEIGHT` when there is none; the chain's heights lie below `UNDEF_HEIGHT`. -/
def VotingHeightAgrees (w : Watch) : Prop :=
  w.blocks.length < UNDEF_HEIGHT.toNat ∧
  ((w.detector.votingCompleteHeight = UNDEF_HEIGHT ∧
      ∀ h < w.blocks.length, isVotingComplete currency w.blocks w.detector h = false) ∨
    ∃ h < w.blocks.length, w.detector.votingCompleteHeight = UInt32.ofNat h ∧
      isVotingComplete currency w.blocks w.detector h = true ∧
      ∀ h' < h, isVotingComplete currency w.blocks w.detector h' = false)

private theorem toNat_undef : UNDEF_HEIGHT.toNat = 4294967295 := rfl

/-- A height below `UNDEF_HEIGHT` is a `uint32_t` other than it. -/
private theorem ofNat_ne_undef {h : Nat} (small : h < UNDEF_HEIGHT.toNat) :
    UInt32.ofNat h ≠ UNDEF_HEIGHT := by
  rw [toNat_undef] at small
  intro same
  have := congrArg UInt32.toNat same
  rw [UInt32.toNat_ofNat', Nat.mod_eq_of_lt (by omega), toNat_undef] at this
  omega

/-- A push keeps the voting height the first complete one: a detector still voting tests the new
height, which is the first if voting is complete there; one whose voting completed keeps its height,
whose votes the push does not change. -/
theorem votingHeightAgrees_push {blocks : List BlockEntry} {d d' : UpgradeDetector}
    {block : BlockEntry} (voting : currency.upgradeHeight d.targetVersion = UNDEF_HEIGHT)
    (short : blocks.length + 1 < UNDEF_HEIGHT.toNat)
    (agrees : VotingHeightAgrees currency ⟨blocks, d⟩)
    (pushed : blockPushed currency (blocks ++ [block]) d = .ok d') :
    VotingHeightAgrees currency ⟨blocks ++ [block], d'⟩ := by
  have same := blockPushed_targetVersion currency (blocks ++ [block]) d pushed
  have lengthAfter : (blocks ++ [block]).length = blocks.length + 1 := by simp
  -- Below the new height, the votes are those before the push.
  have before : ∀ h < blocks.length,
      isVotingComplete currency (blocks ++ [block]) d' h = isVotingComplete currency blocks d h :=
    fun h within => by rw [isVotingComplete_congr currency same, isVotingComplete_append currency within]
  unfold VotingHeightAgrees at agrees ⊢
  dsimp only at agrees ⊢
  refine ⟨by rw [lengthAfter]; exact short, ?_⟩
  obtain ⟨-, ⟨undefined, none⟩ | ⟨h, within, height, complete, first⟩⟩ := agrees
  · -- Still voting: the push tests the new top.
    simp only [blockPushed, voting, ne_eq, not_true_eq_false, if_false, undefined] at pushed
    by_cases completeTop : isVotingComplete currency (blocks ++ [block]) d blocks.length = true
    · simp only [lengthAfter, Nat.add_sub_cancel, completeTop, if_true, pure, Except.pure,
        Except.ok.injEq] at pushed
      subst pushed
      refine .inr ⟨blocks.length, by rw [lengthAfter]; omega, rfl, completeTop, fun h' below => ?_⟩
      rw [before h' below]
      exact none h' below
    · simp only [lengthAfter, Nat.add_sub_cancel, completeTop, Bool.false_eq_true, if_false, pure,
        Except.pure, Except.ok.injEq] at pushed
      subst pushed
      refine .inl ⟨undefined, fun h' below => ?_⟩
      rw [lengthAfter] at below
      by_cases top : h' = blocks.length
      · subst top
        simpa using completeTop
      · rw [before h' (by omega)]
        exact none h' (by omega)
  · -- Voting completed: the detector only logs, and its height keeps its votes.
    have set : d.votingCompleteHeight ≠ UNDEF_HEIGHT := by
      rw [height]
      exact ofNat_ne_undef (by omega)
    simp only [blockPushed, voting, ne_eq, not_true_eq_false, if_false, set, not_false_eq_true,
      if_true] at pushed
    split at pushed
    · cases pushed
    · simp only [pure, Except.pure, Except.ok.injEq] at pushed
      subst pushed
      refine .inr ⟨h, by rw [lengthAfter]; omega, height, ?_, fun h' below => ?_⟩
      · rw [before h within]
        exact complete
      · rw [before h' (by omega)]
        exact first h' below

/-- A pop keeps the voting height the first complete one: popping the block at the voting height
forgets it, and below it no height was complete. -/
theorem votingHeightAgrees_pop {blocks : List BlockEntry} {d : UpgradeDetector}
    {block : BlockEntry} (agrees : VotingHeightAgrees currency ⟨blocks ++ [block], d⟩) :
    VotingHeightAgrees currency ⟨blocks, blockPopped blocks d⟩ := by
  have sameTarget : (blockPopped blocks d).targetVersion = d.targetVersion := by
    unfold blockPopped
    split <;> rfl
  have lengthAfter : (blocks ++ [block]).length = blocks.length + 1 := by simp
  -- Below the removed height, the votes are those before the pop.
  have before : ∀ h < blocks.length,
      isVotingComplete currency blocks (blockPopped blocks d) h =
        isVotingComplete currency (blocks ++ [block]) d h :=
    fun h within => by
      rw [isVotingComplete_congr currency sameTarget, isVotingComplete_append currency within]
  unfold VotingHeightAgrees at agrees ⊢
  dsimp only at agrees ⊢
  obtain ⟨short, ⟨undefined, none⟩ | ⟨h, within, height, complete, first⟩⟩ := agrees
  · refine ⟨by omega, .inl ⟨by simp [blockPopped, undefined], fun h' below => ?_⟩⟩
    rw [before h' below]
    exact none h' (by rw [lengthAfter]; omega)
  · rw [lengthAfter] at short within
    have heightNat : d.votingCompleteHeight.toNat = h := by
      rw [toNat_undef] at short
      rw [height, UInt32.toNat_ofNat', Nat.mod_eq_of_lt (by omega)]
    have set : d.votingCompleteHeight ≠ UNDEF_HEIGHT := by
      rw [height]
      exact ofNat_ne_undef (by omega)
    refine ⟨by omega, ?_⟩
    by_cases removed : blocks.length = h
    · -- The block at the voting height is gone: the detector forgets it.
      have forgotten : blockPopped blocks d = { d with votingCompleteHeight := UNDEF_HEIGHT } := by
        simp [blockPopped, set, heightNat, removed]
      refine .inl ⟨by rw [forgotten], fun h' below => ?_⟩
      rw [before h' below]
      exact first h' (by omega)
    · have kept : blockPopped blocks d = d := by
        simp [blockPopped, heightNat, removed]
      refine .inr ⟨h, by omega, by rw [kept]; exact height, ?_, fun h' below => ?_⟩
      · rw [before h (by omega)]
        exact complete
      · rw [before h' (by omega)]
        exact first h' below

/-- One step keeps the voting height the first complete one, and the target version. -/
theorem votingHeightAgrees_step {w w' : Watch} (step : Step currency w w')
    (voting : currency.upgradeHeight w.detector.targetVersion = UNDEF_HEIGHT)
    (agrees : VotingHeightAgrees currency w) :
    VotingHeightAgrees currency w' ∧ w'.detector.targetVersion = w.detector.targetVersion := by
  cases step with
  | push blocks d d' block short pushed =>
    exact ⟨votingHeightAgrees_push currency voting short agrees pushed,
      blockPushed_targetVersion currency _ d pushed⟩
  | pop blocks d block =>
    refine ⟨votingHeightAgrees_pop currency agrees, ?_⟩
    show (blockPopped blocks d).targetVersion = d.targetVersion
    unfold blockPopped
    split <;> rfl

/-- From an empty chain and a detector that has seen no vote, every run of pushes and pops keeps the
detector's voting height the first height at which voting is complete. -/
theorem votingHeightAgrees_of_run {targetVersion : UInt8}
    (voting : currency.upgradeHeight targetVersion = UNDEF_HEIGHT) {w : Watch}
    (run : Relation.ReflTransGen (Step currency) ⟨[], ⟨targetVersion, UNDEF_HEIGHT⟩⟩ w) :
    VotingHeightAgrees currency w ∧ w.detector.targetVersion = targetVersion := by
  induction run with
  | refl =>
    have room : 0 < UNDEF_HEIGHT.toNat := by rw [toNat_undef]; decide
    exact ⟨⟨room, .inl ⟨rfl, fun h below => absurd below (Nat.not_lt_zero h)⟩⟩, rfl⟩
  | tail _ step ih =>
    obtain ⟨agrees, target⟩ := ih
    obtain ⟨agrees', target'⟩ := votingHeightAgrees_step currency step (by rw [target]; exact voting)
      agrees
    exact ⟨agrees', target'.trans target⟩

end UpgradeDetector

namespace Blockchain

/-- The fixed-difficulty node of `Run.lean` with the version-two upgrade left to voting, where one
vote in a window of two blocks completes it. -/
def votingCurrency : Currency :=
  { fixedDifficultyCurrency with
    upgradeHeightV2 := UNDEF_HEIGHT, upgradeVotingThreshold := 50, upgradeVotingWindow := 2 }

/-- The block a miner builds on `s`, with minor version one: a vote for version two. -/
def voteFor (s : Blockchain) : Call :=
  .pushBlock 0 { minedBlock s 0 [] with minorVersion := 1 }

/-- The genesis block, a block voting for version two, and a rollback to the genesis block. -/
def voteThenRollback : List (Blockchain → Call) :=
  [mine 0, voteFor, fun _ => .rollbackBlockchainTo 0]

/-- `rollbackBlockchainTo` does not tell the detectors: after voting completes at height one and the
chain is rolled back to the genesis block, the version-two detector still holds voting height one,
although no height of the chain completes voting and `init()` on the same blocks finds none. -/
theorem rollbackBlockchainTo_keeps_voting_height :
    ∃ s, Reachable votingCurrency acceptingPrimitives noCheckpoints s ∧
      s.blocks.length = 1 ∧ s.upgradeDetectorV2.votingCompleteHeight = 1 ∧
      (∀ h < s.blocks.length,
        UpgradeDetector.isVotingComplete votingCurrency s.blocks s.upgradeDetectorV2 h = false) ∧
      UpgradeDetector.init votingCurrency s.blocks s.upgradeDetectorV2 =
        some { s.upgradeDetectorV2 with votingCompleteHeight := UNDEF_HEIGHT } := by
  obtain ⟨s, reach, holds⟩ := exists_reachable_of_runCalls votingCurrency acceptingPrimitives
    noCheckpoints voteThenRollback
    (fun s => s.blocks.length == 1 && s.upgradeDetectorV2.votingCompleteHeight == 1 &&
      decide (∀ h < s.blocks.length,
        UpgradeDetector.isVotingComplete votingCurrency s.blocks s.upgradeDetectorV2 h = false) &&
      UpgradeDetector.init votingCurrency s.blocks s.upgradeDetectorV2 ==
        some { s.upgradeDetectorV2 with votingCompleteHeight := UNDEF_HEIGHT })
    (by decide +kernel)
  simp only [Bool.and_eq_true, beq_iff_eq, decide_eq_true_eq] at holds
  obtain ⟨⟨⟨length, height⟩, none⟩, recomputed⟩ := holds
  exact ⟨s, reach, length, height, none, recomputed⟩

end Blockchain

end CryptoNote
