import Qwertycoin.Core.Blockchain.State

/-!
`BasicUpgradeDetector` of `UpgradeDetector.h` over the main chain, and
`Blockchain::getBlockMajorVersionForHeight`, which asks the five detectors from the newest down.
-/

namespace CryptoNote

namespace UpgradeDetector

variable (currency : Currency) (blocks : List BlockEntry) (d : UpgradeDetector)

/-- `upgradeHeight()`: the configured height, or one upgrade window after voting completed. -/
def upgradeHeight : UInt32 :=
  if currency.upgradeHeight d.targetVersion = UNDEF_HEIGHT then
    if d.votingCompleteHeight = UNDEF_HEIGHT then UNDEF_HEIGHT
    else currency.calculateUpgradeHeight d.votingCompleteHeight
  else currency.upgradeHeight d.targetVersion

/-- A block votes for the target version: it has the version before it and minor version one. -/
def isVote (entry : BlockEntry) : Bool :=
  entry.bl.majorVersion.toNat + 1 = d.targetVersion.toNat ∧ entry.bl.minorVersion = 1

/-- `getNumberOfVotes(height)`: the votes among the `upgradeVotingWindow` blocks ending at `height`,
none before a full window exists. -/
def getNumberOfVotes (height : Nat) : Nat :=
  if height < currency.upgradeVotingWindow - 1 then 0
  else
    let window := (blocks.drop (height + 1 - currency.upgradeVotingWindow)).take
      currency.upgradeVotingWindow
    window.countP (isVote d)

/-- `isVotingComplete(height)`: at least `upgradeVotingThreshold` percent of the window voted. -/
def isVotingComplete (height : Nat) : Bool :=
  currency.upgradeVotingThreshold * currency.upgradeVotingWindow ≤
    getNumberOfVotes currency blocks d height * 100

/--
`blockPushed()`, run on the chain after the push. Only a detector still voting changes: it records
the new top as the height voting completed at. A detector whose voting completed only logs, but the
period of its log line, `60 * 60 / difficultyTarget()`, divides the height while it waits.
-/
def blockPushed : Except Fault UpgradeDetector :=
  if currency.upgradeHeight d.targetVersion ≠ UNDEF_HEIGHT then pure d
  else if d.votingCompleteHeight ≠ UNDEF_HEIGHT then
    if blocks.length ≤ (upgradeHeight currency d).toNat ∧ 3600 / currency.difficultyTarget.toNat = 0
    then throw .undefinedBehaviour
    else pure d
  else
    let lastBlockHeight := blocks.length - 1
    if isVotingComplete currency blocks d lastBlockHeight then
      pure { d with votingCompleteHeight := UInt32.ofNat lastBlockHeight }
    else pure d

/-- `blockPopped()`, run on the chain after the pop: voting that completed at the removed height is
forgotten. -/
def blockPopped : UpgradeDetector :=
  if d.votingCompleteHeight ≠ UNDEF_HEIGHT ∧ blocks.length = d.votingCompleteHeight.toNat then
    { d with votingCompleteHeight := UNDEF_HEIGHT }
  else d

/-- `findVotingCompleteHeight(probableUpgradeHeight)`: the first height, from `maxUpgradeDistance`
below the probable upgrade height up to it, at which voting is complete; `UNDEF_HEIGHT` if none. -/
def findVotingCompleteHeight (probableUpgradeHeight : UInt32) : UInt32 :=
  let probableVotingCompleteHeight :=
    if probableUpgradeHeight > currency.maxUpgradeDistance then
      probableUpgradeHeight - currency.maxUpgradeDistance
    else 0
  -- The loop's `size_t` counter runs up to the probable upgrade height included.
  let heights := List.range' probableVotingCompleteHeight.toNat
    (probableUpgradeHeight.toNat + 1 - probableVotingCompleteHeight.toNat)
  match heights.find? (isVotingComplete currency blocks d) with
  | some i => UInt32.ofNat i
  | none => UNDEF_HEIGHT

/-- `std::lower_bound` over the chain by major version, as the library runs it: halve the range
`count` entries from `first`, going right past each block older than `version`. One round of fuel
per block is enough, since each round shrinks the range. -/
def lowerBound (version : UInt8) : (fuel first count : Nat) → Nat
  | 0, first, _ => first
  | fuel + 1, first, count =>
    if count = 0 then first
    else
      let half := count / 2
      let middle := first + half
      if blocks[middle]?.any fun entry => entry.bl.majorVersion < version then
        lowerBound version fuel (middle + 1) (count - half - 1)
      else lowerBound version fuel first half

/--
`init()`: the detector set up from the chain as it is. With the upgrade left to voting, the voting
height is searched below the top block if that block still has the version before the target, and
below the first block of the target version if the upgrade has happened. With a configured height
only the versions around it are checked. `none` where the source returns `false`.
-/
def init : Option UpgradeDetector :=
  let upgradeHeight := currency.upgradeHeight d.targetVersion
  if upgradeHeight = UNDEF_HEIGHT then
    match blocks.getLast? with
    | none => some { d with votingCompleteHeight := UNDEF_HEIGHT }
    | some back =>
      -- `m_targetVersion - 1` is an `int`.
      if (d.targetVersion.toNat : Int) - 1 = back.bl.majorVersion.toNat then
        some { d with votingCompleteHeight :=
          findVotingCompleteHeight currency blocks d (UInt32.ofNat (blocks.length - 1)) }
      else if d.targetVersion ≤ back.bl.majorVersion then
        let uh := lowerBound blocks d.targetVersion blocks.length 0 blocks.length
        match blocks[uh]? with
        | none => none
        | some first =>
          if first.bl.majorVersion ≠ d.targetVersion then none
          else
            let votingCompleteHeight := findVotingCompleteHeight currency blocks d (UInt32.ofNat uh)
            if votingCompleteHeight = UNDEF_HEIGHT then none
            else some { d with votingCompleteHeight := votingCompleteHeight }
      else some { d with votingCompleteHeight := UNDEF_HEIGHT }
  else
    match blocks.getLast? with
    | none => some d
    | some back =>
      if blocks.length ≤ upgradeHeight.toNat + 1 then
        if back.bl.majorVersion ≥ d.targetVersion then none else some d
      else
        -- The chain is longer than the upgrade height plus one, so both reads are inside it.
        let atUpgrade := (blocks[upgradeHeight.toNat]?.map fun entry => entry.bl.majorVersion.toNat)
        let afterUpgrade :=
          (blocks[upgradeHeight.toNat + 1]?.map fun entry => entry.bl.majorVersion.toNat)
        if atUpgrade ≠ some (d.targetVersion.toNat - 1) then none
        else if afterUpgrade ≠ some d.targetVersion.toNat then none
        else some d

/-- With a configured upgrade height a push changes nothing. -/
theorem blockPushed_of_configured
    (configured : currency.upgradeHeight d.targetVersion ≠ UNDEF_HEIGHT) :
    blockPushed currency blocks d = .ok d := by
  simp [blockPushed, configured, pure, Except.pure]

/-- The target version never changes. -/
theorem blockPushed_targetVersion {d' : UpgradeDetector}
    (pushed : blockPushed currency blocks d = .ok d') :
    d'.targetVersion = d.targetVersion := by
  unfold blockPushed at pushed
  -- Every branch returns `d`, possibly with a new voting height, or stops.
  split at pushed
  · cases pushed; rfl
  split at pushed
  · split at pushed
    · cases pushed
    · cases pushed; rfl
  · dsimp only at pushed
    split at pushed
    · cases pushed; rfl
    · cases pushed; rfl

/-- With a configured upgrade height a pop changes nothing, since voting never completed. -/
theorem blockPopped_of_undefined (undefined : d.votingCompleteHeight = UNDEF_HEIGHT) :
    blockPopped blocks d = d := by
  simp [blockPopped, undefined]

end UpgradeDetector

namespace Blockchain

variable (currency : Currency)

/-- `getBlockMajorVersionForHeight`: the target of the newest detector whose upgrade height lies
below `height`, version one when there is none. -/
def getBlockMajorVersionForHeight (s : Blockchain) (height : UInt32) : UInt8 :=
  if height > s.upgradeDetectorV6.upgradeHeight currency then s.upgradeDetectorV6.targetVersion
  else if height > s.upgradeDetectorV5.upgradeHeight currency then s.upgradeDetectorV5.targetVersion
  else if height > s.upgradeDetectorV4.upgradeHeight currency then s.upgradeDetectorV4.targetVersion
  else if height > s.upgradeDetectorV3.upgradeHeight currency then s.upgradeDetectorV3.targetVersion
  else if height > s.upgradeDetectorV2.upgradeHeight currency then s.upgradeDetectorV2.targetVersion
  else 1

/-- The five detectors' `blockPushed`, after `m_blocks.push_back`, newest version last. -/
def detectorsBlockPushed : BlockchainM Unit := do
  let s ← get
  let v2 ← BlockchainM.ofExcept (s.upgradeDetectorV2.blockPushed currency s.blocks)
  let v3 ← BlockchainM.ofExcept (s.upgradeDetectorV3.blockPushed currency s.blocks)
  let v4 ← BlockchainM.ofExcept (s.upgradeDetectorV4.blockPushed currency s.blocks)
  let v5 ← BlockchainM.ofExcept (s.upgradeDetectorV5.blockPushed currency s.blocks)
  let v6 ← BlockchainM.ofExcept (s.upgradeDetectorV6.blockPushed currency s.blocks)
  set { s with
    upgradeDetectorV2 := v2, upgradeDetectorV3 := v3, upgradeDetectorV4 := v4,
    upgradeDetectorV5 := v5, upgradeDetectorV6 := v6 }

/-- The five detectors' `blockPopped`, after the last block was removed. -/
def detectorsBlockPopped (s : Blockchain) : Blockchain :=
  { s with
    upgradeDetectorV2 := s.upgradeDetectorV2.blockPopped s.blocks
    upgradeDetectorV3 := s.upgradeDetectorV3.blockPopped s.blocks
    upgradeDetectorV4 := s.upgradeDetectorV4.blockPopped s.blocks
    upgradeDetectorV5 := s.upgradeDetectorV5.blockPopped s.blocks
    upgradeDetectorV6 := s.upgradeDetectorV6.blockPopped s.blocks }

end Blockchain

end CryptoNote
