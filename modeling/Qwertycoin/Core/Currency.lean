import Qwertycoin.Core.Types

/-! The currency's parameters, its block reward with the size penalty, and its window sizes. -/

namespace CryptoNote

namespace parameters

/-- `DIFFICULTY_TARGET`, the intended seconds between blocks. -/
def DIFFICULTY_TARGET : UInt64 := 120

/-- `UPGRADE_HEIGHT_REWARD_SCHEME`: from this height the reward follows the block's solve time. -/
def UPGRADE_HEIGHT_REWARD_SCHEME : Nat := 73

/-- `TAIL_EMISSION_REWARD`, the floor under the base reward. -/
def TAIL_EMISSION_REWARD : UInt64 := 1000000000

/-- `CRYPTONOTE_BLOCK_GRANTED_FULL_REWARD_ZONE_V1`. -/
def CRYPTONOTE_BLOCK_GRANTED_FULL_REWARD_ZONE_V1 : Nat := 10000

/-- `CRYPTONOTE_BLOCK_GRANTED_FULL_REWARD_ZONE_V2`. -/
def CRYPTONOTE_BLOCK_GRANTED_FULL_REWARD_ZONE_V2 : Nat := 1000000

/-- `DIFFICULTY_WINDOW_V2`, one day of blocks. -/
def DIFFICULTY_WINDOW_V2 : Nat := 720

/-- `DIFFICULTY_WINDOW_V3`. -/
def DIFFICULTY_WINDOW_V3 : Nat := 70

/-- `DIFFICULTY_WINDOW_V6`. -/
def DIFFICULTY_WINDOW_V6 : Nat := 30

/-- `CRYPTONOTE_MINED_MONEY_UNLOCK_WINDOW`, read directly by the checkpoint rules. -/
def CRYPTONOTE_MINED_MONEY_UNLOCK_WINDOW : Nat := 60

/-- `FIXED_DIFFICULTY`: a compiled-in difficulty, unused when zero. -/
def FIXED_DIFFICULTY : UInt64 := 0

/-- `DEFAULT_DIFFICULTY`, returned for a next block dated before the last one. -/
def DEFAULT_DIFFICULTY : UInt64 := 10000

/-- `CRYPTONOTE_CLIF_THRESHOLD`: after an hour without a block the difficulty falls back. -/
def CRYPTONOTE_CLIF_THRESHOLD : UInt64 := 60 * 60

/-- `UPGRADE_HEIGHT_V6`. -/
def UPGRADE_HEIGHT_V6 : Nat := 73

/-- `EXPECTED_NUMBER_OF_BLOCKS_PER_DAY`. -/
def EXPECTED_NUMBER_OF_BLOCKS_PER_DAY : Nat := 24 * 60 * 60 / 120

/-- `CURRENT_TRANSACTION_VERSION`. -/
def CURRENT_TRANSACTION_VERSION : UInt8 := 1

end parameters

/-- The currency's settings, as `CurrencyBuilder` fills them in; only the ones the modelled
functions read. -/
structure Currency where
  minedMoneyUnlockWindow : Nat
  timestampCheckWindowV0 : Nat
  timestampCheckWindowV1 : Nat
  blockFutureTimeLimitV0 : UInt64
  blockFutureTimeLimitV1 : UInt64
  moneySupply : UInt64
  emissionSpeedFactor : Nat
  cryptonoteCoinVersion : Nat
  rewardBlocksWindow : Nat
  blockGrantedFullRewardZone : Nat
  minerTxBlobReservedSize : Nat
  numberOfDecimalPlaces : Nat
  difficultyTarget : UInt64
  difficultyWindow : Nat
  difficultyLag : Nat
  difficultyCut : Nat
  maxBlockSizeInitial : Nat
  maxBlockSizeGrowthSpeedNumerator : Nat
  maxBlockSizeGrowthSpeedDenominator : Nat
  maxBlockHeight : UInt64
  lockedTxAllowedDeltaBlocks : Nat
  lockedTxAllowedDeltaSeconds : UInt64
  mempoolTxLiveTime : UInt64
  mempoolTxFromAltBlockLiveTime : UInt64
  numberOfPeriodsToForgetTxDeletedFromPool : UInt64
  fusionTxMaxSize : Nat
  upgradeHeightV2 : UInt32
  upgradeHeightV3 : UInt32
  upgradeHeightV4 : UInt32
  upgradeHeightV5 : UInt32
  upgradeHeightV6 : UInt32
  upgradeVotingThreshold : Nat
  upgradeVotingWindow : Nat
  upgradeWindow : UInt32
  fixedDifficulty : UInt64
  testnet : Bool

/-- The values `CurrencyBuilder`'s constructor sets from `CryptoNoteConfig.h`. -/
def defaultCurrency : Currency where
  minedMoneyUnlockWindow := 60
  timestampCheckWindowV0 := 60
  timestampCheckWindowV1 := 11
  blockFutureTimeLimitV0 := 7200
  blockFutureTimeLimitV1 := 720
  moneySupply := 0xFFFFFFFFFFFFFFFF
  emissionSpeedFactor := 19
  cryptonoteCoinVersion := 1
  rewardBlocksWindow := 100
  blockGrantedFullRewardZone := 10000
  minerTxBlobReservedSize := 600
  numberOfDecimalPlaces := 8
  difficultyTarget := 120
  difficultyWindow := 720
  difficultyLag := 15
  difficultyCut := 60
  maxBlockSizeInitial := 1000000
  maxBlockSizeGrowthSpeedNumerator := 100 * 1024
  maxBlockSizeGrowthSpeedDenominator := 365 * 24 * 60 * 60 / 120
  maxBlockHeight := 500000000
  lockedTxAllowedDeltaBlocks := 1
  lockedTxAllowedDeltaSeconds := 120
  mempoolTxLiveTime := 60 * 60 * 14
  mempoolTxFromAltBlockLiveTime := 60 * 60 * 24
  numberOfPeriodsToForgetTxDeletedFromPool := 7
  fusionTxMaxSize := 1000000 * 30 / 100
  upgradeHeightV2 := 69
  upgradeHeightV3 := 70
  upgradeHeightV4 := 71
  upgradeHeightV5 := 72
  upgradeHeightV6 := 73
  upgradeVotingThreshold := 90
  upgradeVotingWindow := 720
  upgradeWindow := 720
  fixedDifficulty := 0
  testnet := false

namespace Currency

variable (currency : Currency)

/-- `timestampCheckWindow(blockMajorVersion)`: eleven blocks from version 5, sixty before. -/
def timestampCheckWindow (blockMajorVersion : UInt8) : Nat :=
  if blockMajorVersion ≥ 5 then currency.timestampCheckWindowV1 else currency.timestampCheckWindowV0

/-- `blockFutureTimeLimit(blockMajorVersion)`. -/
def blockFutureTimeLimit (blockMajorVersion : UInt8) : UInt64 :=
  if blockMajorVersion ≥ 5 then currency.blockFutureTimeLimitV1 else currency.blockFutureTimeLimitV0

/-- `difficultyBlocksCountByBlockVersion`: how many past blocks the difficulty rule reads. -/
def difficultyBlocksCountByBlockVersion (blockMajorVersion : UInt8) : Nat :=
  if blockMajorVersion ≥ 6 then parameters.DIFFICULTY_WINDOW_V6
  else if blockMajorVersion ≥ 3 then parameters.DIFFICULTY_WINDOW_V3 + 1
  else if blockMajorVersion = 2 then parameters.DIFFICULTY_WINDOW_V2
  else currency.difficultyWindow + currency.difficultyLag

/-- `blockGrantedFullRewardZoneByBlockVersion`: the size a block may reach with no penalty. -/
def blockGrantedFullRewardZoneByBlockVersion (blockMajorVersion : UInt8) : Nat :=
  if blockMajorVersion ≥ 4 then parameters.CRYPTONOTE_BLOCK_GRANTED_FULL_REWARD_ZONE_V2
  else if blockMajorVersion = 3 then currency.blockGrantedFullRewardZone
  else if blockMajorVersion = 2 then parameters.CRYPTONOTE_BLOCK_GRANTED_FULL_REWARD_ZONE_V2
  else parameters.CRYPTONOTE_BLOCK_GRANTED_FULL_REWARD_ZONE_V1

/-- `maxBlockCumulativeSize(height)`: the hard size limit, growing linearly with height. -/
def maxBlockCumulativeSize (height : Nat) : Nat :=
  currency.maxBlockSizeInitial
    + height * currency.maxBlockSizeGrowthSpeedNumerator / currency.maxBlockSizeGrowthSpeedDenominator

/-- `upgradeHeight(majorVersion)`: the configured height, `UNDEF_HEIGHT` when voting decides. -/
def upgradeHeight (majorVersion : UInt8) : UInt32 :=
  if majorVersion = 6 then currency.upgradeHeightV6
  else if majorVersion = 5 then currency.upgradeHeightV5
  else if majorVersion = 4 then currency.upgradeHeightV4
  else if majorVersion = 2 then currency.upgradeHeightV2
  else if majorVersion = 3 then currency.upgradeHeightV3
  else 0xFFFFFFFF

/-- `maxUpgradeDistance`, seven upgrade windows. -/
def maxUpgradeDistance : UInt32 := 7 * currency.upgradeWindow

/-- `calculateUpgradeHeight`: the upgrade lands one window after voting completes. -/
def calculateUpgradeHeight (voteCompleteHeight : UInt32) : UInt32 :=
  voteCompleteHeight + currency.upgradeWindow

end Currency

end CryptoNote
