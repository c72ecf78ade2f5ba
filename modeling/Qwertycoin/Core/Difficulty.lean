import Qwertycoin.Common.Math
import Qwertycoin.Core.Blockchain.State

/-!
`Currency::nextDifficulty`: the fixed-difficulty settings, the guards on the last timestamp, and
the choice of rule by block version, with the two integer rules of the first versions.
-/

namespace CryptoNote

/-- `std::vector::resize`: cut to `n` elements, or pad with zeros up to `n`. -/
def resize (v : List UInt64) (n : Nat) : List UInt64 :=
  v.take n ++ List.replicate (n - v.length) 0

namespace Currency

variable (currency : Currency) (p : Primitives)

/-- The element at an index, a read outside the vector being undefined. -/
def readAt (v : List UInt64) (index : Nat) : Except Fault UInt64 :=
  match v[index]? with
  | some value => pure value
  | none => throw .undefinedBehaviour

/--
`nextDifficultyV1`: the work of the window after cutting the `difficultyCut` earliest and latest
timestamps, over their span, rounded up. A product that does not fit a word gives zero.
-/
def nextDifficultyV1 (timestamps cumulativeDifficulties : List UInt64) : Except Fault UInt64 := do
  let window := currency.difficultyWindow
  let (timestamps, cumulativeDifficulties) :=
    if timestamps.length > window then
      (resize timestamps window, resize cumulativeDifficulties window)
    else (timestamps, cumulativeDifficulties)
  let length := timestamps.length
  if length ≤ 1 then return 1
  let sorted := Common.sortValues timestamps
  -- `m_difficultyWindow - 2 * m_difficultyCut` is a `size_t` difference.
  let kept := (UInt64.ofNat window - 2 * UInt64.ofNat currency.difficultyCut).toNat
  let cutBegin := if length ≤ kept then 0 else (length - kept + 1) / 2
  let cutEnd := if length ≤ kept then length else cutBegin + kept
  let first ← readAt sorted cutBegin
  let last ← readAt sorted (cutEnd - 1)
  let timeSpan := if last - first = 0 then 1 else last - first
  let workEnd ← readAt cumulativeDifficulties (cutEnd - 1)
  let workBegin ← readAt cumulativeDifficulties cutBegin
  let (low, high) := mul128 (workEnd - workBegin) currency.difficultyTarget
  if high ≠ 0 ∨ low + timeSpan - 1 < low then return 0
  return (low + timeSpan - 1) / timeSpan

/--
`nextDifficultyV2`: the work of the whole window over its time span, at least one hundred off the
test network. A product that does not fit a word gives zero.
-/
def nextDifficultyV2 (timestamps cumulativeDifficulties : List UInt64) : Except Fault UInt64 := do
  let window := parameters.DIFFICULTY_WINDOW_V2
  let (timestamps, cumulativeDifficulties) :=
    if timestamps.length > window then
      (resize timestamps window, resize cumulativeDifficulties window)
    else (timestamps, cumulativeDifficulties)
  if timestamps.length ≤ 1 then return 1
  let sorted := Common.sortValues timestamps
  let first ← readAt sorted 0
  let last ← readAt sorted (sorted.length - 1)
  let timeSpan := if last - first = 0 then 1 else last - first
  -- `back()` and `front()` of the difficulties, which the callers make as long as the timestamps.
  let some workEnd := cumulativeDifficulties.getLast? | throw .undefinedBehaviour
  let some workBegin := cumulativeDifficulties.head? | throw .undefinedBehaviour
  let (low, high) := mul128 (workEnd - workBegin) currency.difficultyTarget
  if high ≠ 0 then return 0
  let nextDiffZ := low / timeSpan
  if !currency.testnet ∧ nextDiffZ < 100 then return 100
  return nextDiffZ

/--
`Currency::nextDifficulty`. A fixed difficulty wins; then the last timestamp is read (`back()`, so
an empty window is undefined), a next block dated before it gets `DEFAULT_DIFFICULTY`, a gap over
`CRYPTONOTE_CLIF_THRESHOLD` falls back to `getClifDifficulty`, and otherwise the version picks the rule.
-/
def nextDifficulty (height : UInt32) (blockMajorVersion : UInt8)
    (timestamps cumulativeDifficulties : List UInt64) (nextBlockTime : UInt64)
    (lazyStatCb : StatPeriod → Except Fault UInt64) : Except Fault UInt64 := do
  if parameters.FIXED_DIFFICULTY > 0 then return parameters.FIXED_DIFFICULTY
  if currency.fixedDifficulty > 0 then return currency.fixedDifficulty
  let some lastTimestamp := timestamps.getLast? | throw .undefinedBehaviour
  if nextBlockTime < lastTimestamp then return parameters.DEFAULT_DIFFICULTY
  if nextBlockTime - lastTimestamp > parameters.CRYPTONOTE_CLIF_THRESHOLD then
    -- `cumulativeDifficulties[array_size - 1] - cumulativeDifficulties[array_size - 2]`
    let size := cumulativeDifficulties.length
    if size < 2 then throw .undefinedBehaviour
    let lastWork ← readAt cumulativeDifficulties (size - 1)
    let previousWork ← readAt cumulativeDifficulties (size - 2)
    return ← p.getClifDifficulty height blockMajorVersion (lastWork - previousWork)
      (nextBlockTime - lastTimestamp) lazyStatCb
  if blockMajorVersion ≥ 6 then
    p.nextDifficultyV6 blockMajorVersion timestamps cumulativeDifficulties height
  else if blockMajorVersion ≥ 5 then
    p.nextDifficultyV5 blockMajorVersion timestamps cumulativeDifficulties
  else if blockMajorVersion = 3 ∨ blockMajorVersion = 4 then
    p.nextDifficultyV3 timestamps cumulativeDifficulties
  else if blockMajorVersion = 2 then
    currency.nextDifficultyV2 timestamps cumulativeDifficulties
  else currency.nextDifficultyV1 timestamps cumulativeDifficulties

/-- A configured fixed difficulty is returned whatever the window holds. -/
theorem nextDifficulty_of_fixedDifficulty (fixed : 0 < currency.fixedDifficulty)
    (height : UInt32) (blockMajorVersion : UInt8) (timestamps cumulativeDifficulties : List UInt64)
    (nextBlockTime : UInt64) (lazyStatCb : StatPeriod → Except Fault UInt64) :
    currency.nextDifficulty p height blockMajorVersion timestamps cumulativeDifficulties
      nextBlockTime lazyStatCb = .ok currency.fixedDifficulty := by
  have notCompiledIn : ¬ parameters.FIXED_DIFFICULTY > 0 := by decide
  simp [nextDifficulty, notCompiledIn, fixed, pure, Except.pure]

/-- With no fixed difficulty, an empty window is read at its last timestamp. -/
theorem nextDifficulty_of_empty (unfixed : currency.fixedDifficulty = 0) (height : UInt32)
    (blockMajorVersion : UInt8) (cumulativeDifficulties : List UInt64) (nextBlockTime : UInt64)
    (lazyStatCb : StatPeriod → Except Fault UInt64) :
    currency.nextDifficulty p height blockMajorVersion [] cumulativeDifficulties nextBlockTime
      lazyStatCb = .error .undefinedBehaviour := by
  have notCompiledIn : ¬ parameters.FIXED_DIFFICULTY > 0 := by decide
  simp [nextDifficulty, notCompiledIn, unfixed, throw, throwThe, MonadExceptOf.throw]

/-- With no fixed difficulty, a window of one block and a next block past the clif threshold is
read at its last two cumulative difficulties. -/
theorem nextDifficulty_clif_of_single (unfixed : currency.fixedDifficulty = 0) (height : UInt32)
    (blockMajorVersion : UInt8) (timestamp cumulativeDifficulty nextBlockTime : UInt64)
    (later : timestamp ≤ nextBlockTime)
    (gap : parameters.CRYPTONOTE_CLIF_THRESHOLD < nextBlockTime - timestamp)
    (lazyStatCb : StatPeriod → Except Fault UInt64) :
    currency.nextDifficulty p height blockMajorVersion [timestamp] [cumulativeDifficulty]
      nextBlockTime lazyStatCb = .error .undefinedBehaviour := by
  have notCompiledIn : ¬ parameters.FIXED_DIFFICULTY > 0 := by decide
  have notBefore : ¬ nextBlockTime < timestamp := UInt64.not_lt.mpr later
  simp [nextDifficulty, notCompiledIn, unfixed, notBefore, gap, throw, throwThe,
    MonadExceptOf.throw, Bind.bind, Except.bind]

end Currency

end CryptoNote
