import Qwertycoin.Core.Blockchain.Alternative
import Qwertycoin.Core.Blockchain.Run
import Qwertycoin.Lib.Doubling
import Qwertycoin.Lib.IndexedList

/-!
The handshake of chain synchronisation. A node lists the ids of its chain sparsely: the tip, then
ids at distances that double, then the genesis id (`BlockIndex.buildSparseChain`); a start block on
an alternative branch lists that branch the same way before the main chain below it
(`Blockchain.doBuildSparseChain`). The peer answers from the height of the first listed id it holds
(`BlockIndex.findSupplement`). The heights listed from a tip at `H` are `H + 1 - 2^k`, each at least
twice the one before less `H + 1` (`sparseHeights_isChain`), so when two chains share their first
`f + 1` blocks the peer answers from a height between `2f - H` and `f`.
-/

namespace CryptoNote

namespace BlockIndex

/-- `BlockIndex::buildSparseChain(startBlockId)` over the index's ids `m_container`: the ids at
`sparseChainEnd - i` for `i = 1, 2, 4, ...` up to `sparseChainEnd`, then the genesis id unless it
came last. `i` doubles from one, so `sparseChainEnd` rounds run the loop to its end. -/
def buildSparseChain (ids : List Hash) (startBlockId : Hash) : List Hash :=
  let startBlockHeight := (ids.idxOf? startBlockId).getD 0
  let sparseChainEnd := startBlockHeight + 1
  let result := Doubling.loop sparseChainEnd
    (fun i => ids.getD (sparseChainEnd - i) NULL_HASH) sparseChainEnd 1
  if result.getLast? != some (ids.getD 0 NULL_HASH) then result ++ [ids.getD 0 NULL_HASH]
  else result

/-- `BlockIndex::findSupplement(ids, offset)`: the height of the first of `query` the index
holds. -/
def findSupplement (ids query : List Hash) : Option Nat :=
  query.findSome? fun id => ids.idxOf? id

end BlockIndex

namespace Blockchain

variable (p : Primitives) (s : Blockchain)

/-- `findBlockchainSupplement(qblock_ids)`: the height of the first of the ids the main chain
holds. The source asserts that the list ends with the genesis id, so that one is found. -/
def findBlockchainSupplement (qblockIds : List Hash) : Option Nat :=
  BlockIndex.findSupplement (s.blockIds p) qblockIds

/-- `doBuildSparseChain(startBlockId)`: the main chain's sparse list for a main-chain block; for an
alternative block, its branch listed sparsely, newest first, then the main chain's sparse list from
the block the branch leaves it at. -/
def doBuildSparseChain (startBlockId : Hash) : Except Fault (List Hash) :=
  if s.hasBlock p startBlockId then pure (BlockIndex.buildSparseChain (s.blockIds p) startBlockId)
  else do
    -- The walk through `m_alternative_chains` is the one `handle_alternative_block` makes, here
    -- from the start block itself; it gathers the branch oldest first.
    let branch ← s.altChainFrom s.alternativeChains.length startBlockId []
    let alternativeChain := (branch.map Prod.fst).reverse
    let blockchainAncestor := (branch.head?.map (·.2.bl.previousBlockHash)).getD NULL_HASH
    let sparseChain := Doubling.loop alternativeChain.length
      (fun i => alternativeChain.getD (i - 1) NULL_HASH) alternativeChain.length 1
    pure (sparseChain ++ BlockIndex.buildSparseChain (s.blockIds p) blockchainAncestor)

end Blockchain

/-! ### The heights listed -/

/-- The heights `buildSparseChain` lists from height `top`: `top + 1 - 2^k` for every
`2^k ≤ top + 1`, then zero unless it came last. -/
def sparseHeights (top : Nat) : List Nat :=
  (List.range (Nat.log 2 (top + 1) + 1)).map (fun k => top + 1 - 2 ^ k) ++
    if 2 ^ Nat.log 2 (top + 1) = top + 1 then [] else [0]

section Heights

variable (top : Nat)

/-- The last of `f 0, ..., f n`. -/
theorem getLast?_map_range {β : Type} (f : Nat → β) (n : Nat) :
    ((List.range (n + 1)).map f).getLast? = some (f n) := by
  rw [List.getLast?_map, List.getLast?_range, if_neg (Nat.succ_ne_zero n), Nat.add_sub_cancel]
  rfl

theorem pow_log_le : 2 ^ Nat.log 2 (top + 1) ≤ top + 1 :=
  Nat.pow_log_le_self 2 (Nat.succ_ne_zero top)

theorem lt_pow_log_succ : top + 1 < 2 * 2 ^ Nat.log 2 (top + 1) := by
  have := Nat.lt_pow_succ_log_self (by decide : 1 < 2) (top + 1)
  rwa [Nat.pow_succ, Nat.mul_comm] at this

/-- The powers of two the loop visits are those up to `top + 1`. -/
theorem pow_le_iff_lt_log (k : Nat) : 2 ^ k ≤ top + 1 ↔ k < Nat.log 2 (top + 1) + 1 := by
  constructor
  · intro fits
    exact Nat.lt_succ_of_le (Nat.le_log_of_pow_le (by decide) fits)
  · intro below
    exact Nat.pow_le_of_le_log (Nat.succ_ne_zero top) (Nat.le_of_lt_succ below)

/-- Every height listed is at most `top`, and is zero or `top + 1 - 2^k` for a `2^k ≤ top + 1`. -/
theorem mem_sparseHeights {x : Nat} (member : x ∈ sparseHeights top) :
    x = 0 ∨ ∃ k, 2 ^ k ≤ top + 1 ∧ x = top + 1 - 2 ^ k := by
  rw [sparseHeights, List.mem_append, List.mem_map] at member
  rcases member with ⟨k, inRange, rfl⟩ | last
  · exact .inr ⟨k, (pow_le_iff_lt_log top k).mpr (List.mem_range.mp inRange), rfl⟩
  · split at last
    · cases last
    · exact .inl (List.mem_singleton.mp last)

theorem le_of_mem_sparseHeights {x : Nat} (member : x ∈ sparseHeights top) : x ≤ top := by
  rcases mem_sparseHeights top member with zero | ⟨k, _, rfl⟩
  · omega
  · have : 1 ≤ 2 ^ k := Nat.one_le_two_pow
    omega

/-- Every `top + 1 - 2^k` with `2^k ≤ top + 1` is listed. -/
theorem sub_pow_mem_sparseHeights {k : Nat} (fits : 2 ^ k ≤ top + 1) :
    top + 1 - 2 ^ k ∈ sparseHeights top := by
  rw [sparseHeights, List.mem_append]
  exact .inl (List.mem_map.mpr ⟨k, List.mem_range.mpr ((pow_le_iff_lt_log top k).mp fits), rfl⟩)

theorem sparseHeights_head? : (sparseHeights top).head? = some top := by
  rw [sparseHeights, List.range_succ_eq_map, List.map_cons, List.cons_append, List.head?_cons]
  simp

theorem sparseHeights_getLast? : (sparseHeights top).getLast? = some 0 := by
  rw [sparseHeights]
  split
  · -- `top + 1` is a power of two: the last power visited reaches height zero.
    rename_i exact
    rw [List.append_nil, getLast?_map_range, exact, Nat.sub_self]
  · rw [List.getLast?_append, List.getLast?_singleton]
    rfl

/-- The heights strictly decrease. -/
theorem sparseHeights_pairwise : (sparseHeights top).Pairwise (· > ·) := by
  have largest := pow_log_le top
  rw [sparseHeights, List.pairwise_append]
  refine ⟨Doubling.pairwise_sub_pow (Nat.le_refl _) (Nat.succ_ne_zero top), ?_, ?_⟩
  · split <;> simp
  · -- Zero is appended only when the last power left a height above it.
    intro x xIn y yIn
    split at yIn
    · cases yIn
    · rename_i inexact
      rw [List.mem_singleton.mp yIn]
      obtain ⟨k, kIn, rfl⟩ := List.mem_map.mp xIn
      have kFits := Nat.pow_le_pow_right (by decide : 0 < 2) (Nat.le_of_lt_succ (List.mem_range.mp kIn))
      omega

/-- Each height is at least twice the one before less `top + 1`: the distance below `top + 1` at
most doubles. -/
theorem sparseHeights_isChain :
    (sparseHeights top).IsChain fun a b => 2 * a ≤ b + top + 1 := by
  have largest := pow_log_le top
  have beyond := lt_pow_log_succ top
  rw [sparseHeights, List.isChain_append]
  refine ⟨?_, ?_, ?_⟩
  · rw [List.isChain_map, List.isChain_range]
    intro k below
    have kFits : 2 ^ (k + 1) ≤ 2 ^ Nat.log 2 (top + 1) := Nat.pow_le_pow_right (by decide) (by omega)
    rw [Nat.pow_succ] at kFits
    show 2 * (top + 1 - 2 ^ k) ≤ top + 1 - 2 ^ (k + 1) + top + 1
    rw [Nat.pow_succ]
    omega
  · split <;> simp
  · -- Zero after the last power: that height is below half of `top + 1`.
    intro x xIn y yIn
    split at yIn
    · cases yIn
    · rw [Option.mem_def, List.head?_singleton, Option.some.injEq] at yIn
      rw [← yIn]
      rw [getLast?_map_range, Option.mem_def, Option.some.injEq] at xIn
      rw [← xIn]
      omega

end Heights

/-! ### The lists built and the answer found -/

/-- The sparse list of a chain without repeated ids, from its block at height `top`: its ids at the
heights `sparseHeights top`. -/
theorem buildSparseChain_eq {ids : List Hash} (nodup : ids.Nodup) {top : Nat}
    (inRange : top < ids.length) :
    BlockIndex.buildSparseChain ids ids[top] = (sparseHeights top).map (ids.getD · NULL_HASH) := by
  have largest := pow_log_le top
  unfold BlockIndex.buildSparseChain
  rw [List.idxOf?_getElem_of_nodup nodup inRange, Option.getD_some]
  dsimp only
  rw [Doubling.loop_one _ (by omega : top + 1 ≠ 0), getLast?_map_range, sparseHeights,
    List.map_append, List.map_map]
  -- The last id listed is the genesis id exactly when its height is zero, as no id repeats.
  by_cases exact : 2 ^ Nat.log 2 (top + 1) = top + 1
  · have genesis : ids.getD (top + 1 - 2 ^ Nat.log 2 (top + 1)) NULL_HASH = ids.getD 0 NULL_HASH := by
      rw [exact, Nat.sub_self]
    rw [if_neg (by rw [bne_iff_ne, ne_eq, not_not, genesis]), if_pos exact, List.map_nil,
      List.append_nil]
    rfl
  · have other : ids.getD (top + 1 - 2 ^ Nat.log 2 (top + 1)) NULL_HASH ≠ ids.getD 0 NULL_HASH := by
      have lastIn : top + 1 - 2 ^ Nat.log 2 (top + 1) < ids.length := by
        have : 1 ≤ 2 ^ Nat.log 2 (top + 1) := Nat.one_le_two_pow
        omega
      have genesisIn : 0 < ids.length := by omega
      rw [List.getD_eq_getElem?_getD, List.getElem?_eq_getElem lastIn, Option.getD_some,
        List.getD_eq_getElem?_getD, List.getElem?_eq_getElem genesisIn, Option.getD_some]
      intro same
      have := (nodup.getElem_inj_iff).mp same
      omega
    rw [if_pos (by rw [bne_iff_ne, ne_eq, Option.some.injEq]; exact other), if_neg exact]
    rfl

/-- A search that answers every listed height at most `f` with itself, and nothing above `f`,
finds the first height at most `f`. -/
theorem findSome?_eq_find? {l : List Nat} {g : Nat → Option Nat} {f : Nat}
    (agree : ∀ x ∈ l, g x = if x ≤ f then some x else none) :
    l.findSome? g = l.find? (· ≤ f) := by
  induction l with
  | nil => rfl
  | cons x l ih =>
    rw [List.findSome?_cons, List.find?_cons, agree x List.mem_cons_self]
    by_cases low : x ≤ f
    · rw [if_pos low, decide_eq_true low]
    · rw [if_neg low, decide_eq_false low]
      exact ih fun y member => agree y (List.mem_cons_of_mem x member)

/-- A peer chain that holds the first `f + 1` blocks of a chain without repeated ids, at their
heights, and none of its later blocks, finds each block of that chain at its own height when it
holds it. -/
theorem idxOf?_shared {L R : List Hash} {f : Nat} (nodup : L.Nodup)
    (shared : ∀ j (inRange : j < L.length), L[j] ∈ R ↔ j ≤ f)
    (sameHeights : ∀ j ≤ f, R[j]? = L[j]?) {x : Nat} (inRange : x < L.length) :
    R.idxOf? (L.getD x NULL_HASH) = if x ≤ f then some x else none := by
  rw [List.getD_eq_getElem?_getD, List.getElem?_eq_getElem inRange, Option.getD_some]
  by_cases low : x ≤ f
  · -- The peer has the block at the same height, and none of the blocks below is the same id.
    rw [if_pos low, List.idxOf?_eq_some_iff]
    have atX := sameHeights x low
    rw [List.getElem?_eq_getElem inRange] at atX
    obtain ⟨peerIn, peerAt⟩ := List.getElem?_eq_some_iff.mp atX
    refine ⟨peerIn, peerAt, fun j below same => ?_⟩
    have atJ := sameHeights j (by omega)
    rw [List.getElem?_eq_getElem (by omega : j < L.length), List.getElem?_eq_getElem (by omega),
      Option.some.injEq] at atJ
    rw [atJ] at same
    have := (nodup.getElem_inj_iff).mp same
    omega
  · rw [if_neg low, List.idxOf?_eq_none_iff]
    exact fun held => low ((shared x inRange).mp held)

/-- The peer answers the sparse list with the first height listed that is at most `f`. -/
theorem findSupplement_sparse {L R : List Hash} {f top : Nat} (nodup : L.Nodup)
    (inRange : top < L.length) (shared : ∀ j (inRange : j < L.length), L[j] ∈ R ↔ j ≤ f)
    (sameHeights : ∀ j ≤ f, R[j]? = L[j]?) :
    BlockIndex.findSupplement R ((sparseHeights top).map (L.getD · NULL_HASH)) =
      (sparseHeights top).find? (· ≤ f) := by
  rw [BlockIndex.findSupplement, List.findSome?_map]
  exact findSome?_eq_find? fun x member =>
    idxOf?_shared nodup shared sameHeights
      (Nat.lt_of_le_of_lt (le_of_mem_sparseHeights top member) inRange)

/-- What the peer finds is listed, at most `f`, and at least `2f - top`. -/
theorem find?_sparseHeights {f top : Nat} (below : f ≤ top) :
    ∃ h, (sparseHeights top).find? (· ≤ f) = some h ∧ 2 * f ≤ h + top ∧ h ≤ f := by
  -- Zero comes last, so the search finds something.
  have zero : 0 ∈ sparseHeights top := List.mem_of_getLast? (sparseHeights_getLast? top)
  have some : ((sparseHeights top).find? (· ≤ f)).isSome :=
    List.find?_isSome.mpr ⟨0, zero, decide_eq_true (Nat.zero_le f)⟩
  obtain ⟨h, found⟩ := Option.isSome_iff_exists.mp some
  have low : h ≤ f := by simpa using List.find?_some found
  refine ⟨h, found, ?_, low⟩
  -- The list starts at `top`, and each height at least doubles the distance before it.
  obtain ⟨rest, start⟩ : ∃ rest, sparseHeights top = top :: rest :=
    List.head?_eq_some_iff.mp (sparseHeights_head? top)
  have chain := sparseHeights_isChain top
  rw [start] at chain found
  exact Doubling.two_mul_le_of_find? chain below found

/-! ### A start block on an alternative branch -/

/-- The id of the branch's block at height `x`, if the branch has one. -/
def branchId (branch : List (Hash × BlockEntry)) (x : Nat) : Option Hash :=
  (branch.find? fun entry => entry.2.height.toNat == x).map Prod.fst

section Branch

variable {branch : List (Hash × BlockEntry)} {a : Nat}
  (heights : ∀ j (inRange : j < branch.length), branch[j].2.height.toNat = a + 1 + j)
include heights

/-- A branch that rises one height per block from `a + 1` has its `j`-th block at `a + 1 + j`. -/
theorem branchId_of_lt {j : Nat} (inRange : j < branch.length) :
    branchId branch (a + 1 + j) = some branch[j].1 := by
  have found : branch.find? (fun entry => entry.2.height.toNat == a + 1 + j) = some branch[j] := by
    rw [List.find?_eq_some_iff_getElem]
    refine ⟨by rw [heights j inRange, beq_self_eq_true], j, inRange, rfl, fun i below => ?_⟩
    rw [heights i (by omega)]
    simp only [Bool.not_eq_true', beq_eq_false_iff_ne, ne_eq]
    omega
  rw [branchId, found, Option.map_some]

/-- Nothing of the branch is at or below the height it leaves the main chain at. -/
theorem branchId_of_le {x : Nat} (low : x ≤ a) : branchId branch x = none := by
  rw [branchId, List.find?_eq_none.mpr, Option.map_none]
  intro entry member
  obtain ⟨j, inRange, rfl⟩ := List.mem_iff_getElem.mp member
  rw [heights j inRange]
  simp only [beq_iff_eq]
  omega

end Branch

namespace Blockchain

variable (p : Primitives) (s : Blockchain)

/-- For an alternative start block: the branch's ids at doubling distances from the start, then
the main chain's sparse list from where the branch leaves it. -/
theorem doBuildSparseChain_of_branch {start : Hash} {branch : List (Hash × BlockEntry)}
    (offMain : s.hasBlock p start = false)
    (walk : s.altChainFrom s.alternativeChains.length start [] = .ok branch) :
    s.doBuildSparseChain p start =
      .ok (Doubling.loop (branch.map Prod.fst).reverse.length
          (fun i => (branch.map Prod.fst).reverse.getD (i - 1) NULL_HASH)
          (branch.map Prod.fst).reverse.length 1 ++
        BlockIndex.buildSparseChain (s.blockIds p)
          ((branch.head?.map (·.2.bl.previousBlockHash)).getD NULL_HASH)) := by
  unfold doBuildSparseChain
  rw [if_neg (by rw [offMain]; decide), walk]
  rfl

/-- The sparse list of a start block on a branch that rises one height per block from the main
chain's block at height `a`: the branch's ids, newest first, at heights `a + n + 1 - 2^k` for the
powers of two up to its length `n`, then the main chain's ids at `sparseHeights a`. -/
theorem doBuildSparseChain_alternative {start : Hash} {branch : List (Hash × BlockEntry)} {a : Nat}
    (nodup : (s.blockIds p).Nodup) (offMain : s.hasBlock p start = false)
    (walk : s.altChainFrom s.alternativeChains.length start [] = .ok branch)
    (nonempty : branch ≠ [])
    (heights : ∀ j (inRange : j < branch.length), branch[j].2.height.toNat = a + 1 + j)
    (attached : a < (s.blockIds p).length)
    (ancestor : branch.head?.map (·.2.bl.previousBlockHash) = some (s.blockIds p)[a]) :
    s.doBuildSparseChain p start =
      .ok ((((List.range (Nat.log 2 branch.length + 1)).map fun k =>
          a + branch.length + 1 - 2 ^ k) ++ sparseHeights a).map
        fun x => (branchId branch x).getD ((s.blockIds p).getD x NULL_HASH)) := by
  have positive : branch.length ≠ 0 := fun empty => nonempty (List.length_eq_zero_iff.mp empty)
  rw [doBuildSparseChain_of_branch p s offMain walk, ancestor, Option.getD_some,
    buildSparseChain_eq nodup attached, List.length_reverse, List.length_map,
    Doubling.loop_one _ positive, List.map_append, List.map_map]
  congr 2
  · -- The `2^k`-th newest block of the branch is at height `a + n + 1 - 2^k`.
    apply List.map_congr_left
    intro k kIn
    have fits : 2 ^ k ≤ branch.length :=
      Nat.pow_le_of_le_log positive (Nat.le_of_lt_succ (List.mem_range.mp kIn))
    have one : 1 ≤ 2 ^ k := Nat.one_le_two_pow
    show (branch.map Prod.fst).reverse.getD (2 ^ k - 1) NULL_HASH =
      (branchId branch (a + branch.length + 1 - 2 ^ k)).getD _
    rw [show a + branch.length + 1 - 2 ^ k = a + 1 + (branch.length - 2 ^ k) by omega,
      branchId_of_lt heights (by omega), Option.getD_some, List.getD_eq_getElem?_getD,
      List.getElem?_eq_getElem (by simp only [List.length_reverse, List.length_map]; omega),
      Option.getD_some, List.getElem_reverse, List.getElem_map]
    congr 2
    simp only [List.length_map]
    omega
  · -- Below the branch, the main chain's own ids.
    apply List.map_congr_left
    intro x xIn
    show (s.blockIds p).getD x NULL_HASH = (branchId branch x).getD _
    rw [branchId_of_le heights (le_of_mem_sparseHeights a xIn), Option.getD_none]

end Blockchain

/-- The heights of a branch of `n` blocks above height `a`, listed sparsely, then those of the main
chain below it: from the start block's height down to zero, strictly decreasing. -/
theorem branchHeights_spec {n : Nat} (a : Nat) (positive : n ≠ 0) :
    let heights := ((List.range (Nat.log 2 n + 1)).map fun k => a + n + 1 - 2 ^ k) ++ sparseHeights a
    heights.head? = some (a + n) ∧ heights.getLast? = some 0 ∧ heights.Pairwise (· > ·) := by
  intro heights
  refine ⟨?_, ?_, ?_⟩
  · simp [heights, List.range_succ_eq_map]
  · rw [List.getLast?_append_of_ne_nil _ (List.ne_nil_of_mem
      (List.mem_of_getLast? (sparseHeights_getLast? a))), sparseHeights_getLast?]
  · rw [List.pairwise_append]
    refine ⟨Doubling.pairwise_sub_pow (by omega) positive, sparseHeights_pairwise a, ?_⟩
    -- The branch is above height `a`, the main chain's part at or below it.
    intro x xIn y yIn
    have above := Doubling.sub_le_of_mem_sub_pow positive xIn
    have below := le_of_mem_sparseHeights a yIn
    omega

namespace Blockchain

variable (p : Primitives)

/-- The handshake. A node whose main chain has no repeated id and its tip at height `H` lists the
ids at heights starting at `H`, strictly decreasing, `H + 1 - 2^k` for every `2^k ≤ H + 1` and
nothing else but a closing zero. A peer whose main chain holds exactly the node's first `f + 1`
blocks, at their heights, answers from a height `h` it shares with the node, between `2f - H` and
`f`. From a start block on a branch that rises one height per block from the main chain's block
at `a`, the node lists the branch's ids, then the main chain's, at strictly decreasing heights down
to zero. -/
theorem sparse_chain_handshake (node peer : Blockchain) (H f : Nat)
    (distinct : (node.blockIds p).Nodup) (tip : (node.blockIds p).length = H + 1) (fLe : f ≤ H)
    (shared : ∀ j (inRange : j < (node.blockIds p).length),
      (node.blockIds p)[j] ∈ peer.blockIds p ↔ j ≤ f)
    (sameHeights : ∀ j ≤ f, (peer.blockIds p)[j]? = (node.blockIds p)[j]?) :
    (∃ (heights : List Nat) (sparse : List Hash),
        node.doBuildSparseChain p (node.getTailId p) = .ok sparse ∧
        sparse = heights.map ((node.blockIds p).getD · NULL_HASH) ∧
        heights.head? = some H ∧ heights.getLast? = some 0 ∧ heights.Pairwise (· > ·) ∧
        (∀ k, 2 ^ k ≤ H + 1 → H + 1 - 2 ^ k ∈ heights) ∧
        (∀ x ∈ heights, x = 0 ∨ ∃ k, 2 ^ k ≤ H + 1 ∧ x = H + 1 - 2 ^ k) ∧
        ∃ h, peer.findBlockchainSupplement p sparse = some h ∧
          (peer.blockIds p)[h]? = (node.blockIds p)[h]? ∧ 2 * f - H ≤ h ∧ h ≤ f) ∧
      ∀ (start : Hash) (branch : List (Hash × BlockEntry)) (a : Nat),
        node.hasBlock p start = false →
        node.altChainFrom node.alternativeChains.length start [] = .ok branch → branch ≠ [] →
        (∀ j (inRange : j < branch.length), branch[j].2.height.toNat = a + 1 + j) →
        ∀ attached : a < (node.blockIds p).length,
        branch.head?.map (·.2.bl.previousBlockHash) = some (node.blockIds p)[a] →
        ∃ heights : List Nat, node.doBuildSparseChain p start = .ok (heights.map fun x =>
            (branchId branch x).getD ((node.blockIds p).getD x NULL_HASH)) ∧
          heights.head? = some (a + branch.length) ∧ heights.getLast? = some 0 ∧
          heights.Pairwise (· > ·) := by
  have tipIn : H < (node.blockIds p).length := by omega
  -- The tip is a main-chain block, at height `H`.
  have tipId : node.getTailId p = (node.blockIds p)[H] := by
    rw [getTailId, List.getLast?_eq_getElem?, tip, Nat.add_sub_cancel,
      List.getElem?_eq_getElem tipIn, Option.getD_some]
  have onMain : node.hasBlock p (node.getTailId p) = true := by
    rw [hasBlock, tipId, List.contains_iff_mem]
    exact List.getElem_mem tipIn
  have built : node.doBuildSparseChain p (node.getTailId p) =
      .ok ((sparseHeights H).map ((node.blockIds p).getD · NULL_HASH)) := by
    unfold doBuildSparseChain
    rw [if_pos onMain, tipId, buildSparseChain_eq distinct tipIn]
    rfl
  refine ⟨⟨sparseHeights H, _, built, rfl, sparseHeights_head? H, sparseHeights_getLast? H,
    sparseHeights_pairwise H, fun k fits => sub_pow_mem_sparseHeights H fits,
    fun x member => mem_sparseHeights H member, ?_⟩, ?_⟩
  · -- The peer answers from the first listed height it shares.
    obtain ⟨h, found, atLeast, atMost⟩ := find?_sparseHeights fLe
    refine ⟨h, ?_, sameHeights h atMost, by omega, atMost⟩
    rw [findBlockchainSupplement, findSupplement_sparse distinct tipIn shared sameHeights, found]
  · intro start branch a offMain walk nonempty heights attached ancestor
    have positive : branch.length ≠ 0 := fun empty => nonempty (List.length_eq_zero_iff.mp empty)
    exact ⟨_, doBuildSparseChain_alternative p node distinct offMain walk nonempty heights attached
      ancestor, branchHeights_spec a positive⟩

/-- A block at `height` on top of `previous`; under `acceptingPrimitives` its id is
`hashOf (nonce + 1)`. -/
def chainEntry (nonce height : UInt32) (previous : Hash) : BlockEntry :=
  ⟨{ majorVersion := 1, minorVersion := 0, nonce := nonce, timestamp := 0,
     previousBlockHash := previous, parentBlock := ⟨1, 0, NULL_HASH, 0, [], emptyTransaction, []⟩,
     baseTransaction := emptyTransaction, transactionHashes := [] }, height, 0, 1, 0, []⟩

/-- The block a one-block branch on the node's tip stands on. -/
def branchEntry : Hash × BlockEntry := (hashOf 11, chainEntry 10 3 (hashOf 3))

/-- Two chains of three blocks that differ in the last: the peer answers from height one. A branch
of one block on the node's tip lists its own id, then the main chain's from the tip down. -/
theorem sparse_chain_handshake_on_three_blocks :
    let node : Blockchain := { initial noCheckpoints with
      blocks := [chainEntry 0 0 NULL_HASH, chainEntry 1 1 (hashOf 1), chainEntry 2 2 (hashOf 2)],
      alternativeChains := [branchEntry] }
    let peer : Blockchain := { initial noCheckpoints with
      blocks := [chainEntry 0 0 NULL_HASH, chainEntry 1 1 (hashOf 1), chainEntry 7 2 (hashOf 2)] }
    (node.blockIds acceptingPrimitives).Nodup ∧
      (node.blockIds acceptingPrimitives).length = 2 + 1 ∧
      (∀ j (inRange : j < (node.blockIds acceptingPrimitives).length),
        (node.blockIds acceptingPrimitives)[j] ∈ peer.blockIds acceptingPrimitives ↔ j ≤ 1) ∧
      (∀ j ≤ 1, (peer.blockIds acceptingPrimitives)[j]? = (node.blockIds acceptingPrimitives)[j]?) ∧
      (∃ sparse h, node.doBuildSparseChain acceptingPrimitives (node.getTailId acceptingPrimitives) =
          .ok sparse ∧
        peer.findBlockchainSupplement acceptingPrimitives sparse = some h ∧ 2 * 1 - 2 ≤ h ∧ h ≤ 1) ∧
      ∃ heights : List Nat, node.doBuildSparseChain acceptingPrimitives (hashOf 11) =
          .ok (heights.map fun x => (branchId [branchEntry] x).getD
            ((node.blockIds acceptingPrimitives).getD x NULL_HASH)) ∧
        heights.head? = some 3 ∧ heights.getLast? = some 0 := by
  intro node peer
  have distinct : (node.blockIds acceptingPrimitives).Nodup := by decide
  have shared : ∀ j (inRange : j < (node.blockIds acceptingPrimitives).length),
      (node.blockIds acceptingPrimitives)[j] ∈ peer.blockIds acceptingPrimitives ↔ j ≤ 1 := by
    decide
  have sameHeights : ∀ j ≤ 1,
      (peer.blockIds acceptingPrimitives)[j]? = (node.blockIds acceptingPrimitives)[j]? := by
    decide
  obtain ⟨⟨_, sparse, built, -, -, -, -, -, -, h, found, -, atLeast, atMost⟩, onBranch⟩ :=
    sparse_chain_handshake acceptingPrimitives node peer 2 1 distinct rfl (by decide) shared
      sameHeights
  -- The branch block stands at height three on the tip, at height two.
  obtain ⟨heights, branchBuilt, top, bottom, -⟩ := onBranch (hashOf 11) [branchEntry] 2 (by decide)
    rfl (List.cons_ne_nil _ _) (by decide) (by decide) rfl
  exact ⟨distinct, rfl, shared, sameHeights, ⟨sparse, h, built, found, atLeast, atMost⟩, heights,
    branchBuilt, top, bottom⟩

end Blockchain

end CryptoNote
