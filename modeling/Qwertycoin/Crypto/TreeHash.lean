import Qwertycoin.Core.Serialization
import Qwertycoin.Lib.BitSearch
import Qwertycoin.Lib.MerkleLevels

/-!
The Merkle tree of a block's transactions, `tree-hash.c`. `tree_hash` builds a level of the largest
power of two below the count of leaves, the first leaves going up unpaired and the others hashed in
pairs, and hashes that level down to the root. `tree_branch` builds the same level for the largest
power of two not above the count, and records the sibling of the first leaf's path at each level;
`tree_hash_from_branch` climbs from a leaf through such a branch. For every count, the branch of the
first leaf climbs to the root (`tree_hash_from_branch_eq_tree_hash`), whatever function of its 64
input bytes `cn_fast_hash` is.
-/

namespace CryptoNote

open MerkleLevels BitSearch

/-- The zero hash, for reads past the end of an array, which the source never makes. -/
instance inhabitedHash : Inhabited Hash := ⟨⟨Vector.replicate 32 0⟩⟩

variable (cnFastHash : List UInt8 → Hash)

/-- `cn_fast_hash` of the 64 bytes of two hashes side by side, as a node is hashed from its
children. -/
def hashPair (left right : Hash) : Hash := cnFastHash (left.data.toList ++ right.data.toList)

/-- The `while (cnt > 2)` loop of `tree_hash`, on the level of `cnt` nodes in `ints`: halve the
level until two nodes are left. -/
def treeHashLevels (ints : List Hash) (cnt : Nat) : List Hash :=
  if cnt > 2 then treeHashLevels (pairUp (hashPair cnFastHash) ints) (cnt >>> 1) else ints
termination_by cnt
decreasing_by rw [Nat.shiftRight_eq_div_pow]; omega

/-- `tree_hash(hashes, count, root_hash)`. -/
def treeHash (hashes : List Hash) (count : Nat) : Hash :=
  if count = 1 then hashes.getD 0 default
  else if count = 2 then hashPair cnFastHash (hashes.getD 0 default) (hashes.getD 1 default)
  else
    -- The largest power of two below `count`: the highest bit of `count - 1` smeared into the
    -- bits below it, which are then masked off.
    let cnt := ([1, 2, 4, 8, 16, 32] : List UInt64).foldl (fun cnt i => cnt ||| cnt >>> i)
      (UInt64.ofNat (count - 1))
    let cnt := (cnt &&& ~~~(cnt >>> 1)).toNat
    -- The first `2 * cnt - count` leaves go up as they are, the others in pairs.
    let ints := hashes.take (2 * cnt - count) ++
      pairUp (hashPair cnFastHash) ((hashes.drop (2 * cnt - count)).take (2 * (count - cnt)))
    let ints := treeHashLevels cnFastHash ints cnt
    hashPair cnFastHash (ints.getD 0 default) (ints.getD 1 default)

/-- The `while (depth > 0)` loop of `tree_branch`. `ints` holds a level without its first node;
the first node's sibling, first in `ints`, goes to `branch[depth]` after the decrement, and the
level above is formed from the rest, again without its first node. -/
def treeBranchLevels : List Hash → Nat → List Hash
  | _, 0 => []
  | ints, depth + 1 =>
    treeBranchLevels (pairUp (hashPair cnFastHash) (ints.drop 1)) depth ++ [ints.getD 0 default]

/-- `tree_branch(hashes, count, branch)`: the siblings along the first leaf's path, `branch[0]` at
the top of the tree. -/
def treeBranch (hashes : List Hash) (count : Nat) : List Hash :=
  -- The largest power of two not above `count`, and its exponent.
  let (cnt, depth) := [32, 16, 8, 4, 2, 1].foldl
    (fun (state : Nat × Nat) i =>
      if state.1 <<< i ≤ count then (state.1 <<< i, state.2 + i) else state) (1, 0)
  -- The level of `cnt` nodes without the first leaf: the leaves after it that go up unpaired,
  -- then the others in pairs.
  let ints := (hashes.drop 1).take (2 * cnt - count - 1) ++
    pairUp (hashPair cnFastHash) ((hashes.drop (2 * cnt - count)).take (2 * (count - cnt)))
  treeBranchLevels cnFastHash ints depth

/-- Bit `depth` of the path, which puts the climbing node second; a null path has none set. -/
def pathBit (path : Option (List UInt8)) (depth : Nat) : Bool :=
  match path with
  | none => false
  | some bytes => ((bytes.getD (depth >>> 3) 0).toNat &&& 1 <<< (depth &&& 7)) != 0

/-- The buffer of two hashes at `depth`: the climbing node and the branch's node beside it. -/
def placeNodes (path : Option (List UInt8)) (depth : Nat) (climbing sibling : Hash) :
    Hash × Hash :=
  if pathBit path depth then (sibling, climbing) else (climbing, sibling)

/-- The rounds of `tree_hash_from_branch` after its first: the buffer is hashed into the climbing
node, which is put beside the branch's next node. -/
def treeHashFromBranchLoop (branch : List Hash) (path : Option (List UInt8)) :
    Nat → Hash × Hash → Hash × Hash
  | 0, buffer => buffer
  | depth + 1, buffer =>
    treeHashFromBranchLoop branch path depth
      (placeNodes path depth (hashPair cnFastHash buffer.1 buffer.2) (branch.getD depth default))

/-- `tree_hash_from_branch(branch, depth, leaf, path, root_hash)`; its first round, where
`from_leaf` is set, puts the leaf itself beside the branch's last node. -/
def treeHashFromBranch (branch : List Hash) (depth : Nat) (leaf : Hash)
    (path : Option (List UInt8)) : Hash :=
  match depth with
  | 0 => leaf
  | depth + 1 =>
    let buffer := treeHashFromBranchLoop cnFastHash branch path depth
      (placeNodes path depth leaf (branch.getD depth default))
    hashPair cnFastHash buffer.1 buffer.2

/-! ### Climbing a branch -/

/-- With a null path the climbing node always goes first: the rounds from `depth` down fold the
branch's nodes up to `depth` into it, the deepest first. -/
theorem climb_treeHashFromBranchLoop (branch : List Hash) :
    ∀ (depth : Nat) (climbing : Hash), depth < branch.length →
      Function.uncurry (hashPair cnFastHash)
          (treeHashFromBranchLoop cnFastHash branch none depth
            (climbing, branch.getD depth default)) =
        (branch.take (depth + 1)).foldr (fun sibling node => hashPair cnFastHash node sibling)
          climbing
  | 0, climbing, inRange => by
    obtain ⟨top, rest, rfl⟩ : ∃ top rest, branch = top :: rest :=
      List.exists_cons_of_length_pos inRange
    rfl
  | depth + 1, climbing, inRange => by
    -- One round hashes the climbing node with the branch's node at `depth + 1`.
    have later := climb_treeHashFromBranchLoop branch depth
      (hashPair cnFastHash climbing (branch.getD (depth + 1) default)) (by omega)
    rw [treeHashFromBranchLoop]
    simp only [placeNodes, pathBit, Bool.false_eq_true, if_false]
    have grown : branch.take (depth + 1 + 1) =
        branch.take (depth + 1) ++ [branch.getD (depth + 1) default] := by
      rw [List.take_add_one, List.getElem?_eq_getElem inRange, List.getD_eq_getElem _ _ inRange]
      rfl
    rw [later, grown, List.foldr_append]
    rfl

/-- `tree_hash_from_branch` with a null path folds the whole branch into the leaf, its last node
first. -/
theorem treeHashFromBranch_none (branch : List Hash) (leaf : Hash) :
    treeHashFromBranch cnFastHash branch branch.length leaf none =
      branch.foldr (fun sibling node => hashPair cnFastHash node sibling) leaf := by
  cases sized : branch.length with
  | zero =>
    rw [List.length_eq_zero_iff.mp sized]
    rfl
  | succ depth =>
    have climbed := climb_treeHashFromBranchLoop cnFastHash branch depth leaf (by omega)
    rw [← sized, List.take_length] at climbed
    rw [← climbed]
    rfl

/-! ### The branch of the first leaf -/

theorem length_treeBranchLevels :
    ∀ (ints : List Hash) (depth : Nat), (treeBranchLevels cnFastHash ints depth).length = depth
  | _, 0 => rfl
  | ints, depth + 1 => by
    rw [treeBranchLevels, List.length_append, length_treeBranchLevels, List.length_singleton]

/-- Over a level of `2 ^ depth` nodes, the branch `tree_branch` records, folded into the first node,
gives the root of the level. -/
theorem foldr_treeBranchLevels :
    ∀ (depth : Nat) (level : List Hash), level.length = 2 ^ depth →
      (treeBranchLevels cnFastHash (level.drop 1) depth).foldr
          (fun sibling node => hashPair cnFastHash node sibling) (level.getD 0 default) =
        ((pairUp (hashPair cnFastHash))^[depth] level).getD 0 default
  | 0, level, _ => rfl
  | depth + 1, [], sized => absurd sized.symm (Nat.two_pow_pos _).ne'
  | depth + 1, [_], sized => by
    rw [List.length_singleton, Nat.pow_succ] at sized
    have := Nat.two_pow_pos depth
    omega
  | depth + 1, first :: second :: rest, sized => by
    -- The first two nodes are combined first; the rest is the same on the level above.
    have above : (pairUp (hashPair cnFastHash) (first :: second :: rest)).length = 2 ^ depth := by
      rw [length_pairUp, sized, Nat.pow_succ, Nat.mul_div_cancel _ (by decide)]
    have later := foldr_treeBranchLevels depth _ above
    rw [pairUp_cons_cons, List.drop_one, List.tail_cons] at later
    rw [List.drop_one, List.tail_cons, treeBranchLevels, List.drop_one, List.tail_cons,
      List.foldr_append, Function.iterate_succ_apply, pairUp_cons_cons]
    exact later

/-! ### The level of leaves both functions build -/

/-- The level of `cnt` nodes over `count` leaves that `tree_hash` and `tree_branch` build: the first
`2 * cnt - count` leaves as they are, then the others hashed in pairs. -/
def leafLevel (hashes : List Hash) (count cnt : Nat) : List Hash :=
  hashes.take (2 * cnt - count) ++
    pairUp (hashPair cnFastHash) ((hashes.drop (2 * cnt - count)).take (2 * (count - cnt)))

section LeafLevel

variable {hashes : List Hash} {count : Nat}

theorem length_leafLevel {cnt : Nat} (sized : hashes.length = count) (low : cnt ≤ count)
    (high : count ≤ 2 * cnt) : (leafLevel cnFastHash hashes count cnt).length = cnt := by
  simp only [leafLevel, List.length_append, List.length_take, List.length_drop, length_pairUp,
    sized]
  omega

/-- With as many nodes as leaves, the level is the leaves. -/
theorem leafLevel_self (sized : hashes.length = count) :
    leafLevel cnFastHash hashes count count = hashes := by
  have whole : 2 * count - count = hashes.length := by omega
  simp [leafLevel, whole]

/-- With half as many nodes, every leaf is paired. -/
theorem leafLevel_half {cnt : Nat} (sized : hashes.length = count) (halved : count = 2 * cnt) :
    leafLevel cnFastHash hashes count cnt = pairUp (hashPair cnFastHash) hashes := by
  have none : 2 * cnt - count = 0 := by omega
  have whole : 2 * (count - cnt) = hashes.length := by omega
  simp [leafLevel, none, whole]

/-- With fewer than twice as many leaves as nodes, the first leaf goes up unpaired. -/
theorem getD_leafLevel {cnt : Nat} (first : Hash) (rest : List Hash) (high : count < 2 * cnt) :
    (leafLevel cnFastHash (first :: rest) count cnt).getD 0 default = first := by
  obtain ⟨unpaired, same⟩ : ∃ unpaired, 2 * cnt - count = unpaired + 1 := ⟨_, (Nat.succ_pred_eq_of_pos (by omega)).symm⟩
  simp [leafLevel, same]

/-- And `tree_branch`'s copy of the leaves after the first is the rest of the level. -/
theorem drop_one_leafLevel {cnt : Nat} (first : Hash) (rest : List Hash) (high : count < 2 * cnt) :
    (leafLevel cnFastHash (first :: rest) count cnt).drop 1 =
      ((first :: rest).drop 1).take (2 * cnt - count - 1) ++
        pairUp (hashPair cnFastHash) (((first :: rest).drop (2 * cnt - count)).take (2 * (count - cnt))) := by
  obtain ⟨unpaired, same⟩ : ∃ unpaired, 2 * cnt - count = unpaired + 1 := ⟨_, (Nat.succ_pred_eq_of_pos (by omega)).symm⟩
  simp [leafLevel, same]

end LeafLevel

/-! ### The searches for a power of two -/

section Searches

variable {count : Nat} (nonzero : count ≠ 0) (fits : count < 2 ^ 64)
include nonzero fits

/-- `tree_depth` of a count that fits a `size_t` is its binary logarithm. -/
theorem treeDepth_eq_log2 : treeDepth count = count.log2 := by
  have search := foldl_shiftStep 6 0 nonzero fits
  rw [halvings_six, Nat.zero_add] at search
  exact congrArg Prod.snd search

/-- The search of `tree_branch` ends at the largest power of two not above `count`. -/
theorem treeBranch_search :
    [32, 16, 8, 4, 2, 1].foldl
        (fun (state : Nat × Nat) i =>
          if state.1 <<< i ≤ count then (state.1 <<< i, state.2 + i) else state) (1, 0) =
      (2 ^ count.log2, count.log2) := by
  have search := foldl_growStep 6 0 (by rw [Nat.pow_zero]; omega)
    (show count < 2 ^ 0 * 2 ^ 2 ^ 6 by rw [Nat.pow_zero, Nat.one_mul]; exact fits)
  rw [halvings_six, Nat.pow_zero] at search
  exact search

end Searches

/-! ### Both functions over the level of leaves -/

/-- `tree_branch` records the branch of the first node of the level of `2 ^ log2 count` nodes. -/
theorem treeBranch_eq (first : Hash) (rest : List Hash) (fits : rest.length + 1 < 2 ^ 64) :
    treeBranch cnFastHash (first :: rest) (rest.length + 1) =
      treeBranchLevels cnFastHash
        ((leafLevel cnFastHash (first :: rest) (rest.length + 1)
          (2 ^ (rest.length + 1).log2)).drop 1) (rest.length + 1).log2 := by
  have above : rest.length + 1 < 2 * 2 ^ (rest.length + 1).log2 := by
    rw [← Nat.pow_succ']
    exact Nat.lt_log2_self
  rw [drop_one_leafLevel cnFastHash first rest above, treeBranch,
    treeBranch_search (Nat.succ_ne_zero _) fits]

/-- The `while (cnt > 2)` loop on a level of `2 ^ (k + 1)` nodes makes `k` levels above it. -/
theorem treeHashLevels_pow :
    ∀ (k : Nat) (ints : List Hash),
      treeHashLevels cnFastHash ints (2 ^ (k + 1)) = (pairUp (hashPair cnFastHash))^[k] ints
  | 0, ints => by
    rw [treeHashLevels, if_neg (by decide)]
    rfl
  | k + 1, ints => by
    have more : 2 < 2 ^ (k + 1 + 1) := by
      rw [Nat.pow_succ, Nat.pow_succ]
      have := Nat.two_pow_pos k
      omega
    have halved : 2 ^ (k + 1 + 1) >>> 1 = 2 ^ (k + 1) := by
      rw [Nat.shiftRight_eq_div_pow, Nat.pow_one, Nat.pow_succ 2 (k + 1),
        Nat.mul_div_cancel _ (by decide)]
    rw [treeHashLevels, if_pos more, halved, treeHashLevels_pow k, Function.iterate_succ_apply]

/-- For more than two leaves, `tree_hash` is the root above the level of `2 ^ log2 (count - 1)`
nodes. -/
theorem treeHash_eq {hashes : List Hash} {count : Nat} (sized : hashes.length = count)
    (many : 2 < count) (fits : count < 2 ^ 64) :
    treeHash cnFastHash hashes count =
      ((pairUp (hashPair cnFastHash))^[(count - 1).log2]
        (leafLevel cnFastHash hashes count (2 ^ (count - 1).log2))).getD 0 default := by
  -- The smeared word is the largest power of two below `count`.
  have word : (UInt64.ofNat (count - 1)).toNat = count - 1 := UInt64.toNat_ofNat_of_lt'
    (show count - 1 < 2 ^ 64 by omega)
  have cnt := @smear_and_not (UInt64.ofNat (count - 1)) (by rw [word]; omega)
  rw [word] at cnt
  -- That power is at least two, so the loop runs down to a level of two nodes.
  obtain ⟨k, exponent⟩ : ∃ k, (count - 1).log2 = k + 1 :=
    ⟨(count - 1).log2 - 1, by have := (Nat.le_log2 (by omega)).mpr (show 2 ^ 1 ≤ count - 1 by omega); omega⟩
  have sizedLevel : (leafLevel cnFastHash hashes count (2 ^ (k + 1))).length = 2 ^ (k + 1) := by
    have low := Nat.log2_self_le (show count - 1 ≠ 0 by omega)
    have high := (Nat.lt_log2_self : count - 1 < 2 ^ ((count - 1).log2 + 1))
    rw [exponent] at low high
    rw [Nat.pow_succ 2 (k + 1)] at high
    exact length_leafLevel cnFastHash sized (by omega) (by omega)
  have two : 2 ≤ ((pairUp (hashPair cnFastHash))^[k]
      (leafLevel cnFastHash hashes count (2 ^ (k + 1)))).length := by
    rw [length_iterate_pairUp, sizedLevel, Nat.pow_succ, Nat.mul_div_cancel_left _ (Nat.two_pow_pos k)]
  rw [treeHash, if_neg (by omega), if_neg (by omega)]
  dsimp only
  rw [cnt, exponent, ← exponent, ← leafLevel, exponent, treeHashLevels_pow,
    ← getD_pairUp_zero (hashPair cnFastHash) default two, ← Function.iterate_succ_apply' (pairUp (hashPair cnFastHash))]

/-- From two leaves on, the level `tree_hash` builds has the root of the level `tree_branch`
builds: the same level, unless `count` is a power of two, when `tree_hash` pairs every leaf and
`tree_branch` keeps them all. -/
theorem root_leafLevel_pred {hashes : List Hash} {count : Nat} (sized : hashes.length = count)
    (two : 2 ≤ count) :
    ((pairUp (hashPair cnFastHash))^[(count - 1).log2]
        (leafLevel cnFastHash hashes count (2 ^ (count - 1).log2))).getD 0 default =
      ((pairUp (hashPair cnFastHash))^[count.log2]
        (leafLevel cnFastHash hashes count (2 ^ count.log2))).getD 0 default := by
  have low := Nat.log2_self_le (show count ≠ 0 by omega)
  have high := (Nat.lt_log2_self : count < 2 ^ (count.log2 + 1))
  rcases Nat.eq_or_lt_of_le low with power | inside
  · -- A power of two, `2 ^ (e + 1)`: below it, `count - 1` has logarithm `e`.
    obtain ⟨e, exponent⟩ : ∃ e, count.log2 = e + 1 := by
      refine ⟨count.log2 - 1, ?_⟩
      have positive : count.log2 ≠ 0 := by
        intro zero
        rw [zero] at power
        omega
      omega
    have halved : count = 2 * 2 ^ e := by rw [← power, exponent, Nat.pow_succ']
    have below : (count - 1).log2 = e := by
      rw [Nat.log2_eq_iff (by omega), Nat.pow_succ']
      have := Nat.two_pow_pos e
      omega
    rw [below, power, leafLevel_half cnFastHash sized halved, leafLevel_self cnFastHash sized,
      exponent, Function.iterate_succ_apply]
  · -- Otherwise `count - 1` lies between the same powers of two as `count`.
    have same : (count - 1).log2 = count.log2 := by
      rw [Nat.log2_eq_iff (by omega)]
      omega
    rw [same]

/-! ### The branch climbs to the root -/

/-- For every count of leaves that fits a `size_t`, and whatever `cn_fast_hash` computes from its
64 bytes: the branch `tree_branch` records for the first leaf, climbed from that leaf over
`tree_depth(count)` levels with a null path, gives the root `tree_hash` computes; and
`tree_depth(count)` is the binary logarithm of `count`. -/
theorem tree_hash_from_branch_eq_tree_hash (first : Hash) (rest : List Hash)
    (fits : rest.length + 1 < 2 ^ 64) :
    treeHashFromBranch cnFastHash (treeBranch cnFastHash (first :: rest) (rest.length + 1))
        (treeDepth (rest.length + 1)) first none =
      treeHash cnFastHash (first :: rest) (rest.length + 1) ∧
    treeDepth (rest.length + 1) = (rest.length + 1).log2 := by
  have depth := treeDepth_eq_log2 (Nat.add_one_ne_zero rest.length) fits
  refine ⟨?_, depth⟩
  -- The level of `2 ^ log2 count` nodes over the leaves, whose first node is the first leaf.
  have low := Nat.log2_self_le (Nat.add_one_ne_zero rest.length)
  have high := (Nat.lt_log2_self : rest.length + 1 < 2 ^ ((rest.length + 1).log2 + 1))
  rw [Nat.pow_succ'] at high
  have sizedLevel := length_leafLevel cnFastHash
    (show (first :: rest).length = rest.length + 1 from rfl) low (Nat.le_of_lt high)
  have firstNode := getD_leafLevel cnFastHash first rest high
  -- The branch has one node a level, and climbing it folds the levels into their root.
  have climbed := treeHashFromBranch_none cnFastHash
    (treeBranchLevels cnFastHash ((leafLevel cnFastHash (first :: rest) (rest.length + 1)
      (2 ^ (rest.length + 1).log2)).drop 1) (rest.length + 1).log2) first
  rw [length_treeBranchLevels] at climbed
  have folded := foldr_treeBranchLevels cnFastHash _ _ sizedLevel
  rw [firstNode] at folded
  rw [treeBranch_eq cnFastHash first rest fits, depth, climbed, folded]
  -- `tree_hash` has that root: one and two leaves directly, more through the level it builds.
  rcases rest with _ | ⟨second, _ | ⟨third, more⟩⟩
  · have one : Nat.log2 1 = 0 := @Nat.log2_two_pow 0
    simp only [List.length_nil, Nat.zero_add, one]
    rfl
  · have two : Nat.log2 2 = 1 := @Nat.log2_two_pow 1
    simp only [List.length_singleton, Nat.reduceAdd, two]
    rfl
  · have sized : (first :: second :: third :: more).length = (second :: third :: more).length + 1 :=
      rfl
    rw [treeHash_eq cnFastHash sized (by simp) fits, root_leafLevel_pred cnFastHash sized (by simp)]

theorem tree_hash_from_branch_eq_tree_hash_on_five_leaves :
    treeHashFromBranch (fun bytes => ⟨Vector.replicate 32 (bytes.headD 0)⟩)
        (treeBranch (fun bytes => ⟨Vector.replicate 32 (bytes.headD 0)⟩)
          [default, default, default, default, default] 5)
        (treeDepth 5) default none =
      treeHash (fun bytes => ⟨Vector.replicate 32 (bytes.headD 0)⟩)
        [default, default, default, default, default] 5 ∧
    treeDepth 5 = Nat.log2 5 :=
  tree_hash_from_branch_eq_tree_hash (fun bytes => ⟨Vector.replicate 32 (bytes.headD 0)⟩) default
    [default, default, default, default] (by decide)

end CryptoNote
