import QuantovaChain.Library.KeyBits

/-!
# Sparse binary hash trees

The hash of a complete binary tree of depth `w` over a partial map from `w`-bit keys to leaf
digests. Missing leaves carry a fixed digest, so the definition recurses through all `2 ^ w`
positions; it is the meaning that every economical evaluation of the tree must agree with. The
module gives the three ways such an evaluation saves work: a subtree depends only on the leaves
below it, an empty subtree has a hash that depends only on its height, and a subtree with one leaf
is a climb from that leaf past empty siblings.
-/

namespace SparseTree

open KeyBits

/-- How two child hashes are joined, and the digest of a missing leaf. -/
structure Scheme (H : Type) where
  node : H → H → H
  missing : H

variable {w : Nat} {H : Type}

/-- Subtree induction: a property of all stems holds when it holds at the leaves and passes from
the two halves of a subtree to the subtree. -/
theorem subtree_induction {motive : Nat → BitVec w → Prop}
    (leaf : ∀ stem, motive w stem)
    (branch : ∀ level stem, level < w → Below level stem stem → motive (level + 1) stem →
      motive (level + 1) (withBit stem level) → motive level stem)
    {level : Nat} {stem : BitVec w} (depth : level ≤ w) (isStem : Below level stem stem) :
    motive level stem := by
  induction depth using Nat.decreasingInduction generalizing stem with
  | self => exact leaf stem
  | of_succ level inside hypothesis =>
    exact branch level stem inside isStem (hypothesis (left_isStem isStem inside))
      (hypothesis (right_isStem isStem inside))

/-- The hash of an empty subtree of the given height. -/
def emptyHash (scheme : Scheme H) : Nat → H
  | 0 => scheme.missing
  | height + 1 => scheme.node (emptyHash scheme height) (emptyHash scheme height)

/-- The hash of the subtree of `stem`, by recursion on its height. -/
def hashBelow (scheme : Scheme H) (digest : BitVec w → Option H) : Nat → Nat → BitVec w → H
  | 0, _, stem => (digest stem).getD scheme.missing
  | height + 1, level, stem =>
    scheme.node (hashBelow scheme digest height (level + 1) stem)
      (hashBelow scheme digest height (level + 1) (withBit stem level))

/-- The hash of the subtree of `stem` at `level`. -/
def treeHash (scheme : Scheme H) (digest : BitVec w → Option H) (level : Nat)
    (stem : BitVec w) : H :=
  hashBelow scheme digest (w - level) level stem

section Evaluation

variable (scheme : Scheme H) (digest : BitVec w → Option H)

theorem treeHash_leaf (stem : BitVec w) :
    treeHash scheme digest w stem = (digest stem).getD scheme.missing := by
  simp [treeHash, hashBelow]

variable {level : Nat}

theorem treeHash_branch (inside : level < w) (stem : BitVec w) : treeHash scheme digest level stem =
      scheme.node (treeHash scheme digest (level + 1) stem)
        (treeHash scheme digest (level + 1) (withBit stem level)) := by
  have height : w - level = w - (level + 1) + 1 := by omega
  simp only [treeHash, height, hashBelow]

theorem emptyHash_branch (inside : level < w) : emptyHash scheme (w - level) =
      scheme.node (emptyHash scheme (w - (level + 1))) (emptyHash scheme (w - (level + 1))) := by
  have height : w - level = w - (level + 1) + 1 := by omega
  rw [height, emptyHash]

variable {digest}

/-- A subtree hash depends only on the leaves below the stem. -/
theorem treeHash_congr {other : BitVec w → Option H} {stem : BitVec w}
    (depth : level ≤ w) (isStem : Below level stem stem)
    (same : ∀ key, Below level stem key → digest key = other key) :
    treeHash scheme digest level stem = treeHash scheme other level stem := by
  revert same
  refine subtree_induction
    (motive := fun level stem => (∀ key, Below level stem key → digest key = other key) →
      treeHash scheme digest level stem = treeHash scheme other level stem) ?_ ?_ depth isStem
  · intro stem same
    rw [treeHash_leaf, treeHash_leaf, same stem ((below_full_iff stem stem).mpr rfl)]
  · intro level stem inside isStem left right same
    rw [treeHash_branch scheme digest inside, treeHash_branch scheme other inside,
      left fun key below => same key ((below_left_iff isStem inside key).mp below).1,
      right fun key below => same key ((below_right_iff isStem inside key).mp below).1]

/-- A subtree without leaves has the empty hash of its height. -/
theorem treeHash_of_empty {stem : BitVec w} (depth : level ≤ w)
    (isStem : Below level stem stem) (vacant : ∀ key, Below level stem key → digest key = none) :
    treeHash scheme digest level stem = emptyHash scheme (w - level) := by
  rw [treeHash_congr scheme depth isStem vacant]
  refine subtree_induction
    (motive := fun level stem => treeHash scheme (fun _ => none) level stem =
      emptyHash scheme (w - level)) ?_ ?_ depth isStem
  · intro stem
    simp [treeHash_leaf, emptyHash]
  · intro level stem inside _ left right
    rw [treeHash_branch scheme _ inside, emptyHash_branch scheme inside, left, right]

end Evaluation

/-- Joins a hash on the path of a key with its sibling. -/
def join (scheme : Scheme H) (bit : Bool) (hash sibling : H) : H :=
  if bit then scheme.node sibling hash else scheme.node hash sibling

/-- Climbs `steps` levels along the path of `key`, ending at `level`. The sibling met at a level is
`sibling` of that level. -/
def climb (scheme : Scheme H) (key : BitVec w) (sibling : Nat → H) (level : Nat) : Nat → H → H
  | 0, hash => hash
  | steps + 1, hash =>
    climb scheme key sibling level steps
      (join scheme (keyBit key (level + steps)) hash (sibling (level + steps)))

/-- The stem of the half of a subtree that the path of `key` leaves aside at `level`. -/
def asideAt (key : BitVec w) (level : Nat) : BitVec w :=
  if keyBit key level then prefixAt key level else withBit (prefixAt key level) level

section Climb

variable (scheme : Scheme H)

/-- Climbing in two stages is climbing at once. -/
theorem climb_add (key : BitVec w) (sibling : Nat → H) (level low high : Nat) (hash : H) :
    climb scheme key sibling level (low + high) hash =
      climb scheme key sibling level low (climb scheme key sibling (level + low) high hash) := by
  induction high generalizing hash with
  | zero => rfl
  | succ high hypothesis =>
    rw [← Nat.add_assoc, climb, hypothesis, climb, Nat.add_assoc]

variable (digest : BitVec w → Option H)

variable {level : Nat}

/-- One level of a key's path, as the join of its two halves. -/
theorem treeHash_join (key : BitVec w) (inside : level < w) :
    treeHash scheme digest level (prefixAt key level) =
      join scheme (keyBit key level) (treeHash scheme digest (level + 1) (prefixAt key (level + 1)))
        (treeHash scheme digest (level + 1) (asideAt key level)) := by
  rw [treeHash_branch scheme digest inside, prefixAt_succ key inside, asideAt, join]
  cases keyBit key level <;> rfl

/-- Climbing past the true siblings from a true subtree hash yields the true hash above. -/
theorem climb_treeHash (key : BitVec w) (sibling : Nat → H) (level steps : Nat)
    (depth : level + steps ≤ w)
    (siblings : ∀ i, level ≤ i → i < level + steps →
      sibling i = treeHash scheme digest (i + 1) (asideAt key i)) :
    climb scheme key sibling level steps
        (treeHash scheme digest (level + steps) (prefixAt key (level + steps))) =
      treeHash scheme digest level (prefixAt key level) := by
  induction steps with
  | zero => rfl
  | succ steps hypothesis =>
    rw [climb, siblings (level + steps) (by omega) (by omega), ← Nat.add_assoc,
      ← treeHash_join scheme digest key (by omega)]
    exact hypothesis (by omega) fun i low high => siblings i low (by omega)

/-- The half a key's path leaves aside does not contain the key. -/
theorem not_below_asideAt (key : BitVec w) (inside : level < w) :
    ¬ Below (level + 1) (asideAt key level) key := by
  have isStem := (below_prefixAt level key).stem_self
  rw [asideAt]
  split
  next branch =>
    rw [below_left_iff isStem inside]
    simp [branch]
  next branch =>
    rw [below_right_iff isStem inside]
    simp [branch]

/-- Everything in the half left aside lies below the key's stem. -/
theorem below_of_asideAt {key other : BitVec w} (inside : level < w)
    (below : Below (level + 1) (asideAt key level) other) :
    Below level (prefixAt key level) other := by
  have isStem := (below_prefixAt level key).stem_self
  rw [asideAt] at below
  split at below
  · exact ((below_left_iff isStem inside other).mp below).1
  · exact ((below_right_iff isStem inside other).mp below).1

theorem asideAt_isStem (key : BitVec w) (inside : level < w) :
    Below (level + 1) (asideAt key level) (asideAt key level) := by
  have isStem := (below_prefixAt level key).stem_self
  rw [asideAt]
  split
  · exact left_isStem isStem inside
  · exact right_isStem isStem inside

/-- A subtree with exactly one leaf is a climb from that leaf past empty siblings. -/
theorem treeHash_of_single {stem key : BitVec w} (depth : level ≤ w) (below : Below level stem key)
    (alone : ∀ other, Below level stem other → other ≠ key → digest other = none) :
    treeHash scheme digest level stem =
      climb scheme key (fun i => emptyHash scheme (w - (i + 1))) level (w - level)
        ((digest key).getD scheme.missing) := by
  have full : level + (w - level) = w := by omega
  have climbed := climb_treeHash scheme digest key
    (fun i => emptyHash scheme (w - (i + 1))) level (w - level) (by omega) ?_
  · rw [full, prefixAt_of_full key w le_rfl, treeHash_leaf] at climbed
    rw [climbed, show prefixAt key level = stem from below]
  · intro i low high
    have inside : i < w := by omega
    refine (treeHash_of_empty scheme (by omega) (asideAt_isStem key inside) ?_).symm
    intro other aside
    apply alone other
    · have lower := below_of_asideAt inside aside
      refine Below.mono low ?_ lower
      rw [Below, prefixAt_prefixAt, min_eq_right low]
      exact below
    · rintro rfl
      exact not_below_asideAt other inside aside

/-- The first step of a climb seen from its upper end. -/
theorem climb_top (key : BitVec w) (sibling : Nat → H) (inside : level < w) (hash : H) :
    climb scheme key sibling level (w - level) hash =
      join scheme (keyBit key level)
        (climb scheme key sibling (level + 1) (w - (level + 1)) hash) (sibling level) := by
  have steps : w - level = 1 + (w - (level + 1)) := by omega
  rw [steps, climb_add]
  rfl

/-- The two hashes joined at a level, in the order they are hashed. -/
def joinPair (bit : Bool) (hash sibling : H) : H × H :=
  if bit then (sibling, hash) else (hash, sibling)

theorem join_eq_node (bit : Bool) (hash sibling : H) :
    join scheme bit hash sibling =
      scheme.node (joinPair bit hash sibling).1 (joinPair bit hash sibling).2 := by
  cases bit <;> rfl

theorem joinPair_hash_inj {bit : Bool} {hash sibling hash' sibling' : H}
    (same : joinPair bit hash sibling = joinPair bit hash' sibling') : hash = hash' := by
  cases bit <;> simp_all [joinPair]

/-- A climb that arrives at the true root started from the true leaf digest, when no two of the
pairs involved collide. Proof: the climb and the tree agree at the root, and agreement at a level
passes down to the next because both hashes there are joins of pairs that cannot collide. -/
theorem climb_sound (key : BitVec w) (sibling : Nat → H) (start : H) (hashed : Set (H × H))
    (injective : Set.InjOn (fun pair : H × H => scheme.node pair.1 pair.2) hashed)
    (treeHashed : ∀ level < w, joinPair (keyBit key level)
      (treeHash scheme digest (level + 1) (prefixAt key (level + 1)))
      (treeHash scheme digest (level + 1) (asideAt key level)) ∈ hashed)
    (climbHashed : ∀ level < w, joinPair (keyBit key level)
      (climb scheme key sibling (level + 1) (w - (level + 1)) start) (sibling level) ∈ hashed)
    (arrived : climb scheme key sibling 0 w start = treeHash scheme digest 0 0) :
    start = (digest key).getD scheme.missing := by
  have agree : ∀ level ≤ w, climb scheme key sibling level (w - level) start =
      treeHash scheme digest level (prefixAt key level) := by
    intro level
    induction level with
    | zero =>
      intro _
      rw [Nat.sub_zero, arrived, prefixAt_zero]
    | succ level hypothesis =>
      intro depth
      have inside : level < w := by omega
      have above := hypothesis (by omega)
      rw [climb_top scheme key sibling inside, treeHash_join scheme digest key inside,
        join_eq_node, join_eq_node] at above
      exact joinPair_hash_inj
        (injective (climbHashed level inside) (treeHashed level inside) above)
  have leaf := agree w le_rfl
  rwa [Nat.sub_self, climb, prefixAt_of_full key w le_rfl, treeHash_leaf] at leaf

end Climb

end SparseTree
