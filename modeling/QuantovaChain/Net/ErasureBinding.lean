import QuantovaChain.Net.ErasureCorrect

/-!
# Commitments bind the shards

The proof of a shard is its path in the tree of hashes, so every shard of an encoding verifies. What
verifies under the commitment of an encoding is a shard of it with its own proof, as long as what
the verifier hashes does not collide with what the encoder hashed.
-/

namespace QuantovaChain.Net

open State (Bytes Hash)
open Elimination (Square)
open LevelTree

theorem joinInput_inj {first second : Join Hash} (same : joinInput first = joinInput second) :
    first = second := by
  cases first with
  | pair left right =>
    cases second with
    | pair left' right' =>
      have parts := List.append_inj (List.cons.inj same).2 (by simp)
      rw [Vector.toList_inj.mp parts.1, Vector.toList_inj.mp parts.2]
    | odd only => cases (List.cons.inj same).1
  | odd only =>
    cases second with
    | pair left right => cases (List.cons.inj same).1
    | odd only' => rw [Vector.toList_inj.mp (List.cons.inj same).2]

theorem leafInput_inj {shardLen : Nat} {first second : Bytes}
    (same : leafInput shardLen first = leafInput shardLen second) : first = second :=
  List.append_cancel_left (List.cons.inj same).2

theorem rootInput_inj {first second : Hash} {k n shardLen dataLen : Nat}
    (same : rootInput first k n shardLen dataLen = rootInput second k n shardLen dataLen) :
    first = second := by
  simp only [rootInput, List.cons_append, List.append_assoc, List.cons.injEq, true_and,
    List.append_cancel_right_eq] at same
  exact Vector.toList_inj.mp same

section Binding

variable [Platform]

theorem siblingsFrom_levels (leaves : List Hash) (index : Nat) :
    siblingsFrom (levels joinHash leaves) index = path joinHash leaves index := by
  induction leaves using levels.induct joinHash generalizing index with
  | case1 level narrow =>
    rw [levels, if_pos narrow, siblingsFrom, if_pos narrow, path, if_pos narrow]
  | case2 level wide hypothesis =>
    rw [levels, if_neg wide, siblingsFrom, if_neg wide, path, if_neg wide,
      hypothesis]

theorem treeRoot_levels {leaves : List Hash} {root : Hash}
    (reached : top joinHash leaves = some root) :
    treeRoot (levels joinHash leaves) = root := by
  have last : (levels joinHash leaves).getLast?.bind List.head? = some root := by
    induction leaves using levels.induct joinHash with
    | case1 level narrow =>
      rw [top, if_pos narrow] at reached
      rw [levels, if_pos narrow]
      exact reached
    | case2 level wide hypothesis =>
      rw [top, if_neg wide] at reached
      have some := hypothesis reached
      have inner : levels joinHash (above joinHash level) ≠ [] := by
        intro empty
        rw [empty] at some
        cases some
      rw [levels, if_neg wide, List.getLast?_cons_of_ne_nil inner]
      exact some
  rw [treeRoot, last, Option.getD_some]

/-- What the encoder hashes. -/
def Coded.inputs (coded : Coded) : List Bytes :=
  let leaves := coded.shards.map fun shard => leafHash coded.commitment.shardLen shard.bytes
  coded.shards.map (fun shard => leafInput coded.commitment.shardLen shard.bytes) ++
    (treeJoins joinHash leaves).map joinInput ++
    [rootInput (treeRoot coded.tree) coded.commitment.k coded.commitment.n coded.commitment.shardLen
      coded.commitment.dataLen]

/-- What the verifier hashes. -/
def Commitment.inputs (commitment : Commitment) (shard : Shard) (proof : ShardProof) : List Bytes :=
  let leaf := leafHash commitment.shardLen shard.bytes
  leafInput commitment.shardLen shard.bytes ::
    (climbJoins joinHash leaf shard.index commitment.n proof.siblings).map joinInput ++
    ((climb joinHash leaf shard.index commitment.n proof.siblings).map fun reached =>
      rootInput reached.1 commitment.k commitment.n commitment.shardLen commitment.dataLen).toList

variable {shard : Shard} {proof : ShardProof} {coded : Coded} {available : Nat}

theorem verifyShard_iff {commitment : Commitment} : commitment.verifyShard shard proof = true ↔
      outOfRange commitment.k commitment.n = false ∧ shard.index < commitment.n ∧
        shard.bytes.length = commitment.shardLen ∧
        ∃ node, climb joinHash (leafHash commitment.shardLen shard.bytes) shard.index
            commitment.n proof.siblings = some (node, []) ∧
          rootHash node commitment.k commitment.n commitment.shardLen commitment.dataLen =
            commitment.root := by
  unfold Commitment.verifyShard
  by_cases refused : (outOfRange commitment.k commitment.n || decide (commitment.n ≤ shard.index) ||
      shard.bytes.length != commitment.shardLen) = true
  · rw [if_pos refused]
    simp only [Bool.or_eq_true, decide_eq_true_eq, bne_iff_ne] at refused
    constructor
    · exact nofun
    · rintro ⟨inRange, inside, length, _⟩
      rcases refused with (out | beyond) | short
      · rw [inRange] at out
        cases out
      · omega
      · exact absurd length short
  · rw [if_neg refused]
    simp only [Bool.or_eq_true, decide_eq_true_eq, bne_iff_ne, not_or, Bool.not_eq_true, ne_eq,
      not_not, not_le] at refused
    obtain ⟨⟨inRange, inside⟩, length⟩ := refused
    constructor
    · intro verified
      split at verified
      next node climbed => exact ⟨inRange, inside, length, node, climbed, by simpa using verified⟩
      next => cases verified
    · rintro ⟨_, _, _, node, climbed, bound⟩
      rw [climbed]
      simpa using bound

/-! ## The leaves of an encoding -/

variable {data : Bytes} {k n : Nat} {top : Square Gf k}

/-- The leaves of the tree over the shards. -/
def shardLeaves (data : Bytes) {k : Nat} (top : Square Gf k) (n : Nat) : List Hash :=
  (shardBytes data top n).map (leafHash (shardLength data k))

omit [Platform] in
theorem getElem?_shardsOf (index : Nat) :
    (shardsOf data top n)[index]? = (shardBytes data top n)[index]?.map (Shard.mk index) := by
  simp only [shardsOf, List.getElem?_mapIdx]

theorem map_leafHash_shardsOf :
    (shardsOf data top n).map (fun shard => leafHash (shardLength data k) shard.bytes) =
      shardLeaves data top n := by
  apply List.ext_getElem?
  intro index
  rw [List.getElem?_map, getElem?_shardsOf, shardLeaves, List.getElem?_map, Option.map_map]
  rfl

theorem length_shardLeaves (fits : k ≤ n) : (shardLeaves data top n).length = n := by
  rw [shardLeaves, List.length_map, length_shardBytes data top fits]

theorem exists_top (positive : 1 ≤ k) (fits : k ≤ n) :
    ∃ root, LevelTree.top joinHash (shardLeaves data top n) = some root := by
  have inside : 0 < (shardLeaves data top n).length := by
    rw [length_shardLeaves fits]
    omega
  obtain ⟨root, reached, _⟩ := climb_path joinHash _ (List.getElem?_eq_getElem inside)
  exact ⟨root, reached⟩

theorem proof_codedOf (fits : k ≤ n) (inside : shard.index < n) :
    (codedOf data top n).proof shard.index =
      some ⟨path joinHash (shardLeaves data top n) shard.index⟩ := by
  have many : (shardsOf data top n).length = n := by
    rw [shardsOf, List.length_mapIdx, length_shardBytes data top fits]
  have there : ¬(codedOf data top n).shards.length ≤ shard.index := by
    change ¬(shardsOf data top n).length ≤ shard.index
    omega
  rw [Coded.proof, if_neg there]
  exact congrArg (fun siblings => some (ShardProof.mk siblings)) (siblingsFrom_levels _ _)

/-- Nothing the verifier hashes collides with what the encoder hashed. -/
def CollisionFree (coded : Coded) (shard : Shard) (proof : ShardProof) : Prop :=
  ∀ ours ∈ coded.inputs, ∀ theirs ∈ coded.commitment.inputs shard proof,
    Platform.sha3 ours = Platform.sha3 theirs → ours = theirs

/-- Leaves do not collide, nor do joins, nor the roots. -/
theorem CollisionFree.parts
    (free : CollisionFree coded shard proof) {node : Hash} {rest : List Hash}
    (climbed : climb joinHash (leafHash coded.commitment.shardLen shard.bytes) shard.index
      coded.commitment.n proof.siblings = some (node, rest)) :
    let commitment := coded.commitment
    (∀ ours ∈ coded.shards, leafHash commitment.shardLen ours.bytes =
      leafHash commitment.shardLen shard.bytes →
        leafInput commitment.shardLen ours.bytes = leafInput commitment.shardLen shard.bytes) ∧
    (∀ ours ∈ treeJoins joinHash (coded.shards.map fun shard =>
      leafHash commitment.shardLen shard.bytes), ∀ theirs ∈ climbJoins joinHash
        (leafHash commitment.shardLen shard.bytes) shard.index commitment.n proof.siblings,
          joinHash ours = joinHash theirs → ours = theirs) ∧
    (rootHash (treeRoot coded.tree) commitment.k commitment.n commitment.shardLen
      commitment.dataLen =
        rootHash node commitment.k commitment.n commitment.shardLen commitment.dataLen →
      rootInput (treeRoot coded.tree) commitment.k commitment.n commitment.shardLen
        commitment.dataLen =
          rootInput node commitment.k commitment.n commitment.shardLen commitment.dataLen) := by
  refine ⟨?_, ?_, ?_⟩
  · intro ours inside
    refine free _ ?_ _ ?_
    · exact List.mem_append_left _ (List.mem_append_left _ (List.mem_map_of_mem inside))
    · exact List.mem_cons_self
  · intro ours inTree theirs inClimb hashed
    refine joinInput_inj (free _ ?_ _ ?_ hashed)
    · exact List.mem_append_left _ (List.mem_append_right _ (List.mem_map_of_mem inTree))
    · exact List.mem_cons_of_mem _ (List.mem_append_left _ (List.mem_map_of_mem inClimb))
  · refine free _ ?_ _ ?_
    · exact List.mem_append_right _ List.mem_cons_self
    · rw [Commitment.inputs, climbed]
      exact List.mem_append_right _ List.mem_cons_self

theorem shard_verifies (encoded : encode available data k n = .ok coded)
    (inside : shard ∈ coded.shards) :
    ∃ proof, coded.proof shard.index = some proof ∧
      coded.commitment.verifyShard shard proof = true := by
  obtain ⟨inRange, top, turned, rfl⟩ := encode_spec encoded
  obtain ⟨positive, fits, _⟩ := outOfRange_eq_false.mp inRange
  obtain ⟨below, codes⟩ := codes_of_mem turned fits inside
  have leaf : (shardLeaves data top n)[shard.index]? =
      some (leafHash (shardLength data k) shard.bytes) := by
    obtain ⟨index, there, rfl⟩ := List.mem_mapIdx.mp inside
    rw [shardLeaves, List.getElem?_map, List.getElem?_eq_getElem there]
    rfl
  obtain ⟨root, reached, climbed⟩ := climb_path joinHash _ leaf
  rw [length_shardLeaves fits] at climbed
  refine ⟨_, proof_codedOf fits below, verifyShard_iff.mpr ⟨inRange, below, codes.length, root,
    climbed, ?_⟩⟩
  rw [← treeRoot_levels reached]
  rfl

theorem shard_of_verified (encoded : encode available data k n = .ok coded)
    (free : CollisionFree coded shard proof)
    (verified : coded.commitment.verifyShard shard proof = true) :
    coded.shards[shard.index]? = some shard ∧ coded.proof shard.index = some proof := by
  obtain ⟨inRange, top, turned, rfl⟩ := encode_spec encoded
  obtain ⟨positive, fits, _⟩ := outOfRange_eq_false.mp inRange
  obtain ⟨_, below, length, node, climbed, bound⟩ := verifyShard_iff.mp verified
  obtain ⟨root, reached⟩ := exists_top positive fits
  obtain ⟨leafFree, joinFree, rootFree⟩ := free.parts climbed
  have sameRoot : node = root := by
    have hashed : rootHash (treeRoot (shardTree data top n)) k n (shardLength data k) data.length =
        rootHash node k n (shardLength data k) data.length := bound.symm
    rw [← treeRoot_levels reached]
    exact (rootInput_inj (rootFree hashed)).symm
  rw [← sameRoot] at reached
  obtain ⟨there, path⟩ := climb_sound joinHash (shardLeaves data top n)
    (by rw [length_shardLeaves fits]; exact below) reached
    (by rw [length_shardLeaves fits]; exact climbed)
    (by rw [length_shardLeaves fits, ← map_leafHash_shardsOf]; exact joinFree)
  rw [shardLeaves, List.getElem?_map, Option.map_eq_some_iff] at there
  obtain ⟨bytes, found, hashed⟩ := there
  have ours : (shardsOf data top n)[shard.index]? = some ⟨shard.index, bytes⟩ := by
    rw [getElem?_shardsOf, found]
    rfl
  have same := leafInput_inj (leafFree _ (List.mem_of_getElem? ours) hashed)
  refine ⟨?_, ?_⟩
  · change (shardsOf data top n)[shard.index]? = some shard
    rw [ours]
    exact congrArg (fun bytes => some (Shard.mk shard.index bytes)) same
  · rw [proof_codedOf fits below, ← path]

/-- Every shard of an encoding verifies with its own proof, and under the commitment of the encoding
nothing else does. The root binds the hash of each shard, unless hashes collide. -/
theorem commitment_binds (available : Nat) (data : Bytes) (k n : Nat) (positive : 1 ≤ k)
    (fits : k ≤ n) (few : n ≤ 256) :
    ∃ coded, encode available data k n = .ok coded ∧
      (∀ shard ∈ coded.shards, ∃ proof, coded.proof shard.index = some proof ∧
        coded.commitment.verifyShard shard proof = true) ∧
      ∀ shard proof, CollisionFree coded shard proof →
        coded.commitment.verifyShard shard proof = true →
          coded.shards[shard.index]? = some shard ∧ coded.proof shard.index = some proof := by
  obtain ⟨_, encoded⟩ := exists_encode available data positive fits few
  exact ⟨_, encoded, fun _ inside => shard_verifies encoded inside,
    fun _ _ free verified => shard_of_verified encoded free verified⟩

/-- Nothing that one encoder hashes collides with what another hashes. -/
def CollisionFreePair (first second : Coded) : Prop :=
  ∀ ours ∈ first.inputs, ∀ theirs ∈ second.inputs,
    Platform.sha3 ours = Platform.sha3 theirs → ours = theirs

omit [Platform] in
theorem TopInverse.unique {first second : Square Gf k} (one : TopInverse k first)
    (other : TopInverse k second) : first = second := by
  have same := one.found.symm.trans other.found
  injection same

theorem leaves_inj {first second : List Bytes} {shardLen : Nat}
    (free : ∀ ours ∈ first, ∀ theirs ∈ second, leafHash shardLen ours = leafHash shardLen theirs →
      leafInput shardLen ours = leafInput shardLen theirs)
    (same : first.map (leafHash shardLen) = second.map (leafHash shardLen)) : first = second := by
  have length : first.length = second.length := by
    simpa only [List.length_map] using congrArg List.length same
  apply List.ext_getElem length
  intro place inFirst inSecond
  have hashed := congrArg (fun leaves => leaves[place]?) same
  simp only [List.getElem?_map, List.getElem?_eq_getElem inFirst,
    List.getElem?_eq_getElem inSecond, Option.map_some, Option.some.injEq] at hashed
  exact leafInput_inj (free _ (List.getElem_mem inFirst) _ (List.getElem_mem inSecond) hashed)

theorem leafInput_mem_inputs {bytes : Bytes} (inside : bytes ∈ shardBytes data top n) :
    leafInput (shardLength data k) bytes ∈ (codedOf data top n).inputs := by
  obtain ⟨place, there, rfl⟩ := List.getElem_of_mem inside
  have shard : (⟨place, (shardBytes data top n)[place]⟩ : Shard) ∈ shardsOf data top n :=
    List.mem_mapIdx.mpr ⟨place, there, rfl⟩
  exact List.mem_append_left _ (List.mem_append_left _ (List.mem_map.mpr ⟨_, shard, rfl⟩))

/-- The commitment of an encoding determines the data. -/
theorem data_of_commitment {cores : Nat} {data other : Bytes} {k n : Nat}
    {first second : Coded} (encoded : encode available data k n = .ok first)
    (again : encode cores other k n = .ok second) (free : CollisionFreePair first second)
    (same : first.commitment = second.commitment) : data = other := by
  obtain ⟨inRange, top, turned, rfl⟩ := encode_spec encoded
  obtain ⟨-, top', turned', rfl⟩ := encode_spec again
  cases turned.unique turned'
  obtain ⟨positive, fits, _⟩ := outOfRange_eq_false.mp inRange
  obtain ⟨root, reached⟩ : ∃ root, LevelTree.top joinHash (shardLeaves data top n) = some root :=
    exists_top positive fits
  obtain ⟨root', reached'⟩ : ∃ root, LevelTree.top joinHash (shardLeaves other top n) = some root :=
    exists_top positive fits
  obtain ⟨rootSame, -, -, shardLen, dataLen⟩ := Commitment.mk.inj same
  have sizes : shardLength data k = shardLength other k := shardLen
  have lengths : data.length = other.length := dataLen
  have roots : root = root' := by
    have inputs := free _ (List.mem_append_right _ List.mem_cons_self) _
      (List.mem_append_right _ List.mem_cons_self) rootSame
    rw [← treeRoot_levels reached, ← treeRoot_levels reached']
    refine rootInput_inj (inputs.trans ?_)
    change rootInput _ k n (shardLength other k) other.length = _
    rw [← sizes, ← lengths]
    rfl
  have leaves : shardLeaves data top n = shardLeaves other top n := by
    refine top_inj joinHash ?_ (by rw [reached, reached', roots]) ?_
    · rw [length_shardLeaves fits, length_shardLeaves fits]
    · intro ours inOurs theirs inTheirs hashed
      rw [← map_leafHash_shardsOf] at inOurs inTheirs
      exact joinInput_inj (free _
        (List.mem_append_left _ (List.mem_append_right _ (List.mem_map_of_mem inOurs))) _
        (List.mem_append_left _ (List.mem_append_right _ (List.mem_map_of_mem inTheirs))) hashed)
  have shards : shardBytes data top n = shardBytes other top n := by
    rw [shardLeaves, shardLeaves, ← sizes] at leaves
    refine leaves_inj (fun ours inOurs theirs inTheirs hashed => ?_) leaves
    have theirInput := leafInput_mem_inputs inTheirs
    rw [← sizes] at theirInput
    exact free _ (leafInput_mem_inputs inOurs) _ theirInput hashed
  have pieces : pieces data k = pieces other k :=
    (List.append_inj shards (by simp [Net.pieces])).1
  rw [← take_flatten_pieces data positive, pieces, lengths, take_flatten_pieces other positive]

end Binding

/-- A hash that tells the few inputs of a small encoding apart by their ends. -/
@[reducible] def endsPlatform : Platform :=
  { Platform.blank with
    sha3 := fun input => Vector.replicate 32 (input.headD 0 * 64 + input.getLastD 0) }

/-- Two bytes in two shards: the second shard verifies with the hash of the first as its proof, and
so it is the encoder's. -/
theorem commitment_binds_two :
    ∃ coded, letI := endsPlatform
      encode 1 [5, 6] 2 2 = .ok coded ∧
        CollisionFree coded ⟨1, [6]⟩ ⟨[leafHash 1 [5]]⟩ ∧
        coded.commitment.verifyShard ⟨1, [6]⟩ ⟨[leafHash 1 [5]]⟩ = true ∧
        coded.shards[1]? = some ⟨1, [6]⟩ := by
  let := endsPlatform
  obtain ⟨coded, encoded, _, sound⟩ :=
    commitment_binds 1 [5, 6] 2 2 (by decide) (by decide) (by decide)
  obtain ⟨_, top, _, rfl⟩ := encode_spec encoded
  have joins : treeJoins joinHash [leafHash 1 [5], leafHash 1 [6]] =
      [.pair (leafHash 1 [5]) (leafHash 1 [6])] := by
    simp [treeJoins, joins, above]
  have way : climbJoins joinHash (leafHash 1 [6]) 1 2 [leafHash 1 [5]] =
      [.pair (leafHash 1 [5]) (leafHash 1 [6])] := by
    simp [climbJoins, joinAt, LevelTree.Alone]
  have climbed : climb joinHash (leafHash 1 [6]) 1 2 [leafHash 1 [5]] =
      some (joinHash (.pair (leafHash 1 [5]) (leafHash 1 [6])), []) := by
    simp [climb, joinAt, LevelTree.Alone]
  have root : treeRoot (shardTree [5, 6] top 2) =
      joinHash (.pair (leafHash 1 [5]) (leafHash 1 [6])) := by
    change treeRoot (levels joinHash [leafHash 1 [5], leafHash 1 [6]]) = _
    apply treeRoot_levels
    simp [LevelTree.top, above, LevelTree.joins]
  have free : CollisionFree (codedOf [5, 6] top 2) ⟨1, [6]⟩ ⟨[leafHash 1 [5]]⟩ := by
    have ours : (codedOf [5, 6] top 2).inputs = [leafInput 1 [5], leafInput 1 [6],
        joinInput (.pair (leafHash 1 [5]) (leafHash 1 [6])),
        rootInput (joinHash (.pair (leafHash 1 [5]) (leafHash 1 [6]))) 2 2 1 2] := by
      change [leafInput 1 [5], leafInput 1 [6]] ++ (treeJoins joinHash
        [leafHash 1 [5], leafHash 1 [6]]).map joinInput ++
          [rootInput (treeRoot (shardTree [5, 6] top 2)) 2 2 1 2] = _
      rw [joins, root]
      rfl
    have theirs : (codedOf [5, 6] top 2).commitment.inputs ⟨1, [6]⟩ ⟨[leafHash 1 [5]]⟩ =
        [leafInput 1 [6], joinInput (.pair (leafHash 1 [5]) (leafHash 1 [6])),
          rootInput (joinHash (.pair (leafHash 1 [5]) (leafHash 1 [6]))) 2 2 1 2] := by
      change leafInput 1 [6] :: (climbJoins joinHash (leafHash 1 [6]) 1 2
        [leafHash 1 [5]]).map joinInput ++ ((climb joinHash (leafHash 1 [6]) 1 2
          [leafHash 1 [5]]).map fun reached => rootInput reached.1 2 2 1 2).toList = _
      rw [way, climbed]
      rfl
    unfold CollisionFree
    rw [ours, theirs]
    decide
  have verified : (codedOf [5, 6] top 2).commitment.verifyShard ⟨1, [6]⟩
      ⟨[leafHash 1 [5]]⟩ = true := by
    refine verifyShard_iff.mpr ⟨rfl, Nat.one_lt_two, rfl, _, climbed, ?_⟩
    rw [← root]
    rfl
  exact ⟨_, encoded, free, verified, (sound _ _ free verified).1⟩

end QuantovaChain.Net
