import QuantovaChain.State.Root

/-!
# State proofs

A proof made by a trie verifies against the trie's root and carries the value of its key, present
or absent. In the other direction, a proof that verifies against the root carries that value,
whatever its siblings are, as long as the hash function has no collision and no zero hash among the
inputs that the tree and the verification hash.
-/

namespace QuantovaChain.State

open KeyBits SparseTree

section Hashing

variable (sha3 : Bytes → Hash)

/-- The inputs hashed at some position of the tree over a leaf map, empty subtrees included. -/
def treeInputs (leaves : LeafMap) : Set Bytes :=
  {input | (∃ key value, leaves key = some value ∧ input = leafInput value) ∨
    ∃ level stem, level < depth ∧ Below level stem stem ∧
      input = nodeInput (mapHash sha3 leaves (level + 1) stem)
        (mapHash sha3 leaves (level + 1) (withBit stem level))}

/-- The inputs hashed while verifying a proof. -/
def Proof.inputs (key : Key) (proof : Proof) : Set Bytes :=
  {input | (∃ value, proof.value = some value ∧ input = leafInput value) ∨
    ∃ level, level < depth ∧
      input = nodeInput
        (joinPair (keyBit key level) (climb (scheme sha3) key proof.sibling (level + 1)
          (depth - (level + 1)) (proof.start sha3)) (proof.sibling level)).1
        (joinPair (keyBit key level) (climb (scheme sha3) key proof.sibling (level + 1)
          (depth - (level + 1)) (proof.start sha3)) (proof.sibling level)).2}

theorem verify_iff (key : Key) (proof : Proof) (root : Hash) :
    verify sha3 key proof root = true ↔
      proof.siblings.length = depth ∧
        climb (scheme sha3) key proof.sibling 0 depth (proof.start sha3) = root := by
  simp only [verify, ne_eq, ite_not]
  split <;> simp_all

theorem nodeInput_inj {left right left' right' : Hash}
    (same : nodeInput left right = nodeInput left' right') : left = left' ∧ right = right' := by
  simp only [nodeInput, List.cons.injEq, true_and] at same
  obtain ⟨first, second⟩ := List.append_inj same (by simp)
  exact ⟨Vector.toList_inj.mp first, Vector.toList_inj.mp second⟩

theorem leafInput_inj {value value' : Bytes} (same : leafInput value = leafInput value') :
    value = value' := by
  simpa [leafInput] using same

/-- The pair joined on a key's path is hashed at a position of the tree. -/
theorem treeInputs_path (leaves : LeafMap) (key : Key) {level : Nat} (inside : level < depth) :
    nodeInput
      (joinPair (keyBit key level) (mapHash sha3 leaves (level + 1) (prefixAt key (level + 1)))
        (mapHash sha3 leaves (level + 1) (asideAt key level))).1
      (joinPair (keyBit key level) (mapHash sha3 leaves (level + 1) (prefixAt key (level + 1)))
        (mapHash sha3 leaves (level + 1) (asideAt key level))).2 ∈ treeInputs sha3 leaves := by
  refine .inr ⟨level, prefixAt key level, inside, (below_prefixAt level key).stem_self, ?_⟩
  rw [prefixAt_succ key inside, asideAt]
  cases keyBit key level <;> rfl

/-- The genuine proof for a key of a leaf map. -/
def genuineProof (leaves : LeafMap) (key : Key) : Proof where
  value := leaves key
  siblings := (List.range depth).map fun level =>
    mapHash sha3 leaves (level + 1) (asideAt key level)

/-- Along the path of its key, the genuine proof climbs through the hashes of the tree. -/
theorem climb_genuine (leaves : LeafMap) (key : Key) {level : Nat} (inside : level ≤ depth) :
    climb (scheme sha3) key (genuineProof sha3 leaves key).sibling level (depth - level)
        ((genuineProof sha3 leaves key).start sha3) =
      mapHash sha3 leaves level (prefixAt key level) := by
  have full : level + (depth - level) = depth := by omega
  have climbed := climb_treeHash (scheme sha3) (digests sha3 leaves) key
    (genuineProof sha3 leaves key).sibling level (depth - level) full.le fun i _ high => by
      rw [full] at high
      simp [Proof.sibling, genuineProof, high, mapHash]
  rw [full, prefixAt_of_full key depth le_rfl, treeHash_leaf] at climbed
  rw [mapHash, ← climbed]
  congr 1
  rw [Proof.start, genuineProof, digests]
  cases leaves key <;> rfl

/-- The genuine proof verifies. -/
theorem verify_genuine (leaves : LeafMap) (key : Key) :
    verify sha3 key (genuineProof sha3 leaves key) (mapHash sha3 leaves 0 0) = true := by
  rw [verify_iff]
  refine ⟨by simp [genuineProof], ?_⟩
  rw [← prefixAt_zero key]
  exact climb_genuine sha3 leaves key (Nat.zero_le depth)

/-- Verifying the genuine proof hashes only inputs of the tree. -/
theorem genuineProof_inputs_subset (leaves : LeafMap) (key : Key) :
    (genuineProof sha3 leaves key).inputs sha3 key ⊆ treeInputs sha3 leaves := by
  rintro input (⟨value, carried, rfl⟩ | ⟨level, inside, rfl⟩)
  · exact .inl ⟨key, value, carried, rfl⟩
  · have sibling : (genuineProof sha3 leaves key).sibling level =
        mapHash sha3 leaves (level + 1) (asideAt key level) := by
      simp [Proof.sibling, genuineProof, inside]
    rw [climb_genuine sha3 leaves key (Nat.succ_le_of_lt inside), sibling]
    exact treeInputs_path sha3 leaves key inside

/-- A proof that verifies against the hash of a leaf map carries the value of its key. -/
theorem verify_sound (leaves : LeafMap) (key : Key) (proof : Proof)
    (injective : Set.InjOn sha3 (treeInputs sha3 leaves ∪ proof.inputs sha3 key))
    (nonzero : ∀ input ∈ treeInputs sha3 leaves ∪ proof.inputs sha3 key, sha3 input ≠ defaultLeaf)
    (verified : verify sha3 key proof (mapHash sha3 leaves 0 0) = true) :
    proof.value = leaves key := by
  have arrived := ((verify_iff sha3 key proof _).mp verified).2
  have started := climb_sound (scheme sha3) (digests sha3 leaves) key proof.sibling
    (proof.start sha3)
    {pair | nodeInput pair.1 pair.2 ∈ treeInputs sha3 leaves ∪ proof.inputs sha3 key}
    (fun a aHashed b bHashed same => ?_)
    (fun level inside => .inl (treeInputs_path sha3 leaves key inside))
    (fun level inside => .inr (.inr ⟨level, inside, rfl⟩)) arrived
  · cases claimed : proof.value with
    | none =>
      cases stored : leaves key with
      | none => rfl
      | some value =>
        have zero : sha3 (leafInput value) = defaultLeaf := by
          simpa [Proof.start, claimed, digests, stored, leafHash] using started.symm
        exact absurd zero (nonzero _ (.inl (.inl ⟨key, value, stored, rfl⟩)))
    | some value =>
      have claimedHashed : leafInput value ∈ treeInputs sha3 leaves ∪ proof.inputs sha3 key :=
        .inr (.inl ⟨value, claimed, rfl⟩)
      cases stored : leaves key with
      | none =>
        have zero : sha3 (leafInput value) = defaultLeaf := by
          simpa [Proof.start, claimed, digests, stored, leafHash, scheme] using started
        exact absurd zero (nonzero _ claimedHashed)
      | some value' =>
        have same : sha3 (leafInput value) = sha3 (leafInput value') := by
          simpa [Proof.start, claimed, digests, stored, leafHash] using started
        rw [leafInput_inj
          (injective claimedHashed (.inl (.inl ⟨key, value', stored, rfl⟩)) same)]
  · obtain ⟨left, right⟩ := nodeInput_inj (injective aHashed bHashed same)
    exact Prod.ext left right

/-- State proofs are complete and sound for every trie a history of operations produces. Every proof
the trie makes verifies against its root and carries the value of its key. Every proof that verifies
against its root carries that value, provided that the hash function has no collision and no zero
hash among the inputs hashed by the tree and by that verification. What is cached is the hash of the
plain tree at every step. -/
theorem proofs_complete_and_sound (ops : List Op) (store : Store)
    (ran : (Store.initial sha3).run sha3 ops = some store) (trie : Trie)
    (listed : trie ∈ store.tries) (key : Key) :
    (∀ unique unique', ∃ proof proved memo root rooted memo',
      trie.prove sha3 unique key store.memo = some (proof, proved, memo) ∧
      proved.root sha3 unique' memo = some (root, rooted, memo') ∧
      verify sha3 key proof root = true ∧ proof.value = trie.get key) ∧
    ∀ proof unique root rooted memo',
      trie.root sha3 unique store.memo = some (root, rooted, memo') →
      Set.InjOn sha3 (treeInputs sha3 trie.get ∪ proof.inputs sha3 key) →
      (∀ input ∈ treeInputs sha3 trie.get ∪ proof.inputs sha3 key, sha3 input ≠ defaultLeaf) →
      verify sha3 key proof root = true → proof.value = trie.get key := by
  obtain ⟨store', ran', coherent⟩ := Store.run_coherent sha3 (Store.initial_coherent sha3) ops
  obtain rfl : store' = store := Option.some.inj (ran'.symm.trans ran)
  have trieCoherent := coherent.tries trie listed
  constructor
  · intro unique unique'
    obtain ⟨proved, memo, made, memoValid, provedCoherent, sameLeaves⟩ :=
      Trie.prove_spec sha3 trieCoherent unique key coherent.memo
    obtain ⟨rooted, memo', computed, _⟩ :=
      Trie.root_spec sha3 provedCoherent unique' memoValid
    have sameGet : proved.get = trie.get := by
      funext other
      rw [Trie.get, sameLeaves, ← Trie.get]
    rw [sameGet] at computed
    exact ⟨_, proved, memo, _, rooted, memo', made, computed,
      verify_genuine sha3 trie.get key, rfl⟩
  · intro proof unique root rooted memo' computed injective nonzero verified
    obtain ⟨_, _, computed', _⟩ := Trie.root_spec sha3 trieCoherent unique coherent.memo
    obtain rfl : mapHash sha3 trie.get 0 0 = root :=
      congrArg Prod.fst (Option.some.inj (computed'.symm.trans computed))
    exact verify_sound sha3 trie.get key proof injective nonzero verified

end Hashing

/-! A small hash function without collisions on the tree of one leaf: a hash says whether a leaf
lies below, and how high the subtree is. -/

/-- The hash of a subtree of the given height. -/
def sampleHash (occupied : Bool) (height : Nat) : Hash :=
  ⟨((if occupied then 1 else 0) :: UInt8.ofNat (height / 256) :: UInt8.ofNat height ::
    List.replicate 29 0).toArray, by simp⟩

/-- Reads the occupancy and the height of two joined subtrees back; any other input is a leaf. -/
def sampleSha3 : Bytes → Hash
  | 1 :: occupied :: high :: low :: rest =>
    sampleHash (occupied = 1 || rest.getD 29 0 = 1) (high.toNat * 256 + low.toNat + 1)
  | _ => sampleHash true 0

theorem sampleHash_toList (occupied : Bool) (height : Nat) :
    (sampleHash occupied height).toList =
      (if occupied then 1 else 0) :: UInt8.ofNat (height / 256) :: UInt8.ofNat height ::
        List.replicate 29 0 :=
  rfl

theorem sampleHash_inj {occupied occupied' : Bool} {height height' : Nat} (low : height ≤ 256)
    (low' : height' ≤ 256) (same : sampleHash occupied height = sampleHash occupied' height') :
    occupied = occupied' ∧ height = height' := by
  have bytes := congrArg Vector.toList same
  simp only [sampleHash_toList, List.cons.injEq, and_true] at bytes
  obtain ⟨first, second, third⟩ := bytes
  have secondNat := congrArg UInt8.toNat second
  have thirdNat := congrArg UInt8.toNat third
  simp only [UInt8.toNat_ofNat'] at secondNat thirdNat
  refine ⟨?_, by omega⟩
  cases occupied <;> cases occupied' <;> simp_all

theorem sampleSha3_node (left right : Bool) {height : Nat} (low : height < 256) :
    sampleSha3 (nodeInput (sampleHash left height) (sampleHash right height)) =
      sampleHash (left || right) (height + 1) := by
  rw [nodeInput, sampleHash_toList, sampleHash_toList]
  simp only [nodeDomain, List.cons_append, sampleSha3]
  congr 1
  · cases left <;> cases right <;> rfl
  · simp only [UInt8.toNat_ofNat']
    omega

theorem withBit_ne_zero (stem : Key) {level : Nat} (inside : level < depth) :
    withBit stem level ≠ 0 := fun zero => by
  have bit := getMsbD_withBit stem level level inside
  simp [zero] at bit

/-- The leaf map with one leaf at key zero. -/
def sampleLeaves : LeafMap := fun key => if key = 0 then some [7] else none

theorem sample_mapHash {level : Nat} {stem : Key} (inside : level ≤ depth)
    (isStem : Below level stem stem) :
    mapHash sampleSha3 sampleLeaves level stem = sampleHash (stem = 0) (depth - level) := by
  refine subtree_induction
    (motive := fun level stem => mapHash sampleSha3 sampleLeaves level stem =
      sampleHash (stem = 0) (depth - level)) ?_ ?_ inside isStem
  · intro stem
    rw [mapHash, treeHash_leaf, digests, sampleLeaves]
    by_cases zero : stem = 0 <;> simp only [zero, decide_true, decide_false, Nat.sub_self] <;> rfl
  · intro level stem inside isStem left right
    have height : depth - level = depth - (level + 1) + 1 := by omega
    have low : depth - (level + 1) < 256 := by simp only [depth]; omega
    rw [mapHash_branch sampleSha3 sampleLeaves inside, left, right, nodeHash,
      sampleSha3_node _ _ low, height, decide_eq_false (withBit_ne_zero stem inside),
      Bool.or_false]

/-- On the tree of the sample leaf the sample hash tells all inputs apart and is never zero. -/
theorem sample_collision_free :
    Set.InjOn sampleSha3 (treeInputs sampleSha3 sampleLeaves) ∧
      ∀ input ∈ treeInputs sampleSha3 sampleLeaves, sampleSha3 input ≠ defaultLeaf := by
  have shape : ∀ input ∈ treeInputs sampleSha3 sampleLeaves,
      (input = leafInput [7] ∧ sampleSha3 input = sampleHash true 0) ∨
      ∃ occupied height, height < 256 ∧ sampleSha3 input = sampleHash occupied (height + 1) ∧
        input = nodeInput (sampleHash occupied height) (sampleHash false height) := by
    rintro input (⟨key, value, stored, rfl⟩ | ⟨level, stem, inside, isStem, rfl⟩)
    · left
      have value : value = [7] := by
        by_cases zero : key = 0 <;> simp_all [sampleLeaves]
      subst value
      exact ⟨rfl, rfl⟩
    · right
      have low : depth - (level + 1) < 256 := by simp only [depth]; omega
      rw [sample_mapHash inside (left_isStem isStem inside),
        sample_mapHash inside (right_isStem isStem inside),
        decide_eq_false (withBit_ne_zero stem inside)]
      exact ⟨stem = 0, depth - (level + 1), low, by rw [sampleSha3_node _ _ low, Bool.or_false], rfl⟩
  constructor
  · intro a aHashed b bHashed same
    rcases shape a aHashed with ⟨aLeaf, aHash⟩ | ⟨occupied, height, low, aHash, aNode⟩ <;>
      rcases shape b bHashed with ⟨bLeaf, bHash⟩ | ⟨occupied', height', low', bHash, bNode⟩ <;>
      rw [aHash, bHash] at same
    · rw [aLeaf, bLeaf]
    · have := (sampleHash_inj (by omega) (by omega) same).2
      omega
    · have := (sampleHash_inj (by omega) (by omega) same).2
      omega
    · obtain ⟨rfl, heights⟩ := sampleHash_inj (by omega) (by omega) same
      obtain rfl : height = height' := by omega
      rw [aNode, bNode]
  · intro input hashed zero
    have missing : defaultLeaf = sampleHash false 0 := by decide
    rcases shape input hashed with ⟨_, hash⟩ | ⟨occupied, height, low, hash, _⟩ <;>
      rw [hash, missing] at zero
    · cases (sampleHash_inj (by omega) (by omega) zero).1
    · cases (sampleHash_inj (by omega) (by omega) zero).2

/-- A trie with one leaf proves that leaf, and no proof of another value for its key passes. -/
theorem sample_proof_sound :
    ∃ store trie proof root rooted memo,
      (Store.initial sampleSha3).run sampleSha3 [.insert 0 true 0 [7]] = some store ∧
      trie ∈ store.tries ∧
      trie.root sampleSha3 true store.memo = some (root, rooted, memo) ∧
      Set.InjOn sampleSha3 (treeInputs sampleSha3 trie.get ∪ proof.inputs sampleSha3 0) ∧
      (∀ input ∈ treeInputs sampleSha3 trie.get ∪ proof.inputs sampleSha3 0,
        sampleSha3 input ≠ defaultLeaf) ∧
      verify sampleSha3 0 proof root = true ∧ proof.value = some [7] := by
  let trie := (Trie.new sampleSha3).insert true 0 [7]
  have leaves : trie.get = sampleLeaves := by
    funext key
    change ((Overlay.empty : Leaves).put true 0 (some [7])).get key = _
    rw [Overlay.get_put, Overlay.get_empty, sampleLeaves]
    simp only [eq_comm]
  have applied := proofs_complete_and_sound sampleSha3 [.insert 0 true 0 [7]]
    ⟨[trie], Anchors.empty⟩ rfl trie (by simp) 0
  obtain ⟨rooted, memo, computed, _⟩ := Trie.root_spec sampleSha3
    (Trie.insert_coherent sampleSha3 (Trie.new_coherent sampleSha3) true 0 [7]) true
    (Anchors.empty_valid sampleSha3)
  have hashed : treeInputs sampleSha3 trie.get ∪
      (genuineProof sampleSha3 trie.get 0).inputs sampleSha3 0 =
        treeInputs sampleSha3 sampleLeaves := by
    rw [Set.union_eq_left.mpr (genuineProof_inputs_subset sampleSha3 trie.get 0), leaves]
  have verified := verify_genuine sampleSha3 trie.get 0
  refine ⟨_, trie, genuineProof sampleSha3 trie.get 0, _, rooted, memo, rfl,
    List.mem_singleton_self trie, computed, hashed ▸ sample_collision_free.1,
    hashed ▸ sample_collision_free.2, verified, ?_⟩
  rw [applied.2 _ true _ rooted memo computed (hashed ▸ sample_collision_free.1)
    (hashed ▸ sample_collision_free.2) verified, leaves]
  rfl

end QuantovaChain.State
