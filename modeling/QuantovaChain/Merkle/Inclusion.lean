import QuantovaChain.Merkle

/-!
# Inclusion of events

The proof that an event is in a list holds against the root of the list, and a proof that holds is
about an event of the list. The root determines the list. The last two rest on the hash function
having no collision among the inputs that are hashed: those of the tree, or of both trees, and those
along the proof.
-/

namespace QuantovaChain.Chain

open State (Bytes Hash)

/-- The tree over a list that is not empty. -/
def eventTree (events : List Bytes) : HashTree Bytes :=
  match events with
  | [] => .leaf []
  | [only] => .leaf only
  | first :: second :: rest =>
    let events := first :: second :: rest
    let split := largestPowerOfTwoBelow events.length
    .node (eventTree (events.take split)) (eventTree (events.drop split))
termination_by events.length
decreasing_by
  · exact (split_shorter _ (by simp)).1
  · exact (split_shorter _ (by simp)).2

/-- Neither side of a split is empty. -/
theorem split_some {α : Type} (elements : List α) (two : 2 ≤ elements.length) :
    elements.take (largestPowerOfTwoBelow elements.length) ≠ [] ∧
      elements.drop (largestPowerOfTwoBelow elements.length) ≠ [] := by
  have bounds := largestPowerOfTwoBelow_bounds two
  rw [ne_eq, ne_eq, List.take_eq_nil_iff, List.drop_eq_nil_iff, ← List.length_eq_zero_iff]
  omega

variable {events : List Bytes}

theorem leaves_eventTree (some : events ≠ []) : (eventTree events).leaves = events := by
  fun_induction eventTree events with
  | case1 => exact absurd rfl some
  | case2 only => rfl
  | case3 first second rest events split leftHypothesis rightHypothesis =>
    obtain ⟨left, right⟩ := split_some events (by simp [events])
    rw [HashTree.leaves, leftHypothesis left, rightHypothesis right, List.take_append_drop]

variable [Platform]

/-- Leaves and nodes under their first bytes. -/
def merkleScheme : HashScheme Bytes Bytes Hash where
  hash := Platform.sha3
  leafInput data := 0 :: data
  nodeInput left right := 1 :: left.toList ++ right.toList
  leaf_injective same := (List.cons.inj same).2
  node_injective same := by
    obtain ⟨lefts, rights⟩ := List.append_inj (List.cons.inj same).2 (by simp)
    exact ⟨Vector.toList_inj.mp lefts, Vector.toList_inj.mp rights⟩
  apart same := absurd (List.cons.inj same).1 (by decide)

theorem merkleRoot_split (leaves : List Hash) (two : 2 ≤ leaves.length) :
    merkleRoot leaves =
      pairHash (merkleRoot (leaves.take (largestPowerOfTwoBelow leaves.length)))
        (merkleRoot (leaves.drop (largestPowerOfTwoBelow leaves.length))) := by
  match leaves, two with
  | first :: second :: rest, _ => rw [merkleRoot]

theorem root_eventTree (some : events ≠ []) :
    (eventTree events).root merkleScheme = merkleRoot (events.map leafHash) := by
  fun_induction eventTree events with
  | case1 => exact absurd rfl some
  | case2 only => rw [List.map_singleton, merkleRoot]; rfl
  | case3 first second rest events split leftHypothesis rightHypothesis =>
    obtain ⟨left, right⟩ := split_some events (by simp [events])
    have whole := merkleRoot_split (events.map leafHash) (by simp [events])
    rw [List.length_map, ← List.map_take, ← List.map_drop] at whole
    rw [HashTree.root, leftHypothesis left, rightHypothesis right]
    exact whole.symm

/-- The collected steps lead from the leaf to the root. -/
theorem climb_collectSteps (leaves : List Hash) (index : Nat) {leaf : Hash}
    (there : leaves[index]? = some leaf) :
    HashTree.climb merkleScheme leaf (collectSteps leaves index) = merkleRoot leaves := by
  fun_induction collectSteps leaves index with
  | case1 => cases there
  | case2 index only =>
    obtain ⟨inside, rfl⟩ := List.getElem?_eq_some_iff.mp there
    simp [HashTree.climb, merkleRoot]
  | case3 index first second rest leaves split before hypothesis =>
    rw [HashTree.climb_concat, hypothesis (by rw [List.getElem?_take_of_lt before, there])]
    exact (merkleRoot_split leaves (by simp [leaves])).symm
  | case4 index first second rest leaves split after hypothesis =>
    rw [HashTree.climb_concat, hypothesis (by
      rw [List.getElem?_drop, Nat.add_sub_cancel' (not_lt.mp after), there])]
    exact (merkleRoot_split leaves (by simp [leaves])).symm

theorem verifyInclusion_iff {root : Hash} {event : Bytes} {proof : MerkleProof} :
    verifyInclusion root event proof = true ↔
      HashTree.climb merkleScheme (leafHash event) proof.steps = root := by
  have steps : (fun (current : Hash) (step : MerkleStep) => if step.siblingOnLeft then
      pairHash step.sibling current else pairHash current step.sibling) =
      fun current step => merkleScheme.hash (step.input merkleScheme current) := by
    funext current step
    unfold HashTree.Step.input
    split <;> rfl
  rw [verifyInclusion, beq_iff_eq, steps]
  rfl

/-- Everything that is hashed for the root of a list. -/
def eventInputs (events : List Bytes) : Set Bytes :=
  if events = [] then {[]} else (eventTree events).inputs merkleScheme

/-- Everything that is hashed to check a proof. -/
def proofInputs (event : Bytes) (proof : MerkleProof) : Set Bytes :=
  HashTree.pathInputs merkleScheme event proof.steps

theorem eventRoot_of_some (some : events ≠ []) :
    eventRoot events = (eventTree events).root merkleScheme := by
  rw [eventRoot, if_neg some, root_eventTree some]

/-- No list but the empty one has its root. -/
theorem eventRoot_ne_empty (some : events ≠ [])
    (free : Set.InjOn Platform.sha3 (eventInputs [] ∪ eventInputs events)) :
    eventRoot [] ≠ eventRoot events := by
  intro same
  rw [eventRoot_of_some some, HashTree.root_eq] at same
  rw [eventInputs, eventInputs, if_pos rfl, if_neg some] at free
  have input := free (.inl rfl) (.inr (HashTree.rootInput_mem _)) same
  revert input
  cases eventTree events <;> nofun

/-- Proofs of inclusion hold for the events of a list and for nothing else, and the root of a list
belongs to no other list. A proof that verifies climbs from a leaf of the tree, unless hashes
collide. -/
theorem event_inclusion :
    (∀ (events : List Bytes) (index : Nat) (inside : index < events.length),
        ∃ proof, proveInclusion events index = some proof ∧
          verifyInclusion (eventRoot events) events[index] proof = true) ∧
      (∀ (events : List Bytes) (event : Bytes) (proof : MerkleProof),
        Set.InjOn Platform.sha3 (eventInputs events ∪ proofInputs event proof) →
          verifyInclusion (eventRoot events) event proof = true → event ∈ events) ∧
      ∀ first second : List Bytes,
        Set.InjOn Platform.sha3 (eventInputs first ∪ eventInputs second) →
          eventRoot first = eventRoot second → first = second := by
  refine ⟨fun events index inside => ?_, fun events event proof free verified => ?_,
    fun first second free same => ?_⟩
  · have some : events ≠ [] := List.ne_nil_of_length_pos (Nat.zero_lt_of_lt inside)
    refine ⟨_, if_neg (not_le.mpr inside), verifyInclusion_iff.mpr ?_⟩
    rw [climb_collectSteps _ _ (by simp [inside]), eventRoot, if_neg some]
  · rw [verifyInclusion_iff] at verified
    by_cases empty : events = []
    · subst empty
      obtain ⟨input, hashed, reached, kind⟩ := HashTree.climb_eq_hash event proof.steps
      have same := free (.inr hashed) (.inl rfl) (reached.symm.trans verified)
      rcases kind with rfl | ⟨left, right, rfl⟩ <;> cases same
    · rw [eventRoot_of_some empty] at verified
      rw [eventInputs, if_neg empty] at free
      have inside := HashTree.climb_sound _ free verified
      rwa [leaves_eventTree empty] at inside
  · by_cases empty : first = [] <;> by_cases emptyAgain : second = []
    · rw [empty, emptyAgain]
    · subst empty
      exact absurd same (eventRoot_ne_empty emptyAgain free)
    · subst emptyAgain
      rw [Set.union_comm] at free
      exact absurd same.symm (eventRoot_ne_empty empty free)
    · rw [eventRoot_of_some empty, eventRoot_of_some emptyAgain] at same
      rw [eventInputs, eventInputs, if_neg empty, if_neg emptyAgain] at free
      rw [← leaves_eventTree empty, ← leaves_eventTree emptyAgain, HashTree.root_injective free same]

end QuantovaChain.Chain
