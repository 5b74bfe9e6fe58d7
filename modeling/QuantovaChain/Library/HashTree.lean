import Mathlib.Data.List.Induction
import Mathlib.Data.Set.Function

/-!
# Trees of hashes

A tree is hashed from its leaves up. What is hashed for a leaf says which data it has, what is
hashed for a node says which two hashes it joins, and no leaf is hashed like a node. A path climbs
from a leaf to the root along the siblings on the way. As long as no two different inputs that occur
have the same hash, a root determines its tree, and a path that ends in the root starts at a leaf.
-/

/-- How leaves and nodes are hashed. -/
structure HashScheme (δ ι η : Type) where
  hash : ι → η
  leafInput : δ → ι
  nodeInput : η → η → ι
  leaf_injective : ∀ {first second}, leafInput first = leafInput second → first = second
  node_injective : ∀ {left right left' right'},
    nodeInput left right = nodeInput left' right' → left = left' ∧ right = right'
  apart : ∀ {data left right}, leafInput data ≠ nodeInput left right

inductive HashTree (δ : Type)
  | leaf (data : δ)
  | node (left right : HashTree δ)

namespace HashTree

variable {δ ι η : Type}

/-- The data of the leaves, from left to right. -/
def leaves : HashTree δ → List δ
  | leaf data => [data]
  | node left right => left.leaves ++ right.leaves

/-- A sibling on the way up. -/
structure Step (η : Type) where
  sibling : η
  siblingOnLeft : Bool
  deriving DecidableEq, Repr

variable (scheme : HashScheme δ ι η)

def root : HashTree δ → η
  | leaf data => scheme.hash (scheme.leafInput data)
  | node left right => scheme.hash (scheme.nodeInput left.root right.root)

/-- What is hashed for the root of a tree. -/
def rootInput : HashTree δ → ι
  | leaf data => scheme.leafInput data
  | node left right => scheme.nodeInput (left.root scheme) (right.root scheme)

/-- Everything that is hashed for a tree. -/
def inputs : HashTree δ → Set ι
  | leaf data => {scheme.leafInput data}
  | node left right =>
    insert (scheme.nodeInput (left.root scheme) (right.root scheme)) (left.inputs ∪ right.inputs)

/-- What is hashed in a step from a hash. -/
def Step.input (step : Step η) (current : η) : ι :=
  if step.siblingOnLeft then scheme.nodeInput step.sibling current
  else scheme.nodeInput current step.sibling

/-- The hash that a path leads to. -/
def climb (start : η) (steps : List (Step η)) : η :=
  steps.foldl (fun current step => scheme.hash (step.input scheme current)) start

/-- Everything that is hashed along a path. -/
def pathInputs (data : δ) (steps : List (Step η)) : Set ι :=
  {input | input = scheme.leafInput data ∨ ∃ before step after, steps = before ++ step :: after ∧
    input = step.input scheme (climb scheme (scheme.hash (scheme.leafInput data)) before)}

variable {scheme}

theorem root_eq (tree : HashTree δ) : tree.root scheme = scheme.hash (tree.rootInput scheme) := by
  cases tree <;> rfl

theorem rootInput_mem (tree : HashTree δ) : tree.rootInput scheme ∈ tree.inputs scheme := by
  cases tree with
  | leaf data => exact rfl
  | node left right => exact Set.mem_insert _ _

theorem climb_concat (start : η) (steps : List (Step η)) (last : Step η) :
    climb scheme start (steps ++ [last]) =
      scheme.hash (last.input scheme (climb scheme start steps)) :=
  List.foldl_append ..

theorem pathInputs_concat (data : δ) (steps : List (Step η)) (last : Step η) :
    pathInputs scheme data steps ⊆ pathInputs scheme data (steps ++ [last]) := by
  rintro input (first | ⟨before, step, after, rfl, same⟩)
  · exact .inl first
  · exact .inr ⟨before, step, after ++ [last], by simp, same⟩

theorem last_mem (data : δ) (steps : List (Step η)) (last : Step η) :
    last.input scheme (climb scheme (scheme.hash (scheme.leafInput data)) steps) ∈
      pathInputs scheme data (steps ++ [last]) :=
  .inr ⟨steps, last, [], rfl, rfl⟩

/-- A path ends in the hash of a leaf or of a node. -/
theorem climb_eq_hash (data : δ) (steps : List (Step η)) :
    ∃ input ∈ pathInputs scheme data steps,
      climb scheme (scheme.hash (scheme.leafInput data)) steps = scheme.hash input ∧
        (input = scheme.leafInput data ∨ ∃ left right, input = scheme.nodeInput left right) := by
  cases steps using List.reverseRecOn with
  | nil => exact ⟨_, .inl rfl, rfl, .inl rfl⟩
  | append_singleton steps last =>
    refine ⟨_, last_mem data steps last, climb_concat .., .inr ?_⟩
    unfold Step.input
    split <;> exact ⟨_, _, rfl⟩

/-- A path that leads to the root of a tree starts at a leaf of it. -/
theorem climb_sound {data : δ} (tree : HashTree δ) {steps : List (Step η)}
    (collisionFree : Set.InjOn scheme.hash (tree.inputs scheme ∪ pathInputs scheme data steps))
    (reaches : climb scheme (scheme.hash (scheme.leafInput data)) steps = tree.root scheme) :
    data ∈ tree.leaves := by
  induction tree generalizing steps with
  | leaf own =>
    cases steps using List.reverseRecOn with
    | nil =>
      have same := collisionFree (.inr (.inl rfl)) (.inl rfl) reaches
      exact List.mem_singleton.mpr (scheme.leaf_injective same)
    | append_singleton steps last =>
      rw [climb_concat] at reaches
      have same := collisionFree (.inr (last_mem ..)) (.inl rfl) reaches
      unfold Step.input at same
      split at same <;> exact absurd same.symm scheme.apart
  | node left right leftHypothesis rightHypothesis =>
    cases steps using List.reverseRecOn with
    | nil =>
      have same := collisionFree (.inr (.inl rfl)) (.inl (Set.mem_insert ..)) reaches
      exact absurd same scheme.apart
    | append_singleton steps last =>
      rw [climb_concat] at reaches
      have same := collisionFree (.inr (last_mem ..)) (.inl (Set.mem_insert ..)) reaches
      have below {side : Set ι} (part : side ⊆ left.inputs scheme ∪ right.inputs scheme) :
          Set.InjOn scheme.hash (side ∪ pathInputs scheme data steps) :=
        collisionFree.mono (Set.union_subset_union
          (Set.Subset.trans part (Set.subset_insert ..)) (pathInputs_concat ..))
      unfold Step.input at same
      split at same
      next =>
        have inside := rightHypothesis (below Set.subset_union_right) (scheme.node_injective same).2
        exact List.mem_append_right _ inside
      next =>
        have inside := leftHypothesis (below Set.subset_union_left) (scheme.node_injective same).1
        exact List.mem_append_left _ inside

theorem rootInput_injective {first second : HashTree δ}
    (collisionFree : Set.InjOn scheme.hash (first.inputs scheme ∪ second.inputs scheme))
    (same : first.root scheme = second.root scheme) :
    first.rootInput scheme = second.rootInput scheme := by
  rw [root_eq, root_eq] at same
  exact collisionFree (.inl (rootInput_mem _)) (.inr (rootInput_mem _)) same

/-- A root determines its tree. -/
theorem root_injective {first second : HashTree δ}
    (collisionFree : Set.InjOn scheme.hash (first.inputs scheme ∪ second.inputs scheme))
    (same : first.root scheme = second.root scheme) : first = second := by
  have input := rootInput_injective collisionFree same
  induction first generalizing second with
  | leaf data =>
    cases second with
    | leaf other => rw [scheme.leaf_injective input]
    | node left right => exact absurd input scheme.apart
  | node left right leftHypothesis rightHypothesis =>
    cases second with
    | leaf other => exact absurd input.symm scheme.apart
    | node left' right' =>
      obtain ⟨lefts, rights⟩ := scheme.node_injective input
      have below {side side' : Set ι} (part : side ⊆ left.inputs scheme ∪ right.inputs scheme)
          (part' : side' ⊆ left'.inputs scheme ∪ right'.inputs scheme) :
          Set.InjOn scheme.hash (side ∪ side') :=
        collisionFree.mono (Set.union_subset_union (Set.Subset.trans part (Set.subset_insert ..))
          (Set.Subset.trans part' (Set.subset_insert ..)))
      have leftFree := below Set.subset_union_left Set.subset_union_left
      have rightFree := below Set.subset_union_right Set.subset_union_right
      rw [leftHypothesis leftFree lefts (rootInput_injective leftFree lefts),
        rightHypothesis rightFree rights (rootInput_injective rightFree rights)]

end HashTree
