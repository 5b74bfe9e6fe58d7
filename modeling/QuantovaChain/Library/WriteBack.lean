import Mathlib.Data.Set.Basic

/-!
# Write-back maps

A map is kept in memory and its changes are written to a backing map in batches. The keys that were
written since the last batch are dirty, and the backing map is behind the map in memory: they agree
on every key that is not dirty. A batch with the current values of all dirty keys brings the backing
map up to date.
-/

namespace WriteBack

variable {K V : Type} [DecidableEq K]

/-- Keys with their new values. A key without a value is removed. -/
abbrev Batch (K V : Type) := List (K × Option V)

def apply (backing : K → Option V) (batch : Batch K V) : K → Option V :=
  batch.foldl (fun map entry => Function.update map entry.1 entry.2) backing

/-- Batches applied one after the other. -/
def applyAll (backing : K → Option V) (batches : List (Batch K V)) : K → Option V :=
  batches.foldl apply backing

theorem applyAll_concat (backing : K → Option V) (batches : List (Batch K V)) (batch : Batch K V) :
    applyAll backing (batches ++ [batch]) = apply (applyAll backing batches) batch := by
  rw [applyAll, List.foldl_append, List.foldl_cons, List.foldl_nil, applyAll]

/-- The batch with the current values of some keys. -/
def collect (current : K → Option V) (keys : List K) : Batch K V :=
  keys.map fun key => (key, current key)

theorem apply_collect (backing current : K → Option V) (keys : List K) (key : K) :
    apply backing (collect current keys) key = if key ∈ keys then current key else backing key := by
  induction keys generalizing backing with
  | nil => rfl
  | cons first rest hypothesis =>
    have next : apply backing (collect current (first :: rest)) =
        apply (Function.update backing first (current first)) (collect current rest) := rfl
    rw [next, hypothesis]
    by_cases later : key ∈ rest
    · rw [if_pos later, if_pos (List.mem_cons_of_mem _ later)]
    rw [if_neg later]
    by_cases here : key = first
    · rw [here, Function.update_self, if_pos List.mem_cons_self]
    · rw [Function.update_of_ne here, if_neg fun among => (List.mem_cons.mp among).elim here later]

/-- The backing map agrees with the current one on every key that is not dirty. -/
def Behind (backing current : K → Option V) (dirty : Set K) : Prop :=
  ∀ key, key ∉ dirty → backing key = current key

namespace Behind

variable {backing current later : K → Option V} {dirty : Set K}

omit [DecidableEq K] in
theorem refl (current : K → Option V) (dirty : Set K) : Behind current current dirty :=
  fun _ _ => rfl

omit [DecidableEq K] in
/-- A key is written and marked. -/
theorem write (behind : Behind backing current dirty) (key : K) {marked : Set K}
    (same : ∀ other, other ≠ key → later other = current other)
    (marks : ∀ other, other = key ∨ other ∈ dirty → other ∈ marked) :
    Behind backing later marked := by
  intro other unmarked
  have apart : other ≠ key := fun here => unmarked (marks other (.inl here))
  rw [same other apart]
  exact behind other fun among => unmarked (marks other (.inr among))

/-- A batch of all dirty keys brings the backing map up to date. -/
theorem flush (behind : Behind backing current dirty) {keys : List K}
    (covers : ∀ key, key ∈ dirty → key ∈ keys) : apply backing (collect current keys) = current := by
  funext key
  rw [apply_collect]
  split
  next => rfl
  next unlisted => exact behind key fun among => unlisted (covers key among)

end Behind

end WriteBack
