import Mathlib.Algebra.Order.BigOperators.Group.Finset
import QuantovaChain.Library.Triples

/-!
# Totals over a store

A weight gives every key and value an integer, and the total of a store is the sum over its keys. A
write changes the total by the difference of the weights at its key, so a total that is conserved
can be followed through a program write by write.
-/

namespace Transaction

open KeyedStore

/-- A store whose keys can be listed. -/
class FiniteStore (S : Type) (K : outParam Type) (V : outParam (K → Type)) extends
    KeyedStore S K V where
  keys : S → Finset K
  mem_keys : ∀ store key, key ∈ keys store ↔ (get store key).isSome

variable {S K : Type} {V : K → Type} {E F X : Type}

/-- What a key weighs with its value, which is nothing for an absent key. -/
def weigh (weight : (key : K) → V key → ℤ) (key : K) : Option (V key) → ℤ
  | some value => weight key value
  | none => 0

@[simp] theorem weigh_some (weight : (key : K) → V key → ℤ) (key : K) (value : V key) :
    weigh weight key (some value) = weight key value := rfl

@[simp] theorem weigh_none (weight : (key : K) → V key → ℤ) (key : K) :
    weigh weight key none = 0 := rfl

theorem weigh_weightless {weight : (key : K) → V key → ℤ} {key : K}
    (weightless : ∀ value, weight key value = 0) (found : Option (V key)) :
    weigh weight key found = 0 := by
  cases found with
  | none => rfl
  | some value => exact weightless value

variable [FiniteStore S K V]

def total (weight : (key : K) → V key → ℤ) (store : S) : ℤ :=
  ∑ key ∈ FiniteStore.keys store, weigh weight key (get store key)

/-- The total may be taken over any set that has all the keys. -/
theorem total_eq_sum (weight : (key : K) → V key → ℤ) {store : S} {all : Finset K}
    (covers : FiniteStore.keys store ⊆ all) :
    total weight store = ∑ key ∈ all, weigh weight key (get store key) := by
  refine Finset.sum_subset covers fun key _ outside => ?_
  rw [FiniteStore.mem_keys, Option.not_isSome_iff_eq_none] at outside
  rw [outside, weigh_none]

variable [DecidableEq K]

/-- The total depends only on what the keys weigh. -/
theorem total_congr {first second : (key : K) → V key → ℤ} {before after : S}
    (same : ∀ key, weigh second key (get after key) = weigh first key (get before key)) :
    total second after = total first before := by
  have covered : FiniteStore.keys before ⊆ FiniteStore.keys before ∪ FiniteStore.keys after :=
    Finset.subset_union_left
  have coveredAfter : FiniteStore.keys after ⊆ FiniteStore.keys before ∪ FiniteStore.keys after :=
    Finset.subset_union_right
  rw [total_eq_sum first covered, total_eq_sum second coveredAfter]
  exact Finset.sum_congr rfl fun key _ => same key

/-- Two stores whose other keys weigh the same, each with its own weight, have totals that differ by
the weights of one key. -/
theorem total_moved (first second : (key : K) → V key → ℤ) (before after : S) (key : K)
    (same : ∀ other, key ≠ other →
      weigh second other (get after other) = weigh first other (get before other)) :
    total second after = total first before - weigh first key (get before key) +
      weigh second key (get after key) := by
  let all := insert key (FiniteStore.keys before ∪ FiniteStore.keys after)
  have inside : key ∈ all := Finset.mem_insert_self _ _
  have covered : FiniteStore.keys before ⊆ all :=
    fun _ found => Finset.mem_insert_of_mem (Finset.mem_union_left _ found)
  have coveredAfter : FiniteStore.keys after ⊆ all :=
    fun _ found => Finset.mem_insert_of_mem (Finset.mem_union_right _ found)
  have rest : ∑ other ∈ all.erase key, weigh second other (get after other) =
      ∑ other ∈ all.erase key, weigh first other (get before other) :=
    Finset.sum_congr rfl fun other found => same other (Finset.ne_of_mem_erase found).symm
  rw [total_eq_sum first covered, total_eq_sum second coveredAfter,
    ← Finset.add_sum_erase _ _ inside, ← Finset.add_sum_erase _ _ inside, rest]
  omega

/-- With weights that are not negative, no key weighs more than the total. -/
theorem weigh_le_total {weight : (key : K) → V key → ℤ} {store : S}
    (nonnegative : ∀ key, 0 ≤ weigh weight key (get store key)) (key : K) :
    weigh weight key (get store key) ≤ total weight store := by
  have covers : FiniteStore.keys store ⊆ insert key (FiniteStore.keys store) :=
    Finset.subset_insert _ _
  rw [total_eq_sum weight covers]
  exact Finset.single_le_sum (fun other _ => nonnegative other) (Finset.mem_insert_self _ _)

omit [DecidableEq K] in
/-- A weight that is smaller on every key has the smaller total. -/
theorem total_mono {first second : (key : K) → V key → ℤ} {store : S}
    (less : ∀ key, weigh first key (get store key) ≤ weigh second key (get store key)) :
    total first store ≤ total second store :=
  Finset.sum_le_sum fun key _ => less key

namespace State

/-- The total over the store of a state. -/
def total (weight : (key : K) → V key → ℤ) (state : State S K V E F X) : ℤ :=
  Transaction.total weight state.store

variable {weight : (key : K) → V key → ℤ} {state : State S K V E F X} {key : K}

theorem total_write (value : V key) :
    (state.write key value).total weight =
      state.total weight - weigh weight key (state.get key) + weight key value := by
  have changed := total_moved weight weight state.store (insert state.store key value) key
    fun other apart => congrArg (weigh weight other) (get_insert_ne _ _ _ other apart)
  rw [get_insert_self, weigh_some] at changed
  exact changed

end State

/-! ## Weights of a family of keys -/

/-- A weight that only the keys of a family have. -/
def OnlyAt {I : Type} (weight : (key : K) → V key → ℤ) (family : I → K) : Prop :=
  ∀ key, (∀ index, family index ≠ key) → ∀ value, weight key value = 0

namespace OnlyAt

variable {I : Type} {family : I → K} {first second : (key : K) → V key → ℤ}
  {before after state : State S K V E F X}

section

variable (only : OnlyAt first family)

include only

omit [FiniteStore S K V] [DecidableEq K] in
/-- What holds of the family, and where both weights are nothing, holds of every key. -/
theorem cases (others : OnlyAt second family) {holds : K → Prop}
    (inside : ∀ index, holds (family index))
    (outside : ∀ key, (∀ found, weigh first key found = 0) → (∀ found, weigh second key found = 0) →
      holds key) (key : K) : holds key := by
  by_cases member : ∃ index, family index = key
  · obtain ⟨index, rfl⟩ := member
    exact inside index
  · rw [not_exists] at member
    exact outside key (weigh_weightless (only key member)) (weigh_weightless (others key member))

theorem total_congr (others : OnlyAt second family)
    (same : ∀ index, weigh second (family index) (after.get (family index)) =
      weigh first (family index) (before.get (family index))) :
    after.total second = before.total first :=
  Transaction.total_congr (only.cases others same fun _ none still => (still _).trans (none _).symm)

theorem total_change (others : OnlyAt second family) (index : I)
    (same : ∀ other, other ≠ index → weigh second (family other) (after.get (family other)) =
      weigh first (family other) (before.get (family other))) :
    after.total second = before.total first - weigh first (family index) (before.get (family index)) +
      weigh second (family index) (after.get (family index)) := by
  refine total_moved first second before.store after.store (family index) ?_
  refine only.cases others (fun other apart => same other ?_) fun _ none still _ =>
    (still _).trans (none _).symm
  rintro rfl
  exact apart rfl

omit [DecidableEq K] in
theorem total_mono (others : OnlyAt second family)
    (less : ∀ index, weigh first (family index) (state.get (family index)) ≤
      weigh second (family index) (state.get (family index))) :
    state.total first ≤ state.total second :=
  Transaction.total_mono (only.cases others less fun _ none still =>
    (none _).trans_le (still _).symm.le)

omit [DecidableEq K] in
theorem total_zero (nothing : ∀ index, weigh first (family index) (state.get (family index)) = 0) :
    state.total first = 0 :=
  Finset.sum_eq_zero fun key _ => only.cases only nothing (fun _ none _ => none _) key

theorem weigh_le_total
    (nonnegative : ∀ index, 0 ≤ weigh first (family index) (state.get (family index))) (index : I) :
    weigh first (family index) (state.get (family index)) ≤ state.total first :=
  Transaction.weigh_le_total (only.cases only nonnegative fun _ none _ => (none _).ge) _

end

end OnlyAt

end Transaction
