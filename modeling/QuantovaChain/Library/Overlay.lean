import Std.Data.ExtTreeMap
import Mathlib.Data.List.Basic

/-!
# A sorted map kept in two layers

A base map and a layer of pending changes over it, where a change is a new value or a removal.
Reading looks at the changes first. A write goes to the base when the base may be edited in place
and nothing is pending, and to the changes otherwise; folding moves the changes into the base. The
layering is invisible: reading after any operation gives what one plain map would give, and the
merged iteration lists exactly the readable entries in increasing key order.
-/

open Std

/-- A base map with pending changes. -/
structure Overlay (K V : Type) (cmp : K → K → Ordering) where
  base : ExtTreeMap K V cmp
  delta : ExtTreeMap K (Option V) cmp

namespace Overlay

variable {K V : Type} {cmp : K → K → Ordering} [TransCmp cmp] [LawfulEqCmp cmp]

/-- The overlay with no entries. -/
def empty : Overlay K V cmp :=
  ⟨∅, ∅⟩

/-- The readable value of a key. -/
def get (overlay : Overlay K V cmp) (key : K) : Option V :=
  match overlay.delta[key]? with
  | some entry => entry
  | none => overlay.base[key]?

/-- Applies one change to a plain map. -/
def applyChange (map : ExtTreeMap K V cmp) (key : K) (entry : Option V) : ExtTreeMap K V cmp :=
  match entry with
  | some value => map.insert key value
  | none => map.erase key

/-- Writes or removes a key. `unique` says that the base may be edited in place. -/
def put (overlay : Overlay K V cmp) (unique : Bool) (key : K) (entry : Option V) :
    Overlay K V cmp :=
  if unique && overlay.delta.isEmpty then
    { overlay with base := applyChange overlay.base key entry }
  else
    { overlay with delta := overlay.delta.insert key entry }

/-- Moves the pending changes into the base, unless the base is shared and the changes are few. -/
def fold (overlay : Overlay K V cmp) (floor : Nat) (unique : Bool) : Overlay K V cmp :=
  if overlay.delta.isEmpty then overlay
  else if !unique && overlay.delta.size ≤ overlay.base.size / 8 + floor then overlay
  else { base := overlay.delta.foldl applyChange overlay.base, delta := ∅ }

/-- Lists a pending change in front of `rest`; a removal lists nothing. -/
def emit (key : K) (entry : Option V) (rest : List (K × V)) : List (K × V) :=
  match entry with
  | some value => (key, value) :: rest
  | none => rest

/-- Merges the entries of the base with the pending changes, both in key order. -/
def merge (cmp : K → K → Ordering) : List (K × V) → List (K × Option V) → List (K × V)
  | base, [] => base
  | [], (key, entry) :: delta => emit key entry (merge cmp [] delta)
  | (baseKey, baseValue) :: base, (key, entry) :: delta =>
    match cmp key baseKey with
    | .eq => emit key entry (merge cmp base delta)
    | .lt => emit key entry (merge cmp ((baseKey, baseValue) :: base) delta)
    | .gt => (baseKey, baseValue) :: merge cmp base ((key, entry) :: delta)
termination_by base delta => base.length + delta.length

/-- The readable entries whose keys satisfy `within`, in key order. -/
def range (overlay : Overlay K V cmp) (within : K → Bool) : List (K × V) :=
  merge cmp (overlay.base.toList.filter fun item => within item.1)
    (overlay.delta.toList.filter fun item => within item.1)

omit [LawfulEqCmp cmp] in
@[simp]
theorem get_empty (key : K) : (empty : Overlay K V cmp).get key = none := by
  simp [get, empty]

section Reading

variable [DecidableEq K]

theorem getElem?_applyChange (map : ExtTreeMap K V cmp) (key other : K) (entry : Option V) :
    (applyChange map key entry)[other]? = if key = other then entry else map[other]? := by
  cases entry <;>
    simp [applyChange, ExtTreeMap.getElem?_insert, ExtTreeMap.getElem?_erase]

theorem get_put (overlay : Overlay K V cmp) (unique : Bool) (key other : K) (entry : Option V) :
    (overlay.put unique key entry).get other = if key = other then entry else overlay.get other := by
  unfold put
  split
  next inPlace =>
    have pending : overlay.delta = ∅ := by simp_all
    simp [get, pending, getElem?_applyChange]
  next layered =>
    simp only [get, ExtTreeMap.getElem?_insert, LawfulEqCmp.compare_eq_iff_eq]
    by_cases here : key = other <;> simp [here]

/-- Folding a sorted list of changes into a map, one by one. -/
theorem getElem?_foldl_applyChange (changes : List (K × Option V)) (map : ExtTreeMap K V cmp)
    (sorted : changes.Pairwise fun a b => cmp a.1 b.1 = .lt) (key : K) :
    (changes.foldl (fun map item => applyChange map item.1 item.2) map)[key]? =
      match changes.find? fun item => cmp item.1 key == .eq with
      | some item => item.2
      | none => map[key]? := by
  induction changes generalizing map with
  | nil => rfl
  | cons item changes hypothesis =>
    rw [List.pairwise_cons] at sorted
    rw [List.foldl_cons, hypothesis _ sorted.2, List.find?_cons]
    by_cases here : item.1 = key
    · have later : changes.find? (fun other => cmp other.1 key == .eq) = none := by
        rw [List.find?_eq_none]
        intro other listed same
        have order := sorted.1 other listed
        have same : other.1 = key := by simpa using same
        have equal : cmp key key = .eq := ReflCmp.compare_self
        rw [here, same, equal] at order
        cases order
      simp [here, later, getElem?_applyChange, ReflCmp.compare_self]
    · have apart : (cmp item.1 key == .eq) = false := by simpa using here
      simp [apart, getElem?_applyChange, here]

/-- Folding does not change what is read. -/
theorem get_fold (overlay : Overlay K V cmp) (floor : Nat) (unique : Bool) (key : K) :
    (overlay.fold floor unique).get key = overlay.get key := by
  unfold fold
  split
  · rfl
  · split
    · rfl
    · have folded := getElem?_foldl_applyChange overlay.delta.toList overlay.base
        ExtTreeMap.ordered_keys_toList key
      simp only [get, ExtTreeMap.getElem?_empty, ExtTreeMap.foldl_eq_foldl_toList, folded]
      cases found : overlay.delta.toList.find? fun item => cmp item.1 key == .eq with
      | none =>
        have missing : overlay.delta[key]? = none := by
          rw [ExtTreeMap.find?_toList_eq_none_iff_not_mem] at found
          simpa using found
        rw [missing]
      | some item =>
        obtain ⟨present, stored⟩ :=
          ExtTreeMap.find?_toList_eq_some_iff_getKey?_eq_some_and_getElem?_eq_some.mp found
        rw [stored]

end Reading

section Iteration

/-- A list of entries in strictly increasing key order. -/
def Sorted {X : Type} (cmp : K → K → Ordering) (items : List (K × X)) : Prop :=
  items.Pairwise fun a b => cmp a.1 b.1 = .lt

variable {key : K} {base : List (K × V)} {delta : List (K × Option V)}

omit [LawfulEqCmp cmp] in
/-- A key strictly before all keys of a list is not in the list. -/
theorem not_mem_of_before {X : Type} {items : List (K × X)}
    (before : ∀ item ∈ items, cmp key item.1 = .lt) (x : X) : (key, x) ∉ items := by
  intro listed
  have order : cmp key key = .lt := before _ listed
  have same : cmp key key = .eq := ReflCmp.compare_self
  rw [same] at order
  cases order

omit [LawfulEqCmp cmp] in
/-- What comes before the first key of a sorted list comes before all of it. -/
theorem Sorted.before {X : Type} {first : K} {x : X} {items : List (K × X)}
    (sorted : Sorted cmp ((first, x) :: items)) (order : cmp key first = .lt) :
    ∀ item ∈ (first, x) :: items, cmp key item.1 = .lt := by
  intro item listed
  rcases List.mem_cons.mp listed with rfl | later
  · exact order
  · exact TransCmp.lt_trans order ((List.pairwise_cons.mp sorted).1 item later)

theorem mem_emit (key other : K) (entry : Option V) (value : V) (rest : List (K × V)) :
    (other, value) ∈ emit key entry rest ↔
      (other, some value) = (key, entry) ∨ (other, value) ∈ rest := by
  cases entry <;> simp [emit]

omit [TransCmp cmp] [LawfulEqCmp cmp] in
theorem sorted_emit {entry : Option V} {rest : List (K × V)}
    (first : ∀ item ∈ rest, cmp key item.1 = .lt) (sorted : Sorted cmp rest) :
    Sorted cmp (emit key entry rest) := by
  cases entry with
  | none => exact sorted
  | some value => exact List.pairwise_cons.mpr ⟨first, sorted⟩

omit [TransCmp cmp] [LawfulEqCmp cmp] in
/-- Every entry of a merge comes from one of the two lists. -/
theorem mem_or_mem_of_mem_merge {value : V} (listed : (key, value) ∈ merge cmp base delta) :
    (key, value) ∈ base ∨ (key, some value) ∈ delta := by
  fun_induction merge cmp base delta <;> simp_all only [mem_emit, List.mem_cons] <;> grind

/-- Merging sorted lists: a pending change hides the base entry of its key. -/
theorem mem_merge_iff
    (baseSorted : Sorted cmp base) (deltaSorted : Sorted cmp delta) (key : K) (value : V) :
    (key, value) ∈ merge cmp base delta ↔
      (key, some value) ∈ delta ∨ ((key, value) ∈ base ∧ ∀ entry, (key, entry) ∉ delta) := by
  fun_induction merge cmp base delta with
  | case1 base => simp
  | case2 headKey entry delta hypothesis =>
    have rest := hypothesis .nil (List.pairwise_cons.mp deltaSorted).2
    rw [mem_emit, rest]
    simp
  | case3 baseKey baseValue base headKey entry delta same hypothesis =>
    have rest := hypothesis (List.pairwise_cons.mp baseSorted).2
      (List.pairwise_cons.mp deltaSorted).2
    obtain rfl : headKey = baseKey := LawfulEqCmp.eq_of_compare same
    have absent := not_mem_of_before (List.pairwise_cons.mp baseSorted).1
    rw [mem_emit, rest]
    grind
  | case4 baseKey baseValue base headKey entry delta before hypothesis =>
    have rest := hypothesis baseSorted (List.pairwise_cons.mp deltaSorted).2
    have absent := not_mem_of_before (baseSorted.before before)
    rw [mem_emit, rest]
    grind
  | case5 baseKey baseValue base headKey entry delta after hypothesis =>
    have rest := hypothesis (List.pairwise_cons.mp baseSorted).2 deltaSorted
    have absent := not_mem_of_before (deltaSorted.before (OrientedCmp.lt_of_gt after))
    rw [List.mem_cons, rest]
    grind

/-- Merging sorted lists gives a sorted list. -/
theorem sorted_merge (baseSorted : Sorted cmp base) (deltaSorted : Sorted cmp delta) :
    Sorted cmp (merge cmp base delta) := by
  fun_induction merge cmp base delta with
  | case1 base => exact baseSorted
  | case2 headKey entry delta hypothesis =>
    obtain ⟨deltaFirst, deltaRest⟩ := List.pairwise_cons.mp deltaSorted
    refine sorted_emit (fun item listed => ?_) (hypothesis .nil deltaRest)
    rcases mem_or_mem_of_mem_merge listed with inBase | inDelta
    · cases inBase
    · exact deltaFirst _ inDelta
  | case3 baseKey baseValue base headKey entry delta same hypothesis =>
    obtain ⟨baseFirst, baseRest⟩ := List.pairwise_cons.mp baseSorted
    obtain ⟨deltaFirst, deltaRest⟩ := List.pairwise_cons.mp deltaSorted
    obtain rfl : headKey = baseKey := LawfulEqCmp.eq_of_compare same
    refine sorted_emit (fun item listed => ?_) (hypothesis baseRest deltaRest)
    rcases mem_or_mem_of_mem_merge listed with inBase | inDelta
    · exact baseFirst _ inBase
    · exact deltaFirst _ inDelta
  | case4 baseKey baseValue base headKey entry delta before hypothesis =>
    obtain ⟨deltaFirst, deltaRest⟩ := List.pairwise_cons.mp deltaSorted
    refine sorted_emit (fun item listed => ?_) (hypothesis baseSorted deltaRest)
    rcases mem_or_mem_of_mem_merge listed with inBase | inDelta
    · exact baseSorted.before before _ inBase
    · exact deltaFirst _ inDelta
  | case5 baseKey baseValue base headKey entry delta after hypothesis =>
    obtain ⟨baseFirst, baseRest⟩ := List.pairwise_cons.mp baseSorted
    refine List.pairwise_cons.mpr ⟨fun item listed => ?_, hypothesis baseRest deltaSorted⟩
    rcases mem_or_mem_of_mem_merge listed with inBase | inDelta
    · exact baseFirst _ inBase
    · exact deltaSorted.before (OrientedCmp.lt_of_gt after) _ inDelta

/-- Iteration lists the readable entries within the bounds. -/
theorem mem_range (overlay : Overlay K V cmp) (within : K → Bool) (key : K) (value : V) :
    (key, value) ∈ overlay.range within ↔ overlay.get key = some value ∧ within key = true := by
  rw [range, mem_merge_iff (ExtTreeMap.ordered_keys_toList.filter _)
    (ExtTreeMap.ordered_keys_toList.filter _)]
  simp only [List.mem_filter, ExtTreeMap.mem_toList_iff_getElem?_eq_some, get]
  cases overlay.delta[key]? <;> grind

/-- Iteration is in strictly increasing key order. -/
theorem sorted_range (overlay : Overlay K V cmp) (within : K → Bool) :
    Sorted cmp (overlay.range within) :=
  sorted_merge (ExtTreeMap.ordered_keys_toList.filter _) (ExtTreeMap.ordered_keys_toList.filter _)

end Iteration

end Overlay
