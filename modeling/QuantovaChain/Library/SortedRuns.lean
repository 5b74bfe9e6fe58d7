import QuantovaChain.Library.Overlay
import Mathlib.Data.List.Sort

/-!
# Sorted runs

A map kept as a list of entries in the order they were made: the last entry of a key is its value. A
part of such a list is sorted into a run, with one entry for each key, and two runs are merged into
one. Neither changes the last entry of a key, and the entry of a key in a run is found by bisection.
-/

open Std

namespace SortedRuns

variable {K V : Type}

section Last

variable [DecidableEq K]

/-- The value of a key in its last entry. -/
def lastOf (entries : List (K × V)) (key : K) : Option V :=
  (entries.reverse.find? fun entry => entry.1 = key).map Prod.snd

/-- The value of a key in one entry. -/
def valueIn (entry : K × V) (key : K) : Option V := if entry.1 = key then some entry.2 else none

theorem lastOf_append (first second : List (K × V)) (key : K) :
    lastOf (first ++ second) key = (lastOf second key).or (lastOf first key) := by
  rw [lastOf, List.reverse_append, List.find?_append, Option.map_or]
  rfl

theorem lastOf_cons (entry : K × V) (rest : List (K × V)) (key : K) :
    lastOf (entry :: rest) key = (lastOf rest key).or (valueIn entry key) := by
  have single : lastOf [entry] key = valueIn entry key := by
    unfold lastOf valueIn
    by_cases here : entry.1 = key
    · simp [here]
    · simp [here]
  rw [← List.singleton_append, lastOf_append, single]

theorem lastOf_eq_none {entries : List (K × V)} {key : K} :
    lastOf entries key = none ↔ ∀ entry ∈ entries, entry.1 ≠ key := by
  simp [lastOf]

theorem mem_of_lastOf {entries : List (K × V)} {key : K} {value : V}
    (found : lastOf entries key = some value) : (key, value) ∈ entries := by
  obtain ⟨entry, here, rfl⟩ := Option.map_eq_some_iff.mp found
  have same : entry.1 = key := by simpa using List.find?_some here
  have member := List.mem_reverse.mp (List.mem_of_find?_eq_some here)
  rwa [← same]

/-- Only the entries of a key decide its value. -/
theorem lastOf_filter (entries : List (K × V)) (key : K) :
    lastOf (entries.filter fun entry => entry.1 = key) key = lastOf entries key := by
  induction entries with
  | nil => rfl
  | cons entry rest hypothesis =>
    by_cases here : entry.1 = key
    · rw [List.filter_cons_of_pos (by simpa using here), lastOf_cons, lastOf_cons,
        hypothesis]
    · rw [List.filter_cons_of_neg (by simpa using here), lastOf_cons, hypothesis, valueIn,
        if_neg here, Option.or_none]

end Last

section Ordered

variable [Ord K] [TransOrd K] [LawfulEqOrd K] [DecidableEq K]

/-- One entry for each key, in increasing order. -/
abbrev Sorted (entries : List (K × V)) : Prop := Overlay.Sorted compare entries

variable {entries : List (K × V)}

omit [LawfulEqOrd K] in
theorem Sorted.lastOf_iff (sorted : Sorted entries) {key : K} {value : V} :
    lastOf entries key = some value ↔ (key, value) ∈ entries := by
  refine ⟨mem_of_lastOf, fun member => ?_⟩
  induction entries with
  | nil => cases member
  | cons entry rest hypothesis =>
    obtain ⟨before, later⟩ := List.pairwise_cons.mp sorted
    rw [lastOf_cons]
    rcases List.mem_cons.mp member with rfl | member
    · have absent : lastOf rest key = none := by
        rw [lastOf_eq_none]
        intro entry listed same
        have order := before entry listed
        have equal : compare key key = .eq := ReflCmp.compare_self
        rw [same, equal] at order
        cases order
      rw [absent, valueIn, if_pos rfl, Option.none_or]
    · rw [hypothesis later member, Option.some_or]

/-! ## Making a run -/

/-- Neighbours with the same key become one entry with the later value. -/
def dedupFrom (kept : K × V) : List (K × V) → List (K × V)
  | [] => [kept]
  | next :: rest =>
    if next.1 = kept.1 then dedupFrom (kept.1, next.2) rest else kept :: dedupFrom next rest

def dedup : List (K × V) → List (K × V)
  | [] => []
  | first :: rest => dedupFrom first rest

/-- The order of entries by their keys. -/
def InOrder (first second : K × V) : Prop := (compare first.1 second.1).isLE = true

instance : DecidableRel (InOrder : K × V → K × V → Prop) := fun _ _ =>
  inferInstanceAs (Decidable (_ = _))

/-- Sorting by keys, with entries of one key in the order they were in. -/
def sortByKey (entries : List (K × V)) : List (K × V) := entries.insertionSort InOrder

omit [Ord K] [TransOrd K] [LawfulEqOrd K] in
theorem lastOf_dedupFrom (kept : K × V) (entries : List (K × V)) (key : K) :
    lastOf (dedupFrom kept entries) key = lastOf (kept :: entries) key := by
  induction entries generalizing kept with
  | nil => rfl
  | cons next rest hypothesis =>
    unfold dedupFrom
    by_cases same : next.1 = kept.1
    · rw [if_pos same, hypothesis, lastOf_cons, lastOf_cons, lastOf_cons, Option.or_assoc]
      congr 1
      unfold valueIn
      rw [same]
      by_cases here : kept.1 = key
      · simp [here]
      · simp [here]
    · rw [if_neg same, lastOf_cons, hypothesis, lastOf_cons kept]

omit [Ord K] [TransOrd K] [LawfulEqOrd K] in
theorem lastOf_dedup (entries : List (K × V)) (key : K) :
    lastOf (dedup entries) key = lastOf entries key := by
  cases entries with
  | nil => rfl
  | cons first rest => exact lastOf_dedupFrom first rest key

omit [TransOrd K] [LawfulEqOrd K] [Ord K] in
/-- A key of the result is one of the keys. -/
theorem key_of_mem_dedupFrom {kept entry : K × V}
    (member : entry ∈ dedupFrom kept entries) : ∃ source ∈ kept :: entries, source.1 = entry.1 := by
  induction entries generalizing kept with
  | nil => exact ⟨entry, member, rfl⟩
  | cons next rest hypothesis =>
    unfold dedupFrom at member
    split at member
    · obtain ⟨source, listed, same⟩ := hypothesis member
      rcases List.mem_cons.mp listed with rfl | later
      · exact ⟨kept, List.mem_cons_self, same⟩
      · exact ⟨source, List.mem_cons_of_mem _ (List.mem_cons_of_mem _ later), same⟩
    · rcases List.mem_cons.mp member with rfl | later
      · exact ⟨entry, List.mem_cons_self, rfl⟩
      · obtain ⟨source, listed, same⟩ := hypothesis later
        exact ⟨source, List.mem_cons_of_mem _ listed, same⟩

theorem sorted_dedupFrom {kept : K × V} (ordered : (kept :: entries).Pairwise InOrder) :
    Sorted (dedupFrom kept entries) := by
  induction entries generalizing kept with
  | nil => exact List.pairwise_singleton _ _
  | cons next rest hypothesis =>
    obtain ⟨first, later⟩ := List.pairwise_cons.mp ordered
    unfold dedupFrom
    split
    next same =>
      refine hypothesis (List.pairwise_cons.mpr ⟨fun entry listed => ?_, ?_⟩)
      · exact first entry (List.mem_cons_of_mem _ listed)
      · exact (List.pairwise_cons.mp later).2
    next apart =>
      refine List.pairwise_cons.mpr ⟨fun entry listed => ?_, hypothesis later⟩
      have step : compare kept.1 next.1 = .lt := by
        have order : (compare kept.1 next.1).isLE := first next List.mem_cons_self
        have ne : compare kept.1 next.1 ≠ .eq := fun same =>
          apart (LawfulEqCmp.eq_of_compare same).symm
        revert order ne
        cases compare kept.1 next.1 with
        | lt => intros; rfl
        | eq => intro _ ne; exact absurd rfl ne
        | gt => intro order; cases order
      obtain ⟨source, member, same⟩ := key_of_mem_dedupFrom listed
      rw [← same]
      rcases List.mem_cons.mp member with rfl | member
      · exact step
      · exact TransCmp.lt_of_lt_of_isLE step ((List.pairwise_cons.mp later).1 source member)

omit [LawfulEqOrd K] [DecidableEq K] in
instance : IsTrans (K × V) InOrder :=
  ⟨fun _ _ _ early late => by
    unfold InOrder at early late ⊢
    exact TransCmp.isLE_trans early late⟩

omit [LawfulEqOrd K] [DecidableEq K] in
instance : Std.Total (InOrder : K × V → K × V → Prop) :=
  ⟨fun first second => by
    have swapped : compare second.1 first.1 = (compare first.1 second.1).swap :=
      OrientedCmp.eq_swap
    unfold InOrder
    rw [swapped]
    cases compare first.1 second.1 with
    | lt => exact .inl rfl
    | eq => exact .inl rfl
    | gt => exact .inr rfl⟩

omit [TransOrd K] in
/-- Sorting keeps the order of the entries of a key. -/
theorem filter_sortByKey (entries : List (K × V)) (key : K) :
    ((sortByKey entries).filter fun entry => entry.1 = key) =
      entries.filter fun entry => entry.1 = key := by
  have alike : (entries.filter fun entry => entry.1 = key).Pairwise InOrder := by
    rw [List.pairwise_filter]
    refine List.pairwise_of_forall fun first second sameFirst sameSecond => ?_
    rw [InOrder, of_decide_eq_true sameFirst, of_decide_eq_true sameSecond]
    have equal : compare key key = .eq := ReflCmp.compare_self
    rw [equal]
    rfl
  have within : (entries.filter fun entry => entry.1 = key).Sublist (sortByKey entries) :=
    List.sublist_insertionSort alike List.filter_sublist
  have kept := within.filter fun entry => decide (entry.1 = key)
  rw [List.filter_filter] at kept
  simp only [Bool.and_self] at kept
  refine (kept.eq_of_length ?_).symm
  exact ((List.perm_insertionSort InOrder entries).filter _).length_eq.symm

/-- The run of a list of entries. -/
def runOf (entries : List (K × V)) : List (K × V) := dedup (sortByKey entries)

omit [TransOrd K] in
theorem lastOf_runOf (entries : List (K × V)) (key : K) :
    lastOf (runOf entries) key = lastOf entries key := by
  rw [runOf, lastOf_dedup, ← lastOf_filter (sortByKey entries), filter_sortByKey, lastOf_filter]

theorem sorted_runOf (entries : List (K × V)) : Sorted (runOf entries) := by
  have ordered : (sortByKey entries).Pairwise InOrder :=
    List.pairwise_insertionSort InOrder entries
  unfold runOf
  cases sorted : sortByKey entries with
  | nil => exact .nil
  | cons first rest => exact sorted_dedupFrom (sorted ▸ ordered)

/-! ## Merging two runs -/

/-- The entries of two runs in order. For a key of both the newer run decides. -/
def combine (older newer : List (K × V)) : List (K × V) :=
  Overlay.merge compare older (newer.map fun entry => (entry.1, some entry.2))

omit [TransOrd K] [LawfulEqOrd K] [DecidableEq K] in
theorem Sorted.changes (sorted : Sorted entries) :
    Overlay.Sorted compare (entries.map fun entry => (entry.1, some entry.2)) :=
  List.pairwise_map.mpr sorted

omit [DecidableEq K] in
theorem sorted_combine {older newer : List (K × V)} (olderSorted : Sorted older)
    (newerSorted : Sorted newer) : Sorted (combine older newer) :=
  Overlay.sorted_merge olderSorted newerSorted.changes

theorem lastOf_combine {older newer : List (K × V)} (olderSorted : Sorted older)
    (newerSorted : Sorted newer) (key : K) :
    lastOf (combine older newer) key = lastOf (older ++ newer) key := by
  refine Option.ext fun value => ?_
  have listed : ∀ entry : Option V, (key, entry) ∈ newer.map (fun entry => (entry.1, some entry.2)) ↔
      ∃ value, entry = some value ∧ lastOf newer key = some value := by
    intro entry
    simp only [List.mem_map, Prod.mk.injEq, Prod.exists, newerSorted.lastOf_iff]
    constructor
    · rintro ⟨_, value, member, rfl, rfl⟩
      exact ⟨value, rfl, member⟩
    · rintro ⟨value, rfl, member⟩
      exact ⟨key, value, member, rfl, rfl⟩
  rw [(sorted_combine olderSorted newerSorted).lastOf_iff, combine,
    Overlay.mem_merge_iff olderSorted newerSorted.changes, listed, lastOf_append,
    ← olderSorted.lastOf_iff]
  simp only [listed]
  cases lastOf newer key with
  | none => simp
  | some newest => simp [eq_comm]

/-! ## Looking for a key -/

/-- Bisection between two places. What is at a place is read, which can fail. -/
def bisect {ε : Type} (read : Nat → Except ε (K × V)) (key : K) :
    Nat → Nat → Nat → Except ε (Option V)
  | 0, _, _ => .ok none
  | rounds + 1, low, high =>
    if low < high then
      let middle := low + (high - low) / 2
      match read middle with
      | .error failure => .error failure
      | .ok (got, value) =>
        match compare got key with
        | .lt => bisect read key rounds (middle + 1) high
        | .gt => bisect read key rounds low middle
        | .eq => .ok (some value)
    else .ok none

/-- Outside of the two places there is no entry of the key. -/
structure Between (entries : List (K × V)) (key : K) (low high : Nat) : Prop where
  fits : high ≤ entries.length
  below : ∀ place (inside : place < entries.length), place < low →
    compare entries[place].1 key = .lt
  above : ∀ place (inside : place < entries.length), high ≤ place →
    compare key entries[place].1 = .lt

omit [TransOrd K] in
theorem Between.absent {key : K} {low high : Nat}
    (between : Between entries key low high) (empty : high ≤ low) : lastOf entries key = none := by
  rw [lastOf_eq_none]
  intro entry member same
  obtain ⟨place, inside, rfl⟩ := List.mem_iff_getElem.mp member
  have equal : compare key key = .eq := ReflCmp.compare_self
  rcases Nat.lt_or_ge place low with early | late
  · have order := between.below place inside early
    rw [same, equal] at order
    cases order
  · have order := between.above place inside (by omega)
    rw [same, equal] at order
    cases order

theorem bisect_spec {ε : Type} {read : Nat → Except ε (K × V)} (sorted : Sorted entries)
    (reads : ∀ place (inside : place < entries.length), read place = .ok entries[place])
    (key : K) {rounds low high : Nat} (between : Between entries key low high)
    (enough : high - low ≤ rounds) :
    bisect read key rounds low high = .ok (lastOf entries key) := by
  induction rounds generalizing low high with
  | zero => rw [bisect, between.absent (by omega)]
  | succ rounds hypothesis =>
    unfold bisect
    by_cases inside : low < high
    · rw [if_pos inside]
      have fits := between.fits
      generalize place : low + (high - low) / 2 = middle
      have inside : middle < entries.length := by omega
      have ordered := List.pairwise_iff_getElem.mp sorted
      simp only [reads middle inside]
      cases order : compare entries[middle].1 key with
      | lt =>
        refine hypothesis ⟨fits, fun other within early => ?_, between.above⟩ (by omega)
        rcases Nat.lt_or_eq_of_le (Nat.le_of_lt_succ early) with before | rfl
        · exact TransCmp.lt_trans (ordered other middle within inside before) order
        · exact order
      | gt =>
        refine hypothesis ⟨by omega, between.below, fun other within late => ?_⟩ (by omega)
        have first := OrientedCmp.lt_of_gt order
        rcases Nat.lt_or_eq_of_le late with behind | rfl
        · exact TransCmp.lt_trans first (ordered middle other inside within behind)
        · exact first
      | eq =>
        have same : entries[middle].1 = key := LawfulEqCmp.eq_of_compare order
        have found : lastOf entries key = some entries[middle].2 := by
          rw [sorted.lastOf_iff, ← same]
          exact List.getElem_mem inside
        simp only [found]
    · rw [if_neg inside, between.absent (by omega)]

end Ordered

end SortedRuns
