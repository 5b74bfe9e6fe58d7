import Mathlib.Data.List.Induction
import Mathlib.Data.List.Sort
import QuantovaChain.Library.Arena
import QuantovaChain.State.Trie

/-!
# Copies of the leaf map

A trie keeps its leaves in a base map and a map of pending changes, both behind counted references.
A copy of the trie takes references to the same two maps. A write goes to the base where the base
has one holder and nothing is pending, and else to the pending changes, which are copied first
where another trie holds them too; compaction copies the base likewise. Here all copies live in one
heap, so that a write in place could be seen by another copy; it never is, and each copy reads as
one sorted map with the history of that copy.
-/

namespace QuantovaChain.State

open Std

/-! ## Iteration -/

/-- The two iterators of a leaf range, by what is still to come from the base and from the pending
changes. -/
structure LeafRange where
  base : List (Key × Bytes)
  delta : List (Key × Option Bytes)

namespace LeafRange

/-- The next leaf, and the iterators after it. -/
def nextLeaf (base : List (Key × Bytes)) :
    List (Key × Option Bytes) → Option ((Key × Bytes) × LeafRange)
  | [] =>
    match base with
    | [] => none
    | leaf :: base => some (leaf, ⟨base, []⟩)
  | (key, entry) :: delta =>
    let fromDelta (base : List (Key × Bytes)) : Option ((Key × Bytes) × LeafRange) :=
      match entry with
      | some value => some ((key, value), ⟨base, delta⟩)
      | none => nextLeaf base delta
    match base with
    | [] => fromDelta []
    | leaf :: rest =>
      if key = leaf.1 then fromDelta rest
      else if key < leaf.1 then fromDelta (leaf :: rest)
      else some (leaf, ⟨rest, (key, entry) :: delta⟩)

def next (range : LeafRange) : Option ((Key × Bytes) × LeafRange) :=
  nextLeaf range.base range.delta

def size (range : LeafRange) : Nat := range.base.length + range.delta.length

theorem nextLeaf_smaller {base : List (Key × Bytes)} {delta : List (Key × Option Bytes)}
    {leaf : Key × Bytes} {rest : LeafRange} (found : nextLeaf base delta = some (leaf, rest)) :
    rest.size < base.length + delta.length := by
  revert found
  induction delta generalizing base with
  | nil =>
    intro found
    cases base with
    | nil => cases found
    | cons first base =>
      cases found
      exact Nat.lt_succ_self _
  | cons change delta hypothesis =>
    obtain ⟨key, entry⟩ := change
    have fromDelta : ∀ kept : List (Key × Bytes), kept.length ≤ base.length →
        (match entry with
          | some value => some ((key, value), ⟨kept, delta⟩)
          | none => nextLeaf kept delta) = some (leaf, rest) →
        rest.size < base.length + (delta.length + 1) := by
      intro kept fewer found
      cases entry with
      | some value =>
        cases found
        show kept.length + delta.length < _
        omega
      | none =>
        have smaller := hypothesis found
        omega
    intro found
    cases base with
    | nil => exact fromDelta [] (Nat.le_refl _) found
    | cons first base =>
      unfold nextLeaf at found
      dsimp only at found
      split at found
      · exact fromDelta base (Nat.le_succ _) found
      · split at found
        · exact fromDelta (first :: base) (Nat.le_refl _) found
        · cases found
          show base.length + (delta.length + 1) < _
          simp

/-- All leaves that the range gives, in turn. -/
def collect (range : LeafRange) : List (Key × Bytes) :=
  match found : range.next with
  | none => []
  | some (leaf, rest) =>
    have := nextLeaf_smaller found
    leaf :: collect rest
termination_by range.size

/-- The merge, one leaf at a time. -/
theorem merge_eq_next (base : List (Key × Bytes)) (delta : List (Key × Option Bytes)) :
    Overlay.merge compare base delta =
      match nextLeaf base delta with
      | none => []
      | some (leaf, rest) => leaf :: Overlay.merge compare rest.base rest.delta := by
  induction delta generalizing base with
  | nil => cases base <;> simp [nextLeaf, Overlay.merge]
  | cons change delta hypothesis =>
    obtain ⟨key, entry⟩ := change
    cases base with
    | nil =>
      rw [Overlay.merge]
      cases entry with
      | some value => rfl
      | none => exact hypothesis []
    | cons first base =>
      obtain ⟨baseKey, baseValue⟩ := first
      rw [Overlay.merge]
      unfold nextLeaf
      dsimp only
      split
      next same =>
        rw [if_pos (LawfulEqCmp.eq_of_compare same)]
        cases entry with
        | some value => rfl
        | none => exact hypothesis base
      next before =>
        have before := KeyBits.compare_lt before
        rw [if_neg (by grind), if_pos before]
        cases entry with
        | some value => rfl
        | none => exact hypothesis ((baseKey, baseValue) :: base)
      next after =>
        have after := KeyBits.compare_lt (OrientedCmp.lt_of_gt after)
        rw [if_neg (by grind), if_neg (by grind)]

/-- The iterator gives the merge of what is to come. -/
theorem collect_eq_merge (range : LeafRange) :
    range.collect = Overlay.merge compare range.base range.delta := by
  fun_induction collect range with
  | case1 range found =>
    rw [merge_eq_next]
    unfold next at found
    rw [found]
  | case2 range leaf rest found smaller hypothesis =>
    rw [merge_eq_next, hypothesis]
    unfold next at found
    rw [found]

end LeafRange

/-- One end of a range of keys. -/
inductive Bound where
  | included (key : Key)
  | excluded (key : Key)
  | unbounded
  deriving DecidableEq

structure Bounds where
  lower : Bound
  upper : Bound
  deriving DecidableEq

namespace Bounds

def full : Bounds := ⟨.unbounded, .unbounded⟩

def contains (bounds : Bounds) (key : Key) : Bool :=
  (match bounds.lower with
    | .included lowest => decide (lowest ≤ key)
    | .excluded lowest => decide (lowest < key)
    | .unbounded => true) &&
  (match bounds.upper with
    | .included highest => decide (key ≤ highest)
    | .excluded highest => decide (key < highest)
    | .unbounded => true)

/-- A sorted map panics on bounds that are out of order, and on equal bounds that are both
excluded. -/
def ordered (bounds : Bounds) : Bool :=
  match bounds.lower, bounds.upper with
  | .unbounded, _ | _, .unbounded => true
  | .excluded lowest, .excluded highest => lowest < highest
  | .excluded lowest, .included highest | .included lowest, .included highest
  | .included lowest, .excluded highest => lowest ≤ highest

end Bounds

/-- The entries of a sorted map within bounds, unless it panics. -/
def sortedRange {V : Type} (map : ExtTreeMap Key V compare) (bounds : Bounds) :
    Option (List (Key × V)) :=
  if bounds.ordered then some (map.toList.filter fun item => bounds.contains item.1) else none

namespace Leaves

/-- The leaves within bounds, as the iterator gives them. -/
def rangeIn (leaves : Leaves) (bounds : Bounds) : Option (List (Key × Bytes)) := do
  let base ← sortedRange leaves.base bounds
  let delta ← sortedRange leaves.delta bounds
  return LeafRange.collect ⟨base, delta⟩

def iter (leaves : Leaves) : Option (List (Key × Bytes)) := leaves.rangeIn .full

theorem rangeIn_eq (leaves : Leaves) (bounds : Bounds) :
    leaves.rangeIn bounds =
      if bounds.ordered then some (leaves.range bounds.contains) else none := by
  unfold rangeIn sortedRange
  split
  · exact congrArg some (LeafRange.collect_eq_merge _)
  · rfl

end Leaves

/-! ## One plain map -/

/-- The leaves read as a plain sorted map. -/
structure ReadsAs (leaves : Leaves) (map : ExtTreeMap Key Bytes compare) : Prop where
  get : ∀ key, leaves.get key = map[key]?
  range : ∀ bounds, leaves.rangeIn bounds = sortedRange map bounds
  iter : leaves.iter = some map.toList
  increasing : ∀ bounds items, leaves.rangeIn bounds = some items →
    items.Pairwise fun first second => first.1 < second.1

/-- A sorted list of leaves is determined by its members. -/
theorem sorted_ext {first second : List (Key × Bytes)}
    (firstSorted : Overlay.Sorted compare first) (secondSorted : Overlay.Sorted compare second)
    (same : ∀ item, item ∈ first ↔ item ∈ second) : first = second := by
  have antisymmetric : Std.Antisymm fun a b : Key × Bytes => compare a.1 b.1 = .lt :=
    ⟨fun a b before after => absurd before (OrientedCmp.not_lt_of_lt after)⟩
  have irreflexive : Std.Irrefl fun a b : Key × Bytes => compare a.1 b.1 = .lt :=
    ⟨fun a before => by
      have same : compare a.1 a.1 = .eq := ReflCmp.compare_self
      rw [same] at before
      cases before⟩
  exact List.Pairwise.eq_of_mem_iff firstSorted secondSorted same

/-- Reading every key alike is reading everything alike. -/
theorem ReadsAs.of_get {leaves : Leaves} {map : ExtTreeMap Key Bytes compare}
    (get : ∀ key, leaves.get key = map[key]?) : ReadsAs leaves map := by
  have range : ∀ bounds, leaves.rangeIn bounds = sortedRange map bounds := by
    intro bounds
    rw [Leaves.rangeIn_eq, sortedRange]
    split
    · refine congrArg some (sorted_ext (leaves.sorted_range _)
        (ExtTreeMap.ordered_keys_toList.filter _) fun item => ?_)
      rw [Overlay.mem_range, get, List.mem_filter, ExtTreeMap.mem_toList_iff_getElem?_eq_some]
    · rfl
  refine ⟨get, range, ?_, fun bounds items listed => ?_⟩
  · have ordered : Bounds.full.ordered = true := rfl
    rw [Leaves.iter, range, sortedRange, if_pos ordered]
    exact congrArg some (List.filter_eq_self.mpr fun _ _ => rfl)
  · rw [Leaves.rangeIn_eq] at listed
    split at listed
    · cases listed
      exact (leaves.sorted_range _).imp KeyBits.compare_lt
    · cases listed

/-! ## The heap of copies -/

/-- A trie's references to its base and to its pending changes. -/
structure Copy where
  base : Nat
  delta : Nat
  deriving DecidableEq

/-- The maps of all tries, and the tries in the order of their making. A trie that was dropped
leaves its place empty. -/
structure Copies where
  bases : Arena (ExtTreeMap Key Bytes compare)
  deltas : Arena (ExtTreeMap Key (Option Bytes) compare)
  copies : List (Option Copy)

namespace Copies

def nothing : Copies := ⟨.empty ∅, .empty ∅, []⟩

variable (heap : Copies) (index : Nat)

def leaves (copy : Copy) : Leaves :=
  ⟨heap.bases.read copy.base, heap.deltas.read copy.delta⟩

/-- What the tries read. -/
def shown : List (Option Leaves) := heap.copies.map (Option.map heap.leaves)

/-- Acts on a trie that is there. -/
def onCopy (action : Copy → Copies) : Copies :=
  match heap.copies[index]?.join with
  | some copy => action copy
  | none => heap

def new : Copies where
  bases := heap.bases.alloc ∅
  deltas := heap.deltas.alloc ∅
  copies := heap.copies ++ [some ⟨heap.bases.next, heap.deltas.next⟩]

def clone : Copies :=
  heap.onCopy index fun copy =>
    { bases := heap.bases.share copy.base
      deltas := heap.deltas.share copy.delta
      copies := heap.copies ++ [some copy] }

def drop : Copies :=
  heap.onCopy index fun copy =>
    { bases := heap.bases.release copy.base
      deltas := heap.deltas.release copy.delta
      copies := heap.copies.set index none }

/-- Writes or removes a key of a trie. -/
def put (copy : Copy) (key : Key) (entry : Option Bytes) : Copies :=
  if heap.bases.unique copy.base && (heap.deltas.read copy.delta).isEmpty then
    { heap with bases :=
        heap.bases.write copy.base (Overlay.applyChange (heap.bases.read copy.base) key entry) }
  else
    let (deltas, delta) := heap.deltas.makeMut copy.delta fun changes => changes.insert key entry
    { heap with deltas, copies := heap.copies.set index (some { copy with delta }) }

def insert (key : Key) (value : Bytes) : Copies :=
  heap.onCopy index fun copy => heap.put index copy key (some value)

def remove (key : Key) : Copies :=
  heap.onCopy index fun copy =>
    if ((heap.leaves copy).get key).isSome then heap.put index copy key none else heap

/-- Folds the pending changes of a trie into its base. -/
def foldInto (copy : Copy) : Copies :=
  let changes := heap.deltas.read copy.delta
  if changes.isEmpty then heap
  else if !heap.bases.unique copy.base &&
      changes.size ≤ (heap.bases.read copy.base).size / 8 + foldFloor then heap
  else
    let (deltas, delta) := heap.deltas.makeMut copy.delta fun _ => ∅
    let (bases, base) := heap.bases.makeMut copy.base fun base =>
      changes.foldl Overlay.applyChange base
    { bases, deltas, copies := heap.copies.set index (some ⟨base, delta⟩) }

def compact : Copies := heap.onCopy index (heap.foldInto index)

/-- The counts of all maps are right. -/
structure Held (heap : Copies) : Prop where
  bases : heap.bases.Held (heap.copies.map (Option.map Copy.base))
  deltas : heap.deltas.Held (heap.copies.map (Option.map Copy.delta))

variable {heap index} {other : Nat} {copy another : Copy}

theorem holder_base (holds : heap.copies[index]? = some (some copy)) :
    (heap.copies.map (Option.map Copy.base))[index]? = some (some copy.base) := by
  rw [List.getElem?_map, holds]
  rfl

theorem holder_delta (holds : heap.copies[index]? = some (some copy)) :
    (heap.copies.map (Option.map Copy.delta))[index]? = some (some copy.delta) := by
  rw [List.getElem?_map, holds]
  rfl

/-- What is shown after one trie took other maps, where the other tries read the same. -/
theorem shown_set (before after : Copies) (place : Option Copy)
    (copies : after.copies = before.copies.set index place)
    (others : ∀ other another, other ≠ index → before.copies[other]? = some (some another) →
      after.leaves another = before.leaves another) :
    after.shown = before.shown.set index (place.map after.leaves) := by
  unfold shown
  rw [copies, List.map_set]
  refine List.ext_getElem? fun other => ?_
  by_cases here : other = index
  · rw [here]
    simp only [List.getElem?_set_self', List.getElem?_map]
    cases before.copies[index]? <;> rfl
  · rw [List.getElem?_set_ne (Ne.symm here), List.getElem?_set_ne (Ne.symm here),
      List.getElem?_map, List.getElem?_map]
    cases found : before.copies[other]? with
    | none => rfl
    | some place =>
      cases place with
      | none => rfl
      | some another => exact congrArg (some ∘ some) (others other another here found)

/-- What is shown after one more trie, where the tries there were read the same. -/
theorem shown_append (before after : Copies) (copies : after.copies = before.copies ++ [some copy])
    (others : ∀ (other : Nat) another, before.copies[other]? = some (some another) →
      after.leaves another = before.leaves another) :
    after.shown = before.shown ++ [some (after.leaves copy)] := by
  unfold shown
  rw [copies, List.map_append]
  refine congrArg₂ _ (List.map_congr_left fun place listed => ?_) rfl
  cases place with
  | none => rfl
  | some another =>
    obtain ⟨other, found⟩ := List.getElem?_of_mem listed
    exact congrArg some (others other another found)

theorem set_same {α : Type} {items : List α} {item : α} (holds : items[index]? = some item) :
    items.set index item = items := by
  obtain ⟨inside, here⟩ := List.getElem?_eq_some_iff.mp holds
  rw [← here, List.set_getElem_self]

theorem Held.set {after : Copies} {place : Option Copy}
    (copies : after.copies = heap.copies.set index place)
    (bases : after.bases.Held
      ((heap.copies.map (Option.map Copy.base)).set index (place.map Copy.base)))
    (deltas : after.deltas.Held
      ((heap.copies.map (Option.map Copy.delta)).set index (place.map Copy.delta))) :
    after.Held := by
  constructor <;> rwa [copies, List.map_set]

theorem Held.append {after : Copies} (copies : after.copies = heap.copies ++ [some copy])
    (bases : after.bases.Held (heap.copies.map (Option.map Copy.base) ++ [some copy.base]))
    (deltas : after.deltas.Held (heap.copies.map (Option.map Copy.delta) ++ [some copy.delta])) :
    after.Held := by
  constructor <;> rwa [copies, List.map_append]

theorem shown_same (holds : heap.copies[index]? = some (some copy)) :
    heap.shown.set index (some (heap.leaves copy)) = heap.shown := by
  apply set_same
  rw [shown, List.getElem?_map, holds]
  rfl

/-- Writing a key changes what one trie reads, as its two layers say. -/
theorem put_spec (held : heap.Held) (holds : heap.copies[index]? = some (some copy)) (key : Key)
    (entry : Option Bytes) :
    (heap.put index copy key entry).Held ∧
      (heap.put index copy key entry).shown = heap.shown.set index
        (some ((heap.leaves copy).put (heap.bases.unique copy.base) key entry)) := by
  unfold put Overlay.put leaves
  split
  next inPlace =>
    obtain ⟨single, -⟩ := Bool.and_eq_true_iff.mp inPlace
    refine ⟨⟨Arena.held_write held.bases _ _, held.deltas⟩, ?_⟩
    refine (shown_set heap { heap with bases := heap.bases.write copy.base _ } (some copy)
      (set_same holds).symm fun other another apart also => ?_).trans ?_
    · refine congrArg₂ Overlay.mk ?_ rfl
      exact held.bases.read_write single (holder_base holds) (holder_base also) apart _
    · refine congrArg (heap.shown.set index) (congrArg some (congrArg₂ Overlay.mk ?_ rfl))
      exact Function.update_self ..
  next layered =>
    have deltas := Arena.held_makeMut held.deltas (holder_delta holds)
      fun changes => changes.insert key entry
    refine ⟨.set rfl ?_ deltas, ?_⟩
    · rw [Option.map_some, set_same (holder_base holds)]
      exact held.bases
    · refine (shown_set heap _ (some _) rfl fun other another apart also => ?_).trans ?_
      · refine congrArg₂ Overlay.mk rfl ?_
        exact held.deltas.read_makeMut (holder_delta holds) (holder_delta also) apart _
      · refine congrArg (heap.shown.set index) (congrArg some (congrArg₂ Overlay.mk rfl ?_))
        exact Arena.read_makeMut_self ..

/-- Folding changes the layers of one trie. -/
theorem foldInto_spec (held : heap.Held) (holds : heap.copies[index]? = some (some copy)) :
    (heap.foldInto index copy).Held ∧
      (heap.foldInto index copy).shown = heap.shown.set index
        (some ((heap.leaves copy).fold foldFloor (heap.bases.unique copy.base))) := by
  unfold foldInto Overlay.fold leaves
  dsimp only
  split
  · exact ⟨held, (shown_same holds).symm⟩
  · split
    · exact ⟨held, (shown_same holds).symm⟩
    · have deltas := Arena.held_makeMut held.deltas (holder_delta holds) fun _ => ∅
      have bases := Arena.held_makeMut held.bases (holder_base holds) fun base =>
        (heap.deltas.read copy.delta).foldl Overlay.applyChange base
      refine ⟨.set rfl bases deltas, ?_⟩
      refine (shown_set heap _ (some _) rfl fun other another apart also => ?_).trans ?_
      · refine congrArg₂ Overlay.mk ?_ ?_
        · exact held.bases.read_makeMut (holder_base holds) (holder_base also) apart _
        · exact held.deltas.read_makeMut (holder_delta holds) (holder_delta also) apart _
      · refine congrArg (heap.shown.set index) (congrArg some (congrArg₂ Overlay.mk ?_ ?_))
        · exact Arena.read_makeMut_self ..
        · exact Arena.read_makeMut_self ..

theorem new_spec (held : heap.Held) :
    heap.new.Held ∧ heap.new.shown = heap.shown ++ [some .empty] := by
  refine ⟨.append rfl (Arena.held_alloc held.bases ∅) (Arena.held_alloc held.deltas ∅), ?_⟩
  refine (shown_append heap heap.new rfl fun other another also => ?_).trans ?_
  · refine congrArg₂ Overlay.mk ?_ ?_
    · exact held.bases.read_alloc (holder_base also) _
    · exact held.deltas.read_alloc (holder_delta also) _
  · refine congrArg (fun leaves => heap.shown ++ [some leaves]) (congrArg₂ Overlay.mk ?_ ?_)
    · exact Function.update_self ..
    · exact Function.update_self ..

theorem clone_spec (held : heap.Held) (holds : heap.copies[index]? = some (some copy)) :
    (heap.clone index).Held ∧
      (heap.clone index).shown = heap.shown ++ [some (heap.leaves copy)] := by
  have bases := Arena.held_share held.bases (List.mem_of_getElem? (holder_base holds))
  have deltas := Arena.held_share held.deltas (List.mem_of_getElem? (holder_delta holds))
  unfold clone onCopy
  rw [Option.join_eq_some_iff.mpr holds]
  exact ⟨.append rfl bases deltas, shown_append heap _ rfl fun _ _ _ => rfl⟩

theorem drop_spec (held : heap.Held) (holds : heap.copies[index]? = some (some copy)) :
    (heap.drop index).Held ∧ (heap.drop index).shown = heap.shown.set index none := by
  have bases := Arena.held_release held.bases (holder_base holds)
  have deltas := Arena.held_release held.deltas (holder_delta holds)
  unfold drop onCopy
  rw [Option.join_eq_some_iff.mpr holds]
  exact ⟨.set rfl bases deltas, shown_set heap _ none rfl fun _ _ _ _ => rfl⟩

end Copies

/-! ## Runs -/

/-- What may be done with tries. -/
inductive CopyStep where
  | new
  | clone (index : Nat)
  | drop (index : Nat)
  | insert (index : Nat) (key : Key) (value : Bytes)
  | remove (index : Nat) (key : Key)
  | compact (index : Nat)

/-- The trie that a step changes or drops. -/
def CopyStep.target : CopyStep → Option Nat
  | .new | .clone _ => none
  | .drop index | .insert index _ _ | .remove index _ | .compact index => some index

namespace Copies

def step (heap : Copies) : CopyStep → Copies
  | .new => heap.new
  | .clone index => heap.clone index
  | .drop index => heap.drop index
  | .insert index key value => heap.insert index key value
  | .remove index key => heap.remove index key
  | .compact index => heap.compact index

def run (steps : List CopyStep) : Copies := steps.foldl step nothing

/-- What a trie reads. -/
def leavesAt (heap : Copies) (index : Nat) : Option Leaves := heap.shown[index]?.join

end Copies

/-! ## Maps that are values -/

/-- Something with the operations of a leaf map. -/
structure MapKind (α : Type) where
  empty : α
  insert : α → Key → Bytes → α
  remove : α → Key → α
  compact : α → α

namespace MapKind

variable {α β : Type}

/-- A step on maps that are values: a copy is the map itself. -/
def step (kind : MapKind α) (maps : List (Option α)) : CopyStep → List (Option α)
  | .new => maps ++ [some kind.empty]
  | .clone index =>
    match maps[index]?.join with
    | some map => maps ++ [some map]
    | none => maps
  | .drop index => maps.set index none
  | .insert index key value => maps.modify index (Option.map fun map => kind.insert map key value)
  | .remove index key => maps.modify index (Option.map fun map => kind.remove map key)
  | .compact index => maps.modify index (Option.map kind.compact)

def run (kind : MapKind α) (steps : List CopyStep) : List (Option α) := steps.foldl kind.step []

/-- The maps that are there keep their place and value, but for the target of the step. -/
theorem step_other (kind : MapKind α) {maps : List (Option α)} {index : Nat} {map : α}
    (found : maps[index]?.join = some map) {step : CopyStep} (apart : step.target ≠ some index) :
    (kind.step maps step)[index]?.join = some map := by
  have inside : index < maps.length := by
    by_contra outside
    rw [List.getElem?_eq_none (Nat.le_of_not_lt outside)] at found
    cases found
  cases step with
  | new =>
    show (maps ++ _)[index]?.join = _
    rw [List.getElem?_append_left inside, found]
  | clone original =>
    unfold MapKind.step
    dsimp only
    split
    · rw [List.getElem?_append_left inside, found]
    · exact found
  | drop target =>
    show (maps.set target _)[index]?.join = _
    rw [List.getElem?_set_ne (fun same => apart (congrArg some same)), found]
  | insert target key value | remove target key | compact target =>
    show (maps.modify target _)[index]?.join = _
    rw [List.getElem?_modify_ne _ _ (fun same => apart (congrArg some same)), found]

/-- A view of one kind of map as another. -/
structure View (kind : MapKind α) (other : MapKind β) (view : α → β) : Prop where
  empty : view kind.empty = other.empty
  insert : ∀ map key value, view (kind.insert map key value) = other.insert (view map) key value
  remove : ∀ map key, view (kind.remove map key) = other.remove (view map) key
  compact : ∀ map, view (kind.compact map) = other.compact (view map)

theorem View.step {kind : MapKind α} {other : MapKind β} {view : α → β} (views : View kind other view)
    (maps : List (Option α)) (step : CopyStep) :
    (kind.step maps step).map (Option.map view) =
      other.step (maps.map (Option.map view)) step := by
  have modified : ∀ index (change : α → α) (image : β → β),
      (∀ map, view (change map) = image (view map)) →
      (maps.modify index (Option.map change)).map (Option.map view) =
        (maps.map (Option.map view)).modify index (Option.map image) := by
    intro index change image same
    refine List.ext_getElem? fun other => ?_
    simp only [List.getElem?_map, List.getElem?_modify]
    cases maps[other]? with
    | none => rfl
    | some place =>
      by_cases here : index = other
      · cases place with
        | none => simp [here]
        | some map => simp [here, same]
      · simp [here]
  cases step with
  | new => simp [MapKind.step, views.empty]
  | clone original =>
    unfold MapKind.step
    dsimp only
    rw [List.getElem?_map]
    cases maps[original]? with
    | none => rfl
    | some place =>
      cases place with
      | none => rfl
      | some map => simp
  | drop target => simp [MapKind.step, List.map_set]
  | insert target key value => exact modified _ _ _ fun map => views.insert map key value
  | remove target key => exact modified _ _ _ fun map => views.remove map key
  | compact target => exact modified _ _ _ views.compact

end MapKind

/-- Leaves by what is read of them. -/
def lookups : MapKind (Key → Option Bytes) where
  empty _ := none
  insert read key value := Function.update read key (some value)
  remove read key := Function.update read key none
  compact read := read

/-- A plain sorted map. -/
def plainMap : MapKind (ExtTreeMap Key Bytes compare) where
  empty := ∅
  insert map key value := map.insert key value
  remove map key := map.erase key
  compact map := map

/-- The leaves in two layers, where the base may be edited in place or not. -/
def layeredMap (unique : Bool) : MapKind Leaves where
  empty := .empty
  insert leaves key value := leaves.put unique key (some value)
  remove leaves key := if (leaves.get key).isSome then leaves.put unique key none else leaves
  compact leaves := leaves.fold foldFloor unique

theorem plainMap_view : plainMap.View lookups fun map key => map[key]? where
  empty := by
    funext key
    exact ExtTreeMap.getElem?_empty
  insert map key value := by
    funext other
    have entry := Overlay.getElem?_applyChange map key other (some value)
    rw [show plainMap.insert map key value = Overlay.applyChange map key (some value) from rfl, entry]
    simp [lookups, Function.update_apply, eq_comm]
  remove map key := by
    funext other
    have entry := Overlay.getElem?_applyChange map key other none
    rw [show plainMap.remove map key = Overlay.applyChange map key none from rfl, entry]
    simp [lookups, Function.update_apply, eq_comm]
  compact map := rfl

theorem layered_put (leaves : Leaves) (unique : Bool) (key : Key) (entry : Option Bytes) :
    (leaves.put unique key entry).get = Function.update leaves.get key entry := by
  funext other
  rw [Overlay.get_put, Function.update_apply]
  simp only [eq_comm]

theorem layeredMap_view (unique : Bool) : (layeredMap unique).View lookups Overlay.get where
  empty := funext Overlay.get_empty
  insert leaves key value := layered_put leaves unique key (some value)
  remove leaves key := by
    unfold layeredMap
    dsimp only
    split
    · exact layered_put leaves unique key none
    next absent =>
      have absent : leaves.get key = none := by simpa using absent
      exact (Function.update_eq_self_iff.mpr absent.symm).symm
  compact leaves := funext (Overlay.get_fold leaves foldFloor unique)

namespace Copies

variable {heap : Copies}

theorem held_none : nothing.Held := ⟨Arena.held_empty _, Arena.held_empty _⟩

theorem shown_join (heap : Copies) (index : Nat) :
    heap.shown[index]?.join = heap.copies[index]?.join.map heap.leaves := by
  rw [shown, List.getElem?_map]
  cases heap.copies[index]? <;> rfl

/-- Changing a trie that is not there changes nothing. -/
theorem modify_absent {α : Type} {items : List (Option α)} {index : Nat}
    (absent : items[index]?.join = none) (change : α → α) :
    items.modify index (Option.map change) = items := by
  refine List.ext_getElem? fun other => ?_
  rw [List.getElem?_modify]
  by_cases here : index = other
  · subst here
    cases found : items[index]? with
    | none => rfl
    | some place =>
      rw [found] at absent
      obtain rfl : place = none := absent
      simp
  · cases items[other]? <;> simp [here]

theorem set_absent {α : Type} {items : List (Option α)} {index : Nat}
    (absent : items[index]?.join = none) : items.set index none = items := by
  cases found : items[index]? with
  | none => exact List.set_eq_of_length_le (List.getElem?_eq_none_iff.mp found)
  | some place =>
    rw [found] at absent
    obtain rfl : place = none := absent
    exact set_same found

theorem modify_present {α : Type} {items : List (Option α)} {index : Nat} {item : α}
    (present : items[index]?.join = some item) (change : α → α) :
    items.modify index (Option.map change) = items.set index (some (change item)) := by
  have found : items[index]? = some (some item) := Option.join_eq_some_iff.mp present
  obtain ⟨inside, here⟩ := List.getElem?_eq_some_iff.mp found
  rw [List.modify_eq_set_getElem?, found]
  rfl

/-- Every step on the heap is a step on leaves that are values, in place or not. -/
theorem step_spec (held : heap.Held) (step : CopyStep) :
    (heap.step step).Held ∧
      ∃ unique, (heap.step step).shown = (layeredMap unique).step heap.shown step := by
  have changed : ∀ index (action : Copy → Copies) (change : Bool → Leaves → Leaves),
      (∀ copy, heap.copies[index]? = some (some copy) → (action copy).Held ∧
        (action copy).shown = heap.shown.set index
          (some (change (heap.bases.unique copy.base) (heap.leaves copy)))) →
      (heap.onCopy index action).Held ∧ ∃ unique, (heap.onCopy index action).shown =
        heap.shown.modify index (Option.map (change unique)) := by
    intro index action change acts
    unfold onCopy
    cases found : heap.copies[index]?.join with
    | none =>
      refine ⟨held, true, (modify_absent ?_ _).symm⟩
      rw [shown_join, found]
      rfl
    | some copy =>
      obtain ⟨kept, shows⟩ := acts copy (Option.join_eq_some_iff.mp found)
      refine ⟨kept, heap.bases.unique copy.base, shows.trans (modify_present ?_ _).symm⟩
      rw [shown_join, found]
      rfl
  cases step with
  | new => exact ⟨(new_spec held).1, true, (new_spec held).2⟩
  | clone original =>
    show (heap.clone original).Held ∧ ∃ unique, (heap.clone original).shown =
      (layeredMap unique).step heap.shown (.clone original)
    unfold MapKind.step
    dsimp only
    rw [shown_join]
    cases found : heap.copies[original]?.join with
    | none =>
      unfold clone onCopy
      rw [found]
      exact ⟨held, true, rfl⟩
    | some copy =>
      obtain ⟨kept, shows⟩ := clone_spec held (Option.join_eq_some_iff.mp found)
      exact ⟨kept, true, shows⟩
  | drop target =>
    show (heap.drop target).Held ∧ ∃ unique : Bool, (heap.drop target).shown =
      heap.shown.set target none
    cases found : heap.copies[target]?.join with
    | none =>
      unfold drop onCopy
      rw [found]
      refine ⟨held, true, (set_absent ?_).symm⟩
      rw [shown_join, found]
      rfl
    | some copy =>
      obtain ⟨kept, shows⟩ := drop_spec held (Option.join_eq_some_iff.mp found)
      exact ⟨kept, true, shows⟩
  | insert target key value =>
    exact changed target _ (fun unique leaves => leaves.put unique key (some value))
      fun copy holds => put_spec held holds key (some value)
  | remove target key =>
    refine changed target _ (fun unique leaves =>
      if (leaves.get key).isSome then leaves.put unique key none else leaves) fun copy holds => ?_
    split
    · exact put_spec held holds key none
    · exact ⟨held, (shown_same holds).symm⟩
  | compact target =>
    exact changed target _ (fun unique leaves => leaves.fold foldFloor unique)
      fun copy holds => foldInto_spec held holds

theorem run_held (steps : List CopyStep) : (run steps).Held := by
  unfold run
  induction steps using List.reverseRecOn with
  | nil => exact held_none
  | append_singleton steps step hypothesis =>
    rw [List.foldl_append]
    exact (step_spec hypothesis step).1

/-- What is read of the tries after a run, as of plain sorted maps. -/
theorem run_views (steps : List CopyStep) :
    (run steps).shown.map (Option.map Overlay.get) =
      (plainMap.run steps).map (Option.map fun map key => map[key]?) := by
  induction steps using List.reverseRecOn with
  | nil => rfl
  | append_singleton steps step hypothesis =>
    obtain ⟨-, unique, shows⟩ := step_spec (run_held steps) step
    unfold run MapKind.run at hypothesis ⊢
    rw [List.foldl_append, List.foldl_append]
    show ((run steps).step step).shown.map _ = (plainMap.step (plainMap.run steps) step).map _
    rw [shows, (layeredMap_view unique).step, plainMap_view.step]
    exact congrArg (lookups.step · step) hypothesis

end Copies

/-- After any steps, every trie reads as the plain sorted map with its history, and one more step
changes what no other trie reads. A cell with another holder is copied before it is written, so both
runs are views of one run of values. -/
theorem copies_read_as_plain_maps (steps : List CopyStep) (index : Nat) :
    Option.Rel ReadsAs ((Copies.run steps).leavesAt index) (plainMap.run steps)[index]?.join ∧
      ∀ step leaves, step.target ≠ some index → (Copies.run steps).leavesAt index = some leaves →
        ((Copies.run steps).step step).leavesAt index = some leaves := by
  refine ⟨?_, fun step leaves apart found => ?_⟩
  · have views := congrArg (fun items => items[index]?.join) (Copies.run_views steps)
    simp only [List.getElem?_map, Option.join_map_eq_map_join] at views
    unfold Copies.leavesAt
    generalize (Copies.run steps).shown[index]?.join = shown at views ⊢
    generalize (plainMap.run steps)[index]?.join = plain at views ⊢
    cases shown with
    | none =>
      cases plain with
      | none => exact .none
      | some map => cases views
    | some leaves =>
      cases plain with
      | none => cases views
      | some map => exact .some (ReadsAs.of_get (congrFun (Option.some.inj views)))
  · obtain ⟨-, unique, shows⟩ := Copies.step_spec (Copies.run_held steps) step
    unfold Copies.leavesAt at found ⊢
    rw [shows]
    exact (layeredMap unique).step_other found apart

end QuantovaChain.State
