import Mathlib.Data.List.Pairwise
import QuantovaChain.State.Trie

/-!
# What a leaf map hashes to

The hash of a leaf map is the full sparse tree over its leaf digests. The plain recursion over the
sorted leaves, the chain of a single leaf with or without the memo, and the default of an empty
subtree all evaluate it. The node cache is described against it: exactly the subtrees with two or
more leaves are cached, each with the hash of that subtree.
-/

namespace QuantovaChain.State

open KeyBits SparseTree
open Std (ExtTreeMap LawfulEqCmp)

/-- A leaf map as a function. -/
abbrev LeafMap := Key → Option Bytes

section Pairwise

variable {α : Type} {p : α → Bool} {items : List α}

variable {level : Nat} {stem : Key} {leaves : LeafMap}

/-- On a list whose `p`-items come first, the first run of `p`-items is all of them. -/
theorem takeWhile_eq_filter (first : items.Pairwise fun a b => p b = true → p a = true) :
    items.takeWhile p = items.filter p := by
  induction items with
  | nil => rfl
  | cons item items hypothesis =>
    obtain ⟨head, tail⟩ := List.pairwise_cons.mp first
    cases holds : p item with
    | true => simp [holds, hypothesis tail]
    | false =>
      have none : items.filter p = [] := by
        rw [List.filter_eq_nil_iff]
        intro other listed later
        simp [head other listed later] at holds
      simp [holds, none]

theorem dropWhile_eq_filter (first : items.Pairwise fun a b => p b = true → p a = true) :
    items.dropWhile p = items.filter fun item => !p item := by
  induction items with
  | nil => rfl
  | cons item items hypothesis =>
    obtain ⟨head, tail⟩ := List.pairwise_cons.mp first
    cases holds : p item with
    | true => simp [holds, hypothesis tail]
    | false =>
      have all : items.filter (fun item => !p item) = items := by
        rw [List.filter_eq_self]
        intro other listed
        cases later : p other with
        | false => rfl
        | true => simp [head other listed later] at holds
      simp [holds, all]

end Pairwise

/-- Keys of one subtree in increasing order take the zero branch first. -/
theorem zero_branch_first {X : Type} (inside : level < depth) (key : X → Key) {items : List X}
    (sorted : items.Pairwise fun a b => key a < key b)
    (below : ∀ item ∈ items, Below level stem (key item)) :
    items.Pairwise fun a b => (!keyBit (key b) level) = true → (!keyBit (key a) level) = true := by
  refine (sorted.imp_of_mem ?_)
  intro a b aListed bListed order bZero
  by_contra aOne
  have one := keyBit_mono inside (below a aListed) (below b bListed) order (by simpa using aOne)
  simp [one] at bZero

/-- Two or more leaves lie below the stem. -/
def Crowded (leaves : LeafMap) (level : Nat) (stem : Key) : Prop :=
  ∃ a b, a ≠ b ∧ Below level stem a ∧ Below level stem b ∧
    (leaves a).isSome ∧ (leaves b).isSome

theorem Crowded.isStem (crowded : Crowded leaves level stem) : Below level stem stem := by
  obtain ⟨a, _, _, below, _⟩ := crowded
  exact below.stem_self

theorem Crowded.lt_depth (crowded : Crowded leaves level stem) : level < depth := by
  obtain ⟨a, b, distinct, belowA, belowB, _⟩ := crowded
  by_contra full
  rw [Below, prefixAt_of_full _ _ (Nat.not_lt.mp full)] at belowA belowB
  exact distinct (belowA.trans belowB.symm)

theorem Crowded.congr {other : LeafMap}
    (same : ∀ key, Below level stem key → leaves key = other key)
    (crowded : Crowded leaves level stem) : Crowded other level stem := by
  obtain ⟨a, b, distinct, belowA, belowB, presentA, presentB⟩ := crowded
  exact ⟨a, b, distinct, belowA, belowB, same a belowA ▸ presentA, same b belowB ▸ presentB⟩

/-- A crowded subtree makes every subtree above it crowded. -/
theorem Crowded.mono {deeper : Nat} {inner : Key} (order : level ≤ deeper)
    (innerBelow : Below level stem inner) (crowded : Crowded leaves deeper inner) :
    Crowded leaves level stem := by
  obtain ⟨a, b, distinct, belowA, belowB, presentA, presentB⟩ := crowded
  exact ⟨a, b, distinct, innerBelow.mono order belowA, innerBelow.mono order belowB, presentA,
    presentB⟩

/-- How many leaves a subtree has, as far as the trie distinguishes: none, one, or more. -/
inductive Occupancy (leaves : LeafMap) (level : Nat) (stem : Key) : List (Key × Bytes) → Prop
  | vacant (absent : ∀ key, Below level stem key → leaves key = none) :
    Occupancy leaves level stem []
  | single {key : Key} {value : Bytes} (below : Below level stem key)
    (present : leaves key = some value)
    (alone : ∀ other, Below level stem other → other ≠ key → leaves other = none) :
    Occupancy leaves level stem [(key, value)]
  | crowded {first second : Key × Bytes} {rest : List (Key × Bytes)}
    (crowded : Crowded leaves level stem) :
    Occupancy leaves level stem (first :: second :: rest)

/-- Two listed leaves are what a crowded subtree has. -/
theorem Occupancy.two_le_iff {entries : List (Key × Bytes)}
    (occupancy : Occupancy leaves level stem entries) :
    2 ≤ entries.length ↔ Crowded leaves level stem := by
  cases occupancy with
  | vacant absent =>
    refine ⟨fun long => by simp at long, fun ⟨a, _, _, below, _, present, _⟩ => ?_⟩
    simp [absent a below] at present
  | @single key value below present alone =>
    refine ⟨fun long => by simp at long, fun ⟨a, b, distinct, belowA, belowB, hasA, hasB⟩ => ?_⟩
    by_cases here : a = key
    · simp [alone b belowB (here ▸ distinct.symm)] at hasB
    · simp [alone a belowA here] at hasA
  | crowded crowded => simp [crowded]

theorem Leaves.mem_subtreeRange (leaves : Leaves) (isStem : Below level stem stem) (key : Key)
    (value : Bytes) :
    (key, value) ∈ leaves.subtreeRange level stem ↔
      leaves.get key = some value ∧ Below level stem key := by
  rw [Leaves.subtreeRange, Overlay.mem_range, ← interval_iff isStem]
  simp

/-- The range of a subtree shows its occupancy. -/
theorem Leaves.occupancy (leaves : Leaves) (isStem : Below level stem stem) :
    Occupancy leaves.get level stem (leaves.subtreeRange level stem) := by
  have listed := leaves.mem_subtreeRange isStem
  have sorted : Overlay.Sorted compare (leaves.subtreeRange level stem) :=
    leaves.sorted_range _
  match range : leaves.subtreeRange level stem with
  | [] =>
    refine .vacant fun key below => ?_
    by_contra present
    obtain ⟨value, stored⟩ := Option.ne_none_iff_exists'.mp present
    have := (listed key value).mpr ⟨stored, below⟩
    simp [range] at this
  | [(key, value)] =>
    have here := (listed key value).mp (by simp [range])
    refine .single here.2 here.1 fun other below distinct => ?_
    by_contra present
    obtain ⟨otherValue, stored⟩ := Option.ne_none_iff_exists'.mp present
    have := (listed other otherValue).mpr ⟨stored, below⟩
    simp [range, distinct] at this
  | first :: second :: rest =>
    have firstHere := (listed first.1 first.2).mp (by simp [range])
    have secondHere := (listed second.1 second.2).mp (by simp [range])
    refine .crowded ⟨first.1, second.1, ?_, firstHere.2, secondHere.2, ?_, ?_⟩
    · intro same
      rw [range, Overlay.Sorted, List.pairwise_cons] at sorted
      have order := sorted.1 second (by simp)
      simp [same] at order
    · simp [firstHere.1]
    · simp [secondHere.1]

section Hashing

variable (sha3 : Bytes → Hash)

/-- The leaf digests of a leaf map. -/
def digests (leaves : LeafMap) : Key → Option Hash :=
  fun key => (leaves key).map (leafHash sha3)

/-- The hash of the subtree of `stem` in a leaf map. -/
def mapHash (leaves : LeafMap) (level : Nat) (stem : Key) : Hash :=
  treeHash (scheme sha3) (digests sha3 leaves) level stem

theorem mapHash_congr {other : LeafMap} (inside : level ≤ depth) (isStem : Below level stem stem)
    (same : ∀ key, Below level stem key → leaves key = other key) :
    mapHash sha3 leaves level stem = mapHash sha3 other level stem :=
  treeHash_congr (scheme sha3) inside isStem fun key below => by
    rw [digests, digests, same key below]

theorem mapHash_branch (leaves : LeafMap) (inside : level < depth) (stem : Key) :
    mapHash sha3 leaves level stem =
      nodeHash sha3 (mapHash sha3 leaves (level + 1) stem)
        (mapHash sha3 leaves (level + 1) (withBit stem level)) :=
  treeHash_branch (scheme sha3) (digests sha3 leaves) inside stem

theorem mapHash_leaf (leaves : Leaves) (stem : Key) :
    mapHash sha3 leaves.get depth stem = leafAt sha3 leaves stem := by
  rw [mapHash, treeHash_leaf, digests, leafAt]
  cases leaves.get stem with
  | none => simp [scheme, defaults, emptyHash]
  | some value => rfl

theorem mapHash_vacant (inside : level ≤ depth) (isStem : Below level stem stem)
    (absent : ∀ key, Below level stem key → leaves key = none) :
    mapHash sha3 leaves level stem = defaults sha3 level :=
  treeHash_of_empty (scheme sha3) inside isStem fun key below => by
    rw [digests, absent key below, Option.map_none]

theorem mapHash_single {key : Key} {value : Bytes} (inside : level ≤ depth)
    (below : Below level stem key) (present : leaves key = some value)
    (alone : ∀ other, Below level stem other → other ≠ key → leaves other = none) :
    mapHash sha3 leaves level stem = chainHash sha3 key (leafHash sha3 value) level := by
  rw [mapHash, treeHash_of_single (scheme sha3) _ inside below, digests, present]
  · rfl
  · intro other otherBelow distinct
    rw [digests, alone other otherBelow distinct, Option.map_none]

/-- Every stored anchor is the chain of its leaf up to the anchor level. -/
def Anchors.Valid (memo : Anchors) : Prop :=
  ∀ key leaf anchor,
    memo.current[key]? = some (leaf, anchor) ∨ memo.previous[key]? = some (leaf, anchor) →
      anchor = chainHash sha3 key leaf anchorLevel

theorem Anchors.empty_valid : Anchors.empty.Valid sha3 := by
  intro key leaf anchor stored
  simp [Anchors.empty] at stored

variable {memo : Anchors} {id : NodeId}

theorem Anchors.known_valid (valid : memo.Valid sha3) {key : Key}
    {leaf anchor : Hash} (known : memo.known key leaf = some anchor) :
    anchor = chainHash sha3 key leaf anchorLevel := by
  simp only [Anchors.known, Option.map_eq_some_iff, Option.filter_eq_some_iff] at known
  obtain ⟨⟨storedLeaf, storedAnchor⟩, ⟨found, same⟩, rfl⟩ := known
  have same : storedLeaf = leaf := by simpa using same
  subst same
  apply valid key storedLeaf storedAnchor
  rw [Option.or_eq_some_iff] at found
  exact found.imp_right And.right

theorem Anchors.store_valid (valid : memo.Valid sha3) (key : Key) (leaf : Hash) :
    (memo.store key leaf (chainHash sha3 key leaf anchorLevel)).Valid sha3 := by
  intro other otherLeaf anchor stored
  have rotatedValid : (if memo.current.size ≥ anchorGeneration then
      (⟨∅, memo.current⟩ : Anchors) else memo).Valid sha3 := by
    split
    · intro key leaf anchor stored
      refine valid key leaf anchor (.inl ?_)
      simpa using stored
    · exact valid
  simp only [Anchors.store, ExtTreeMap.getElem?_insert, LawfulEqCmp.compare_eq_iff_eq] at stored
  by_cases here : key = other
  · subst here
    rw [if_pos rfl] at stored
    rcases stored with stored | stored
    · simp only [Option.some.injEq, Prod.mk.injEq] at stored
      rw [← stored.1, ← stored.2]
    · exact rotatedValid _ _ _ (.inr stored)
  · rw [if_neg here] at stored
    exact rotatedValid _ _ _ stored

/-- A chain may be taken in two stages. -/
theorem chainBetween_chainHash (key : Key) (leaf : Hash) {middle : Nat} (order : level ≤ middle)
    (inside : middle ≤ depth) :
    chainBetween sha3 key (chainHash sha3 key leaf middle) middle level =
      chainHash sha3 key leaf level := by
  have low : level + (middle - level) = middle := by omega
  have steps : depth - level = (middle - level) + (depth - middle) := by omega
  rw [chainHash, chainHash, chainBetween, chainBetween, chainBetween, steps, climb_add, low]

/-- The memo does not change the hash of a single leaf, and stays valid. -/
theorem singleLeafHash_spec (key : Key) (value : Bytes) (level : Nat) (valid : memo.Valid sha3) :
    (singleLeafHash sha3 key value level memo).1 = chainHash sha3 key (leafHash sha3 value) level ∧
      (singleLeafHash sha3 key value level memo).2.Valid sha3 := by
  unfold singleLeafHash
  dsimp only
  split
  · exact ⟨rfl, valid⟩
  next low =>
    have order : level ≤ anchorLevel := by omega
    have inside : anchorLevel ≤ depth := by decide
    split
    next anchor known =>
      rw [Anchors.known_valid sha3 valid known]
      exact ⟨chainBetween_chainHash sha3 key _ order inside, valid⟩
    next =>
      exact ⟨chainBetween_chainHash sha3 key _ order inside, Anchors.store_valid sha3 valid key _⟩

/-- The plain recursion over sorted leaf hashes below a stem evaluates the tree. -/
theorem subtree_eq_mapHash (leaves : LeafMap) (inside : level ≤ depth)
    (isStem : Below level stem stem) (entries : List (Key × Hash))
    (sorted : entries.Pairwise fun a b => a.1 < b.1)
    (listed : ∀ key hash, (key, hash) ∈ entries ↔ Below level stem key ∧ digests sha3 leaves key
      = some hash) : subtree sha3 entries level = mapHash sha3 leaves level stem := by
  revert entries
  refine subtree_induction
    (motive := fun level stem => ∀ entries : List (Key × Hash),
      (entries.Pairwise fun a b => a.1 < b.1) →
      (∀ key hash, (key, hash) ∈ entries ↔
        Below level stem key ∧ digests sha3 leaves key = some hash) →
      subtree sha3 entries level = mapHash sha3 leaves level stem) ?_ ?_ inside isStem
  · intro stem entries _ listed
    have self : Below depth stem stem := (below_full_iff stem stem).mpr rfl
    rw [mapHash, treeHash_leaf, subtree.eq_def]
    match entries with
    | [] =>
      have vacant : digests sha3 leaves stem = none := by
        by_contra present
        obtain ⟨hash, stored⟩ := Option.ne_none_iff_exists'.mp present
        simpa using (listed stem hash).mpr ⟨self, stored⟩
      simp [vacant, defaults, emptyHash]
    | (key, hash) :: rest =>
      obtain ⟨below, stored⟩ := (listed key hash).mp (by simp)
      obtain rfl := (below_full_iff stem key).mp below
      simp [stored]
  · intro level stem inside isStem left right entries sorted listed
    have first := zero_branch_first inside Prod.fst sorted
      fun entry here => ((listed entry.1 entry.2).mp here).1
    rw [subtree.eq_def]
    split
    next none =>
      refine (mapHash_vacant sha3 (le_of_lt inside) isStem fun key below => ?_).symm
      by_contra present
      obtain ⟨value, stored⟩ := Option.ne_none_iff_exists'.mp present
      have here := (listed key (leafHash sha3 value)).mpr ⟨below, by simp [digests, stored]⟩
      simp_all
    next =>
      rw [mapHash_branch sha3 leaves inside, takeWhile_eq_filter first,
        dropWhile_eq_filter first, left _ (sorted.filter _), right _ (sorted.filter _)]
      · intro key hash
        rw [below_right_iff isStem inside, List.mem_filter, listed]
        simp only [Bool.not_not]
        tauto
      · intro key hash
        rw [below_left_iff isStem inside, List.mem_filter, listed]
        simp only [Bool.not_eq_true']
        tauto

/-- The cached hash a node should have: subtrees with two or more leaves are cached. -/
noncomputable def nodeOf (leaves : LeafMap) (id : NodeId) : Option Hash :=
  open Classical in
  if Crowded leaves id.1 id.2 then some (mapHash sha3 leaves id.1 id.2) else none

theorem nodeOf_crowded (crowded : Crowded leaves id.1 id.2) :
    nodeOf sha3 leaves id = some (mapHash sha3 leaves id.1 id.2) :=
  if_pos crowded

theorem nodeOf_sparse (sparse : ¬ Crowded leaves id.1 id.2) : nodeOf sha3 leaves id = none :=
  if_neg sparse

/-- Only the leaves below a node decide whether and what it caches. -/
theorem nodeOf_congr {other : LeafMap}
    (same : ∀ key, Below id.1 id.2 key → leaves key = other key) :
    nodeOf sha3 leaves id = nodeOf sha3 other id := by
  by_cases crowded : Crowded leaves id.1 id.2
  · rw [nodeOf_crowded sha3 crowded, nodeOf_crowded sha3 (crowded.congr same),
      mapHash_congr sha3 (le_of_lt crowded.lt_depth) crowded.isStem same]
  · rw [nodeOf_sparse sha3 crowded, nodeOf_sparse sha3]
    exact fun otherCrowded => crowded (otherCrowded.congr fun key below => (same key below).symm)

end Hashing

end QuantovaChain.State
