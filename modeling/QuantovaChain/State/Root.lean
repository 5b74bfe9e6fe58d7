import QuantovaChain.State.Meaning

/-!
# The incremental root

The cache of a trie describes the leaf map as it was at the last root; the changed keys cover every
difference from the current one. Recomputing a subtree along its changed keys returns the hash of
the current leaves below it and updates exactly the cached nodes below it to describe them. From
this the root of every trie, after every history of operations on any of its copies, is the plain
recursion over its leaves, and the lookup of a cached node never fails.
-/

namespace QuantovaChain.State

open KeyBits SparseTree
open Std (ExtTreeSet)

/-- The node table after a list of updates. -/
def overwrite (updates : List NodeUpdate) (nodes : NodeId → Option Hash) : NodeId → Option Hash :=
  updates.foldl (fun nodes update => Function.update nodes update.1 update.2) nodes

theorem overwrite_nil (nodes : NodeId → Option Hash) : overwrite [] nodes = nodes :=
  rfl

theorem overwrite_cons (update : NodeUpdate) (updates : List NodeUpdate)
    (nodes : NodeId → Option Hash) :
    overwrite (update :: updates) nodes =
      overwrite updates (Function.update nodes update.1 update.2) :=
  rfl

theorem overwrite_append (first second : List NodeUpdate) (nodes : NodeId → Option Hash) :
    overwrite (first ++ second) nodes = overwrite second (overwrite first nodes) :=
  List.foldl_append

/-- Updates that do not name a node leave it alone. -/
theorem overwrite_of_absent {updates : List NodeUpdate} {id : NodeId}
    (absent : ∀ update ∈ updates, update.1 ≠ id) (nodes : NodeId → Option Hash) :
    overwrite updates nodes id = nodes id := by
  induction updates generalizing nodes with
  | nil => rfl
  | cons update updates hypothesis =>
    have here : id ≠ update.1 := (absent update (by simp)).symm
    rw [overwrite_cons,
      hypothesis fun later listed => absent later (by simp [listed])]
    exact Function.update_of_ne here _ _

/-- Updates that give a node one value leave it with that value. -/
theorem overwrite_of_mem {updates : List NodeUpdate} {id : NodeId} {entry : Option Hash}
    (named : (id, entry) ∈ updates) (only : ∀ update ∈ updates, update.1 = id → update.2 = entry)
    (nodes : NodeId → Option Hash) : overwrite updates nodes id = entry := by
  induction updates generalizing nodes with
  | nil => cases named
  | cons update updates hypothesis =>
    rw [overwrite_cons]
    have onlyLater : ∀ later ∈ updates, later.1 = id → later.2 = entry :=
      fun later listed => only later (by simp [listed])
    by_cases again : (id, entry) ∈ updates
    · exact hypothesis again onlyLater _
    · have here : (id, entry) = update := by simpa [again] using named
      rw [overwrite_of_absent]
      · rw [← here, Function.update_self]
      · intro later listed same
        have value := onlyLater later listed same
        exact again (by rwa [← same, ← value])

/-- The overlay's own update loop, read as a table. -/
theorem get_applyUpdates (nodes : Nodes) (unique : Bool) (updates : List NodeUpdate) :
    (Trie.applyUpdates nodes unique updates).get = overwrite updates nodes.get := by
  induction updates generalizing nodes with
  | nil => rfl
  | cons update updates hypothesis =>
    have stepped : Trie.applyUpdates nodes unique (update :: updates) =
        Trie.applyUpdates (nodes.put unique update.1 update.2) unique updates := rfl
    rw [stepped, hypothesis, overwrite_cons]
    congr 1
    funext id
    rw [Overlay.get_put, Function.update_apply]
    simp only [eq_comm]

/-- The dropped nodes are the cached ones on the path of the key. -/
theorem mem_dropPath (nodes : Nodes) (key : Key) (level : Nat) (update : NodeUpdate) :
    update ∈ dropPath nodes key level ↔
      update.2 = none ∧ level ≤ update.1.1 ∧ update.1.1 < depth ∧
        update.1.2 = prefixAt key update.1.1 ∧ (nodes.get update.1).isSome := by
  obtain ⟨⟨below, stem⟩, entry⟩ := update
  simp only [dropPath, List.mem_filterMap, List.mem_range'_1]
  constructor
  · rintro ⟨_, _, chosen⟩
    split at chosen
    next present =>
      cases chosen
      exact ⟨rfl, by omega, by omega, rfl, present⟩
    next => cases chosen
  · rintro ⟨rfl, low, high, rfl, present⟩
    exact ⟨below, ⟨low, by omega⟩, by simp [present]⟩

/-- A node at or below the stem at `level`. -/
def NodeBelow (level : Nat) (stem : Key) (id : NodeId) : Prop :=
  level ≤ id.1 ∧ Below level stem id.2

section Hashing

variable (sha3 : Bytes → Hash)

/-- The updates turn the cached nodes of a subtree from those of `old` into those of `new`, and
touch nothing else. -/
structure Refreshes (old new : LeafMap) (level : Nat) (stem : Key) (updates : List NodeUpdate) :
    Prop where
  inside : ∀ nodes id, NodeBelow level stem id → nodes id = nodeOf sha3 old id →
    overwrite updates nodes id = nodeOf sha3 new id
  outside : ∀ nodes id, ¬ NodeBelow level stem id → overwrite updates nodes id = nodes id

variable {new : LeafMap} {level : Nat} {stem : Key}

/-- Nothing needs refreshing where nothing changed. -/
theorem Refreshes.unchanged {old : LeafMap}
    (same : ∀ key, Below level stem key → old key = new key) :
    Refreshes sha3 old new level stem [] where
  inside nodes id inside cached := by
    rw [overwrite_nil, cached]
    exact nodeOf_congr sha3 fun key below => same key (inside.2.mono inside.1 below)
  outside _ _ _ := rfl

/-- Refreshing both halves and the node itself refreshes the subtree. -/
theorem Refreshes.branch {old : LeafMap} (inside : level < depth)
    (isStem : Below level stem stem) {leftUpdates rightUpdates own : List NodeUpdate}
    (left : Refreshes sha3 old new (level + 1) stem leftUpdates)
    (right : Refreshes sha3 old new (level + 1) (withBit stem level) rightUpdates)
    (ownOnly : ∀ update ∈ own, update.1 = (level, stem))
    (ownValue : ∀ nodes : NodeId → Option Hash, nodes (level, stem) = nodeOf sha3 old (level, stem) →
      overwrite own nodes (level, stem) = nodeOf sha3 new (level, stem)) :
    Refreshes sha3 old new level stem (leftUpdates ++ rightUpdates ++ own) where
  inside nodes id within cached := by
    rw [overwrite_append, overwrite_append]
    obtain ⟨order, below⟩ := within
    rcases Nat.eq_or_lt_of_le order with here | deeper
    · have notLeft : ¬ NodeBelow (level + 1) stem id := fun inner => by
        have := inner.1
        omega
      have notRight : ¬ NodeBelow (level + 1) (withBit stem level) id := fun inner => by
        have := inner.1
        omega
      by_cases self : id = (level, stem)
      · subst self
        apply ownValue
        rw [right.outside _ _ notRight, left.outside _ _ notLeft, cached]
      · have sparse : ∀ leaves, ¬ Crowded leaves id.1 id.2 := fun leaves crowded => by
          have same : prefixAt id.2 level = id.2 := here ▸ crowded.isStem
          exact self (Prod.ext here.symm (same.symm.trans below))
        rw [overwrite_of_absent fun update listed => (ownOnly update listed).symm ▸ Ne.symm self,
          right.outside _ _ notRight, left.outside _ _ notLeft, cached,
          nodeOf_sparse sha3 (sparse old), nodeOf_sparse sha3 (sparse new)]
    · have notOwn : ∀ update ∈ own, update.1 ≠ id := fun update listed same => by
        have := congrArg Prod.fst ((ownOnly update listed).symm.trans same)
        simp only at this
        omega
      rw [overwrite_of_absent notOwn]
      cases bit : keyBit id.2 level with
      | false =>
        have inLeft : NodeBelow (level + 1) stem id :=
          ⟨deeper, (below_left_iff isStem inside id.2).mpr ⟨below, bit⟩⟩
        have notRight : ¬ NodeBelow (level + 1) (withBit stem level) id := fun inner => by
          simp [((below_right_iff isStem inside id.2).mp inner.2).2] at bit
        rw [right.outside _ _ notRight, left.inside _ _ inLeft cached]
      | true =>
        have inRight : NodeBelow (level + 1) (withBit stem level) id :=
          ⟨deeper, (below_right_iff isStem inside id.2).mpr ⟨below, bit⟩⟩
        have notLeft : ¬ NodeBelow (level + 1) stem id := fun inner => by
          simp [((below_left_iff isStem inside id.2).mp inner.2).2] at bit
        apply right.inside _ _ inRight
        rw [left.outside _ _ notLeft, cached]
  outside nodes id without := by
    have notLeft : ¬ NodeBelow (level + 1) stem id := fun inner =>
      without ⟨by have := inner.1; omega, ((below_left_iff isStem inside id.2).mp inner.2).1⟩
    have notRight : ¬ NodeBelow (level + 1) (withBit stem level) id := fun inner =>
      without ⟨by have := inner.1; omega, ((below_right_iff isStem inside id.2).mp inner.2).1⟩
    have notOwn : ∀ update ∈ own, update.1 ≠ id := fun update listed same =>
      without (by rw [← same, ownOnly update listed]; exact ⟨le_rfl, isStem⟩)
    rw [overwrite_append, overwrite_append, overwrite_of_absent notOwn,
      right.outside _ _ notRight, left.outside _ _ notLeft]

/-- Dropping the path of the only changed key refreshes a subtree left with at most one leaf. -/
theorem Refreshes.collapse {old : LeafMap} {nodes : Nodes} {key : Key}
    (cached : ∀ id, nodes.get id = nodeOf sha3 old id) (below : Below level stem key)
    (same : ∀ other, Below level stem other → other ≠ key → old other = new other)
    (sparse : ¬ Crowded new level stem) :
    Refreshes sha3 old new level stem (dropPath nodes key level) where
  inside table id within current := by
    have newSparse : ¬ Crowded new id.1 id.2 := fun crowded =>
      sparse (crowded.mono within.1 within.2)
    rw [nodeOf_sparse sha3 newSparse]
    by_cases named : (id, none) ∈ dropPath nodes key level
    · exact overwrite_of_mem named
        (fun update listed _ => ((mem_dropPath nodes key level update).mp listed).1) table
    · rw [overwrite_of_absent, current]
      · by_contra present
        have crowded : Crowded old id.1 id.2 := by
          by_contra oldSparse
          exact present (nodeOf_sparse sha3 oldSparse)
        apply named
        rw [mem_dropPath]
        refine ⟨rfl, within.1, crowded.lt_depth, ?_, ?_⟩
        · by_contra offPath
          refine newSparse (crowded.congr fun other otherBelow => ?_)
          refine same other (within.2.mono within.1 otherBelow) ?_
          rintro rfl
          exact offPath otherBelow.symm
        · rw [cached, nodeOf_crowded sha3 crowded]
          rfl
      · intro update listed here
        have gone := ((mem_dropPath nodes key level update).mp listed).1
        exact named (by rwa [← here, ← gone])
  outside table id without := by
    refine overwrite_of_absent (fun update listed here => without ?_) table
    obtain ⟨_, order, _, onPath, _⟩ := (mem_dropPath nodes key level update).mp listed
    rw [← here]
    refine ⟨order, ?_⟩
    rw [onPath, Below, prefixAt_prefixAt, min_eq_right order]
    exact below

/-- A subtree's own update gives its node the value it should have. -/
theorem nodeUpdate_spec {old : LeafMap} {nodes : Nodes} {id : NodeId} {branch : Bool}
    (cached : nodes.get id = nodeOf sha3 old id) (crowded : branch = true ↔ Crowded new id.1 id.2)
    (table : NodeId → Option Hash) (current : table id = nodeOf sha3 old id) :
    overwrite (nodeUpdate nodes id (mapHash sha3 new id.1 id.2) branch) table id =
      nodeOf sha3 new id := by
  unfold nodeUpdate
  split
  next holds =>
    rw [nodeOf_crowded sha3 (crowded.mp holds), overwrite_cons, overwrite_nil,
      Function.update_self]
  next fails =>
    rw [nodeOf_sparse sha3 (fun holds => fails (crowded.mpr holds))]
    split
    · rw [overwrite_cons, overwrite_nil, Function.update_self]
    next absent =>
      rw [overwrite_nil, current, ← cached]
      simpa using absent

theorem mem_nodeUpdate {nodes : Nodes} {id : NodeId} {hash : Hash} {branch : Bool}
    {update : NodeUpdate} (listed : update ∈ nodeUpdate nodes id hash branch) : update.1 = id := by
  unfold nodeUpdate at listed
  split at listed
  · simp_all
  · split at listed <;> simp_all

/-- What the recomputation of a subtree has to deliver: the hash of the current leaves below it, a
valid memo, and updates that bring the cached nodes below it up to date. -/
def Delivers (old new : LeafMap) (level : Nat) (stem : Key)
    (result : Option (Hash × List NodeUpdate × Anchors)) : Prop :=
  ∃ updates memo, result = some (mapHash sha3 new level stem, updates, memo) ∧
    memo.Valid sha3 ∧ Refreshes sha3 old new level stem updates

/-- The keys to recompute a subtree for: sorted, below the stem, and covering every difference. -/
structure Covers (old new : LeafMap) (level : Nat) (stem : Key) (changed : List Key) : Prop where
  sorted : changed.Pairwise (· < ·)
  below : ∀ key ∈ changed, Below level stem key
  clean : ∀ key, Below level stem key → key ∉ changed → old key = new key

/-- The changed keys of a subtree split into those of its halves. -/
theorem Covers.split {old : LeafMap} {changed : List Key}
    (inside : level < depth) (isStem : Below level stem stem)
    (covers : Covers old new level stem changed) :
    Covers old new (level + 1) stem (changed.takeWhile fun key => !keyBit key level) ∧
      Covers old new (level + 1) (withBit stem level)
        (changed.dropWhile fun key => !keyBit key level) := by
  have first := zero_branch_first inside (fun key => key) covers.sorted covers.below
  rw [takeWhile_eq_filter first, dropWhile_eq_filter first]
  refine ⟨⟨covers.sorted.filter _, ?_, ?_⟩, ⟨covers.sorted.filter _, ?_, ?_⟩⟩
  · intro key listed
    rw [below_left_iff isStem inside]
    simp only [List.mem_filter, Bool.not_eq_true'] at listed
    exact ⟨covers.below key listed.1, listed.2⟩
  · intro key below unlisted
    obtain ⟨below, bit⟩ := (below_left_iff isStem inside key).mp below
    exact covers.clean key below fun listed => unlisted (by simp [listed, bit])
  · intro key listed
    rw [below_right_iff isStem inside]
    simp only [List.mem_filter, Bool.not_not] at listed
    exact ⟨covers.below key listed.1, listed.2⟩
  · intro key below unlisted
    obtain ⟨below, bit⟩ := (below_right_iff isStem inside key).mp below
    exact covers.clean key below fun listed => unlisted (by simp [listed, bit])

/-- A subtree with one changed key and no second leaf is refreshed by dropping the key's path. -/
theorem Covers.collapse {old : LeafMap} {nodes : Nodes} {key : Key}
    (covers : Covers old new level stem [key]) (cached : ∀ id, nodes.get id = nodeOf sha3 old id)
    (sparse : ¬ Crowded new level stem) :
    Refreshes sha3 old new level stem (dropPath nodes key level) :=
  Refreshes.collapse sha3 cached (covers.below key (by simp))
    (fun other below distinct => covers.clean other below (by simpa using distinct)) sparse

section Recompute

variable {leaves : Leaves} {nodes : Nodes} {old : LeafMap}
  (cached : ∀ id, nodes.get id = nodeOf sha3 old id)

include cached

variable {level : Nat} {stem : Key} {memo : Anchors}

/-- In an unchanged subtree the cache has what is needed. -/
theorem cleanHash_spec (inside : level ≤ depth)
    (isStem : Below level stem stem) (valid : memo.Valid sha3)
    (same : ∀ key, Below level stem key → old key = leaves.get key) :
    ∃ memo', cleanHash sha3 leaves nodes level stem memo =
      some (mapHash sha3 leaves.get level stem, memo') ∧ memo'.Valid sha3 := by
  have occupancy := leaves.occupancy isStem
  unfold cleanHash
  generalize leaves.subtreeRange level stem = entries at occupancy
  cases occupancy with
  | vacant absent => exact ⟨memo, by rw [mapHash_vacant sha3 inside isStem absent], valid⟩
  | @single key value below present alone =>
    obtain ⟨hash, memoValid⟩ := singleLeafHash_spec sha3 key value level valid
    refine ⟨_, ?_, memoValid⟩
    rw [mapHash_single sha3 inside below present alone, ← hash]
  | crowded crowded =>
    have oldCrowded : Crowded old level stem :=
      crowded.congr fun key below => (same key below).symm
    refine ⟨memo, ?_, valid⟩
    simp only
    rw [cached, nodeOf_crowded sha3 oldCrowded]
    simp only [Option.map_some]
    rw [mapHash_congr sha3 inside isStem same]

/-- One half of a subtree: clean where no key changed, recomputed otherwise. -/
theorem side_spec (inside : level ≤ depth) (isStem : Below level stem stem)
    (recomputed : ∀ changed memo, memo.Valid sha3 → Covers old leaves.get level stem changed →
      Delivers sha3 old leaves.get level stem
        (recompute sha3 leaves nodes level stem changed memo))
    {changed : List Key} (valid : memo.Valid sha3)
    (covers : Covers old leaves.get level stem changed) :
    Delivers sha3 old leaves.get level stem
      (side sha3 leaves nodes level stem changed memo) := by
  rw [side]
  split
  next empty =>
    have same : ∀ key, Below level stem key → old key = leaves.get key := fun key below =>
      covers.clean key below (by simp_all)
    obtain ⟨memo', computed, memoValid⟩ :=
      cleanHash_spec sha3 cached inside isStem valid same
    exact ⟨[], memo', by rw [computed]; rfl, memoValid, Refreshes.unchanged sha3 same⟩
  next => exact recomputed changed memo valid covers

/-- Recomputing a subtree delivers. Proof: subtree induction. A subtree with one changed key and at
most one leaf collapses; any other is put together from its halves. -/
theorem recompute_spec (inside : level ≤ depth)
    (isStem : Below level stem stem) {changed : List Key}
    (valid : memo.Valid sha3) (covers : Covers old leaves.get level stem changed) :
    Delivers sha3 old leaves.get level stem
      (recompute sha3 leaves nodes level stem changed memo) := by
  revert changed memo
  refine subtree_induction
    (motive := fun level stem => ∀ {changed : List Key} {memo : Anchors}, memo.Valid sha3 →
      Covers old leaves.get level stem changed → Delivers sha3 old leaves.get level stem
        (recompute sha3 leaves nodes level stem changed memo)) ?_ ?_ inside isStem
  · intro stem changed memo valid _
    rw [recompute.eq_def, if_neg (lt_irrefl depth), Delivers]
    refine ⟨[], memo, by rw [mapHash_leaf], valid, ⟨fun table id within current => ?_, ?_⟩⟩
    · have sparse : ∀ leaves, ¬ Crowded leaves id.1 id.2 := fun leaves crowded =>
        absurd crowded.lt_depth (Nat.not_lt.mpr within.1)
      rw [overwrite_nil, current, nodeOf_sparse sha3 (sparse _), nodeOf_sparse sha3 (sparse _)]
    · exact fun _ _ _ => rfl
  · intro level stem inside isStem left right changed memo valid covers
    have occupancy := leaves.occupancy isStem
    rw [recompute.eq_def, if_pos inside]
    split
    next key empty =>
      rw [empty] at occupancy
      have sparse : ¬ Crowded leaves.get level stem := by
        simp [← occupancy.two_le_iff]
      cases occupancy with
      | vacant absent =>
        refine ⟨_, memo, ?_, valid, covers.collapse sha3 cached sparse⟩
        rw [mapHash_vacant sha3 (le_of_lt inside) isStem absent]
    next key leafKey value lone =>
      rw [lone] at occupancy
      have sparse : ¬ Crowded leaves.get level stem := by
        simp [← occupancy.two_le_iff]
      cases occupancy with
      | single below present alone =>
        obtain ⟨hash, memoValid⟩ := singleLeafHash_spec sha3 leafKey value level valid
        refine ⟨_, _, ?_, memoValid, covers.collapse sha3 cached sparse⟩
        rw [mapHash_single sha3 (le_of_lt inside) below present alone, ← hash]
    next =>
      obtain ⟨leftCovers, rightCovers⟩ := covers.split inside isStem
      have next : level + 1 ≤ depth := inside
      obtain ⟨leftUpdates, leftMemo, leftRun, leftValid, leftRefreshes⟩ :=
        side_spec sha3 cached next (left_isStem isStem inside) (fun _ _ => left) valid leftCovers
      obtain ⟨rightUpdates, rightMemo, rightRun, rightValid, rightRefreshes⟩ :=
        side_spec sha3 cached next (right_isStem isStem inside) (fun _ _ => right) leftValid
          rightCovers
      have two : decide (2 ≤ (leaves.subtreeRange level stem).length) = true ↔
          Crowded leaves.get level stem := by
        rw [decide_eq_true_iff, occupancy.two_le_iff]
      refine ⟨_, rightMemo, ?_, rightValid,
        Refreshes.branch sha3 inside isStem leftRefreshes rightRefreshes
          (fun update => mem_nodeUpdate) (nodeUpdate_spec sha3 (cached (level, stem)) two)⟩
      simp only [leftRun, rightRun, Option.bind_eq_bind, Option.bind_some, Option.pure_def]
      rw [mapHash_branch sha3 leaves.get inside]

end Recompute

/-- With a cache that describes the current leaves, reading a subtree gives its hash. -/
theorem cachedSubtree_spec {leaves : Leaves} {nodes : Nodes}
    (cached : ∀ id, nodes.get id = nodeOf sha3 leaves.get id)
    (inside : level ≤ depth) (isStem : Below level stem stem) {memo : Anchors}
    (valid : memo.Valid sha3) :
    (cachedSubtree sha3 leaves nodes level stem memo).1 = mapHash sha3 leaves.get level stem ∧
      (cachedSubtree sha3 leaves nodes level stem memo).2.Valid sha3 := by
  revert memo
  refine subtree_induction
    (motive := fun level stem => ∀ {memo : Anchors}, memo.Valid sha3 →
      (cachedSubtree sha3 leaves nodes level stem memo).1 = mapHash sha3 leaves.get level stem ∧
        (cachedSubtree sha3 leaves nodes level stem memo).2.Valid sha3) ?_ ?_ inside isStem
  · intro stem memo valid
    rw [cachedSubtree.eq_def, if_neg (lt_irrefl depth)]
    exact ⟨(mapHash_leaf sha3 leaves stem).symm, valid⟩
  · intro level stem inside isStem left right memo valid
    have occupancy := leaves.occupancy isStem
    rw [cachedSubtree.eq_def, if_pos inside]
    generalize leaves.subtreeRange level stem = entries at occupancy
    cases stored : nodes.get (level, stem) with
    | some hash =>
      refine ⟨?_, valid⟩
      have crowded : Crowded leaves.get level stem := by
        by_contra sparse
        rw [cached, nodeOf_sparse sha3 sparse] at stored
        cases stored
      rw [cached, nodeOf_crowded sha3 crowded] at stored
      exact (Option.some.inj stored).symm
    | none =>
      cases occupancy with
      | vacant absent =>
        exact ⟨(mapHash_vacant sha3 (le_of_lt inside) isStem absent).symm, valid⟩
      | @single key value below present alone =>
        obtain ⟨hash, memoValid⟩ := singleLeafHash_spec sha3 key value level valid
        refine ⟨?_, memoValid⟩
        rw [mapHash_single sha3 (le_of_lt inside) below present alone, ← hash]
      | crowded crowded =>
        rw [cached, nodeOf_crowded sha3 crowded] at stored
        cases stored

namespace Trie

/-- The cache describes the leaf map at the last root, and every later difference is marked. -/
def Coherent (trie : Trie) : Prop :=
  ∃ old : LeafMap, (∀ id, trie.cache.nodes.get id = nodeOf sha3 old id) ∧
    trie.cache.root = mapHash sha3 old 0 0 ∧
    ∀ key, key ∉ trie.cache.changed → old key = trie.get key

theorem new_coherent : (Trie.new sha3).Coherent sha3 := by
  refine ⟨fun _ => none, fun id => ?_, ?_, fun key _ => (Overlay.get_empty key).symm⟩
  · rw [nodeOf_sparse sha3]
    · exact Overlay.get_empty id
    · rintro ⟨a, _, _, _, _, present, _⟩
      cases present
  · exact (mapHash_vacant sha3 (Nat.zero_le depth) (below_root 0) fun _ _ => rfl).symm

variable {trie : Trie} {memo : Anchors}

/-- Marking the key that was written keeps the cache coherent. -/
theorem Coherent.write (coherent : trie.Coherent sha3) {key : Key} {leaves : Leaves}
    (same : ∀ other, other ≠ key → leaves.get other = trie.get other) :
    ({ trie with leaves }.markChanged key).Coherent sha3 := by
  obtain ⟨old, cached, rooted, clean⟩ := coherent
  refine ⟨old, cached, rooted, fun other unmarked => ?_⟩
  have apart : ¬ compare key other = .eq ∧ other ∉ trie.cache.changed := by
    simpa [markChanged, ExtTreeSet.mem_insert] using unmarked
  have distinct : other ≠ key := fun equal => apart.1 (by simp [equal])
  exact (clean other apart.2).trans (same other distinct).symm

theorem insert_coherent (coherent : trie.Coherent sha3) (unique : Bool) (key : Key)
    (value : Bytes) : (trie.insert unique key value).Coherent sha3 :=
  coherent.write sha3 fun other distinct => by
    rw [Overlay.get_put, if_neg distinct.symm, Trie.get]

theorem remove_coherent (coherent : trie.Coherent sha3) (unique : Bool) (key : Key) :
    (trie.remove unique key).2.Coherent sha3 := by
  unfold remove
  split
  · exact coherent.write sha3 fun other distinct => by
      rw [Overlay.get_put, if_neg distinct.symm, Trie.get]
  · exact coherent

theorem compact_coherent (coherent : trie.Coherent sha3)
    (uniqueLeaves uniqueNodes : Bool) : (trie.compact uniqueLeaves uniqueNodes).Coherent sha3 := by
  obtain ⟨old, cached, rooted, clean⟩ := coherent
  refine ⟨old, fun id => ?_, rooted, fun key unmarked => ?_⟩
  · rw [← cached]
    exact Overlay.get_fold _ _ _ _
  · rw [clean key unmarked]
    exact (Overlay.get_fold _ _ _ _).symm

/-- The cache describes the current leaves. -/
structure Clean (trie : Trie) : Prop where
  cached : ∀ id, trie.cache.nodes.get id = nodeOf sha3 trie.get id
  rooted : trie.cache.root = mapHash sha3 trie.get 0 0

theorem Clean.coherent (clean : trie.Clean sha3) : trie.Coherent sha3 :=
  ⟨trie.get, clean.cached, clean.rooted, fun _ _ => rfl⟩

/-- The incremental root is the hash of the current leaves; it never fails, and it leaves a clean
trie with the same leaves. -/
theorem root_spec (coherent : trie.Coherent sha3) (unique : Bool) (valid : memo.Valid sha3) :
    ∃ trie' memo', trie.root sha3 unique memo = some (mapHash sha3 trie.get 0 0, trie', memo') ∧
      memo'.Valid sha3 ∧ trie'.Clean sha3 ∧ trie'.leaves = trie.leaves := by
  obtain ⟨old, cached, rooted, clean⟩ := coherent
  unfold root
  split
  next unchanged =>
    have same : old = trie.get := funext fun key => clean key (by
      rw [ExtTreeSet.isEmpty_iff] at unchanged
      simp [unchanged])
    subst same
    exact ⟨trie, memo, by rw [rooted], valid, ⟨cached, rooted⟩, rfl⟩
  next =>
    have covers : Covers old trie.leaves.get 0 0 trie.cache.changed.toList := by
      refine ⟨?_, fun key _ => below_root key, fun key _ unlisted => clean key ?_⟩
      · exact ExtTreeSet.ordered_toList.imp compare_lt
      · simpa using unlisted
    obtain ⟨updates, memo', computed, memoValid, refreshes⟩ :=
      recompute_spec sha3 cached (Nat.zero_le depth) (below_root 0) valid covers
    refine ⟨{ trie with cache :=
      ⟨applyUpdates trie.cache.nodes unique updates, mapHash sha3 trie.get 0 0, ∅⟩ }, memo', ?_,
      memoValid, ⟨fun id => ?_, rfl⟩, rfl⟩
    · simp only [computed, Option.bind_eq_bind, Option.bind_some, Option.pure_def]
      rfl
    · simp only [get_applyUpdates]
      exact refreshes.inside _ id ⟨Nat.zero_le _, below_root id.2⟩ (cached id)

/-- The siblings read from a clean trie are the hashes of the halves the key's path leaves aside. -/
theorem siblings_spec (clean : trie.Clean sha3) (key : Key) (levels : List Nat)
    (inside : ∀ level ∈ levels, level < depth) (valid : memo.Valid sha3) :
    (trie.siblings sha3 key levels memo).1 =
        levels.map (fun level => mapHash sha3 trie.get (level + 1) (asideAt key level)) ∧
      (trie.siblings sha3 key levels memo).2.Valid sha3 := by
  induction levels generalizing memo with
  | nil => exact ⟨rfl, valid⟩
  | cons level levels hypothesis =>
    have here : level < depth := inside level (by simp)
    have aside : flipBit (prefixAt key (level + 1)) level = asideAt key level :=
      flipBit_prefixAt_succ key here
    obtain ⟨hash, memoValid⟩ := cachedSubtree_spec sha3 clean.cached (Nat.succ_le_of_lt here)
      (asideAt_isStem key here) valid
    obtain ⟨rest, restValid⟩ := hypothesis
      (fun later listed => inside later (by simp [listed])) memoValid
    simp only [siblings, aside, List.map_cons]
    exact ⟨congrArg₂ List.cons hash rest, restValid⟩

/-- A proof carries the value of the key and the hashes its path leaves aside. -/
theorem prove_spec (coherent : trie.Coherent sha3) (unique : Bool) (key : Key)
    (valid : memo.Valid sha3) :
    ∃ trie' memo', trie.prove sha3 unique key memo =
        some ({ value := trie.get key,
                siblings := (List.range depth).map fun level =>
                  mapHash sha3 trie.get (level + 1) (asideAt key level) }, trie', memo') ∧
      memo'.Valid sha3 ∧ trie'.Coherent sha3 ∧ trie'.leaves = trie.leaves := by
  obtain ⟨trie', memo', computed, memoValid, clean, sameLeaves⟩ :=
    root_spec sha3 coherent unique valid
  have sameGet : trie'.get = trie.get := by
    funext key
    rw [Trie.get, sameLeaves, ← Trie.get]
  obtain ⟨hashes, siblingsValid⟩ := siblings_spec sha3 clean key (List.range depth)
    (fun level listed => List.mem_range.mp listed) memoValid
  refine ⟨trie', _, ?_, siblingsValid, clean.coherent sha3, sameLeaves⟩
  simp only [prove, computed, Option.bind_eq_bind, Option.bind_some, Option.pure_def, hashes,
    sameGet]

/-- The plain recursion over the leaves evaluates the tree. -/
theorem plainRoot_eq (trie : Trie) : trie.plainRoot sha3 = mapHash sha3 trie.get 0 0 := by
  refine subtree_eq_mapHash sha3 trie.get (Nat.zero_le depth) (below_root 0) _ ?_ ?_
  · rw [entries, List.pairwise_map]
    exact (trie.leaves.sorted_range fun _ => true).imp compare_lt
  · intro key hash
    simp only [entries, List.mem_map, Prod.exists, Prod.mk.injEq, digests, Option.map_eq_some_iff,
      below_root, true_and, Overlay.mem_range, and_true]
    constructor
    · rintro ⟨_, value, stored, rfl, rfl⟩
      exact ⟨value, stored, rfl⟩
    · rintro ⟨value, stored, rfl⟩
      exact ⟨key, value, stored, rfl, rfl⟩

end Trie

namespace Store

/-- Every copy is coherent and the shared memo is valid. -/
structure Coherent (store : Store) : Prop where
  tries : ∀ trie ∈ store.tries, trie.Coherent sha3
  memo : store.memo.Valid sha3

theorem initial_coherent : (initial sha3).Coherent sha3 where
  tries trie listed := by
    obtain rfl : trie = Trie.new sha3 := by simpa [initial] using listed
    exact Trie.new_coherent sha3
  memo := Anchors.empty_valid sha3

/-- An action that succeeds and keeps its trie and memo in order does so for the store. -/
theorem onCopy_coherent {store : Store} (coherent : store.Coherent sha3) (copy : Nat)
    {action : Trie → Anchors → Option (Trie × Anchors)}
    (keeps : ∀ trie, trie.Coherent sha3 → ∃ trie' memo', action trie store.memo =
      some (trie', memo') ∧ trie'.Coherent sha3 ∧ memo'.Valid sha3) :
    ∃ store', store.onCopy copy action = some store' ∧ store'.Coherent sha3 := by
  unfold onCopy
  cases found : store.tries[copy]? with
  | none => exact ⟨store, rfl, coherent⟩
  | some trie =>
    obtain ⟨trie', memo', acted, trieCoherent, memoValid⟩ :=
      keeps trie (coherent.tries trie (List.mem_of_getElem? found))
    refine ⟨{ tries := store.tries.set copy trie', memo := memo' }, by simp [acted], ?_, memoValid⟩
    intro other listed
    rcases List.mem_or_eq_of_mem_set listed with before | rfl
    · exact coherent.tries other before
    · exact trieCoherent

/-- One operation succeeds and keeps every copy coherent. -/
theorem step_coherent {store : Store} (coherent : store.Coherent sha3) (op : Op) :
    ∃ store', store.step sha3 op = some store' ∧ store'.Coherent sha3 := by
  cases op with
  | insert copy unique key value =>
    rw [step]
    exact onCopy_coherent sha3 coherent copy fun trie trieCoherent =>
      ⟨_, _, rfl, Trie.insert_coherent sha3 trieCoherent unique key value, coherent.memo⟩
  | remove copy unique key =>
    rw [step]
    exact onCopy_coherent sha3 coherent copy fun trie trieCoherent =>
      ⟨_, _, rfl, Trie.remove_coherent sha3 trieCoherent unique key, coherent.memo⟩
  | root copy unique =>
    rw [step]
    refine onCopy_coherent sha3 coherent copy fun trie trieCoherent => ?_
    obtain ⟨trie', memo', computed, memoValid, clean, _⟩ :=
      Trie.root_spec sha3 trieCoherent unique coherent.memo
    exact ⟨trie', memo', by rw [computed]; rfl, clean.coherent sha3, memoValid⟩
  | prove copy unique key =>
    rw [step]
    refine onCopy_coherent sha3 coherent copy fun trie trieCoherent => ?_
    obtain ⟨trie', memo', proved, memoValid, trieCoherent', _⟩ :=
      Trie.prove_spec sha3 trieCoherent unique key coherent.memo
    exact ⟨trie', memo', by rw [proved]; rfl, trieCoherent', memoValid⟩
  | compact copy uniqueLeaves uniqueNodes =>
    rw [step]
    exact onCopy_coherent sha3 coherent copy fun trie trieCoherent =>
      ⟨_, _, rfl, Trie.compact_coherent sha3 trieCoherent uniqueLeaves uniqueNodes, coherent.memo⟩
  | clone copy =>
    refine ⟨_, rfl, fun trie listed => ?_, coherent.memo⟩
    rcases List.mem_append.mp listed with before | copied
    · exact coherent.tries trie before
    · rw [Option.mem_toList] at copied
      exact coherent.tries trie (List.mem_of_getElem? copied)

/-- A run of operations succeeds and keeps every copy coherent. -/
theorem run_coherent {store : Store} (coherent : store.Coherent sha3) (ops : List Op) :
    ∃ store', store.run sha3 ops = some store' ∧ store'.Coherent sha3 := by
  induction ops generalizing store with
  | nil => exact ⟨store, rfl, coherent⟩
  | cons op ops hypothesis =>
    obtain ⟨next, stepped, nextCoherent⟩ := step_coherent sha3 coherent op
    obtain ⟨last, ran, lastCoherent⟩ := hypothesis nextCoherent
    refine ⟨last, ?_, lastCoherent⟩
    rw [run, List.foldlM_cons, stepped]
    exact ran

/-- After every history of insertions, removals, roots, proofs, compactions and copies, no lookup of
a cached node has failed, and the incremental root of every copy is the plain recursion over that
copy's leaves. Every step keeps the cached nodes equal to the plain hashes. -/
theorem root_eq_plainRoot (ops : List Op) :
    ∃ store, (initial sha3).run sha3 ops = some store ∧
      ∀ trie ∈ store.tries, ∀ unique,
        ∃ trie' memo', trie.root sha3 unique store.memo =
          some (trie.plainRoot sha3, trie', memo') := by
  obtain ⟨store, ran, coherent⟩ := run_coherent sha3 (initial_coherent sha3) ops
  refine ⟨store, ran, fun trie listed unique => ?_⟩
  obtain ⟨trie', memo', computed, _⟩ :=
    Trie.root_spec sha3 (coherent.tries trie listed) unique coherent.memo
  exact ⟨trie', memo', by rw [computed, Trie.plainRoot_eq]⟩

end Store

end Hashing

end QuantovaChain.State
