import Std.Data.ExtTreeSet
import QuantovaChain.Library.Overlay
import QuantovaChain.Library.SparseTree

/-!
# The state trie

A binary hash tree of depth 256 over a sorted map of leaves, with an incremental root: the trie
remembers which keys changed since the last root, keeps the hash of every subtree with two or more
leaves, and collapses a subtree with one leaf to a chain of hashes past empty siblings. A process
wide memo keeps the part of such a chain below level 64.

Keys are read as 256-bit numbers in big-endian order, so that the order of the sorted map is the
numeric order and the bits are counted from the most significant one. The hash function is a
parameter. Whether a shared map may be edited in place depends on the copies of a trie that are
alive at that moment; every operation that asks takes the answer as the argument `unique`. The two
threads of a large recomputation are run one after the other, which lists their updates in the same
order.
-/

namespace QuantovaChain.State

open KeyBits SparseTree Std

abbrev Bytes := List UInt8

/-- The depth of the trie in bits. -/
def depth : Nat := 256

abbrev Key := BitVec depth

abbrev Hash := Vector UInt8 32

/-- The hash of an absent leaf. -/
def defaultLeaf : Hash := Vector.replicate 32 0

def leafDomain : UInt8 := 0x00

def nodeDomain : UInt8 := 0x01

/-- The bytes hashed for a leaf. -/
def leafInput (value : Bytes) : Bytes :=
  leafDomain :: value

/-- The bytes hashed for an inner node. -/
def nodeInput (left right : Hash) : Bytes :=
  nodeDomain :: (left.toList ++ right.toList)

/-- The level, and the stem of the subtree at that level. -/
abbrev NodeId := Nat × Key

def compareIds : NodeId → NodeId → Ordering :=
  compareLex (compareOn Prod.fst) (compareOn Prod.snd)

instance : TransCmp compareIds :=
  inferInstanceAs (TransCmp (compareLex _ _))

instance : LawfulEqCmp compareIds where
  eq_of_compare same := by
    simp only [compareIds, compareLex_eq_eq, compareOn, LawfulEqCmp.compare_eq_iff_eq] at same
    exact Prod.ext same.1 same.2

abbrev Leaves := Overlay Key Bytes compare

abbrev Nodes := Overlay NodeId Hash compareIds

/-- Below this many pending changes a shared map is not rebuilt. -/
def foldFloor : Nat := 4096

/-- The leaves of one subtree, in key order. -/
def Leaves.subtreeRange (leaves : Leaves) (level : Nat) (stem : Key) : List (Key × Bytes) :=
  leaves.range fun key => decide (stem ≤ key) && decide (key ≤ subtreeEnd stem level)

/-- Memoised chains: for a key, its leaf hash and the chain hash at `anchorLevel`. -/
structure Anchors where
  current : ExtTreeMap Key (Hash × Hash) compare
  previous : ExtTreeMap Key (Hash × Hash) compare

def anchorLevel : Nat := 64

def anchorGeneration : Nat := 262144

/-- The memo of a fresh process. -/
def Anchors.empty : Anchors :=
  ⟨∅, ∅⟩

/-- The stored anchor of a key, if it was stored for this leaf hash. -/
def Anchors.known (memo : Anchors) (key : Key) (leaf : Hash) : Option Hash :=
  ((memo.current[key]?.or memo.previous[key]?).filter fun stored => stored.1 = leaf).map Prod.snd

/-- Stores an anchor; a full generation becomes the previous one. -/
def Anchors.store (memo : Anchors) (key : Key) (leaf anchor : Hash) : Anchors :=
  let rotated := if memo.current.size ≥ anchorGeneration then ⟨∅, memo.current⟩ else memo
  { rotated with current := rotated.current.insert key (leaf, anchor) }

abbrev NodeUpdate := NodeId × Option Hash

/-- A membership or absence proof for one key. -/
structure Proof where
  value : Option Bytes
  siblings : List Hash
deriving DecidableEq

/-- The incremental part of a trie: the hashes of the subtrees with two or more leaves, the last
root, and the keys written since. -/
structure RootCache where
  nodes : Nodes
  root : Hash
  changed : ExtTreeSet Key compare

structure Trie where
  leaves : Leaves
  cache : RootCache
  persistDirty : ExtTreeSet Key compare

section Hashing

variable (sha3 : Bytes → Hash)

def leafHash (value : Bytes) : Hash :=
  sha3 (leafInput value)

def nodeHash (left right : Hash) : Hash :=
  sha3 (nodeInput left right)

/-- The trie's node hash and absent leaf as a tree scheme. -/
def scheme : Scheme Hash :=
  ⟨nodeHash sha3, defaultLeaf⟩

/-- The hash of an empty subtree, indexed by its level. -/
def defaults (level : Nat) : Hash :=
  emptyHash (scheme sha3) (depth - level)

/-- Hashes from `startLevel` up to `fromLevel` along the path of a key, past empty siblings. -/
def chainBetween (key : Key) (start : Hash) (startLevel fromLevel : Nat) : Hash :=
  climb (scheme sha3) key (fun level => defaults sha3 (level + 1)) fromLevel
    (startLevel - fromLevel) start

def chainHash (key : Key) (leaf : Hash) (fromLevel : Nat) : Hash :=
  chainBetween sha3 key leaf depth fromLevel

/-- The hash of a subtree whose only leaf is the given one. -/
def singleLeafHash (key : Key) (value : Bytes) (level : Nat) (memo : Anchors) : Hash × Anchors :=
  let leaf := leafHash sha3 value
  if level > anchorLevel then
    (chainHash sha3 key leaf level, memo)
  else
    match memo.known key leaf with
    | some anchor => (chainBetween sha3 key anchor anchorLevel level, memo)
    | none =>
      let anchor := chainHash sha3 key leaf anchorLevel
      (chainBetween sha3 key anchor anchorLevel level, memo.store key leaf anchor)

/-- The hash of the leaf position of a key. -/
def leafAt (leaves : Leaves) (key : Key) : Hash :=
  match leaves.get key with
  | some value => leafHash sha3 value
  | none => defaults sha3 depth

/-- The hash of a subtree, taken from the node cache where it can be. -/
def cachedSubtree (leaves : Leaves) (nodes : Nodes) (level : Nat) (stem : Key) (memo : Anchors) :
    Hash × Anchors :=
  if level < depth then
    match nodes.get (level, stem) with
    | some hash => (hash, memo)
    | none =>
      match leaves.subtreeRange level stem with
      | [] => (defaults sha3 level, memo)
      | [(key, value)] => singleLeafHash sha3 key value level memo
      | _ =>
        let (left, memo) := cachedSubtree leaves nodes (level + 1) stem memo
        let (right, memo) := cachedSubtree leaves nodes (level + 1) (withBit stem level) memo
        (nodeHash sha3 left right, memo)
  else
    (leafAt sha3 leaves stem, memo)
termination_by depth - level

/-- The hash of a subtree in which nothing changed. It fails where the cache lacks the node of a
subtree with two or more leaves. -/
def cleanHash (leaves : Leaves) (nodes : Nodes) (level : Nat) (stem : Key) (memo : Anchors) :
    Option (Hash × Anchors) :=
  match leaves.subtreeRange level stem with
  | [] => some (defaults sha3 level, memo)
  | [(key, value)] => some (singleLeafHash sha3 key value level memo)
  | _ => (nodes.get (level, stem)).map fun hash => (hash, memo)

/-- Removes the cached nodes on the path of a key from `level` down. -/
def dropPath (nodes : Nodes) (key : Key) (level : Nat) : List NodeUpdate :=
  (List.range' level (depth - level)).filterMap fun below =>
    if (nodes.get (below, prefixAt key below)).isSome then
      some ((below, prefixAt key below), none)
    else none

/-- What a recomputed subtree does to its own cached node. -/
def nodeUpdate (nodes : Nodes) (id : NodeId) (hash : Hash) (branch : Bool) : List NodeUpdate :=
  if branch then [(id, some hash)]
  else if (nodes.get id).isSome then [(id, none)]
  else []

mutual

/-- One half of a recomputed subtree. -/
def side (leaves : Leaves) (nodes : Nodes) (level : Nat) (stem : Key) (changed : List Key)
    (memo : Anchors) : Option (Hash × List NodeUpdate × Anchors) :=
  if changed.isEmpty then
    (cleanHash sha3 leaves nodes level stem memo).map fun (hash, memo) => (hash, [], memo)
  else
    recompute leaves nodes level stem changed memo
termination_by (depth - level, 1)

/-- The hash of a subtree after the keys `changed` below it were written, and the updates this
makes to the node cache, in the order they are applied. -/
def recompute (leaves : Leaves) (nodes : Nodes) (level : Nat) (stem : Key) (changed : List Key)
    (memo : Anchors) : Option (Hash × List NodeUpdate × Anchors) :=
  if level < depth then
    match changed, leaves.subtreeRange level stem with
    | [key], [] => some (defaults sha3 level, dropPath nodes key level, memo)
    | [key], [(leafKey, value)] =>
      let (hash, memo) := singleLeafHash sha3 leafKey value level memo
      some (hash, dropPath nodes key level, memo)
    | changed, entries => do
      let changedLeft := changed.takeWhile fun key => !keyBit key level
      let changedRight := changed.dropWhile fun key => !keyBit key level
      let (left, leftUpdates, memo) ← side leaves nodes (level + 1) stem changedLeft memo
      let (right, rightUpdates, memo) ←
        side leaves nodes (level + 1) (withBit stem level) changedRight memo
      let hash := nodeHash sha3 left right
      let own := nodeUpdate nodes (level, stem) hash (decide (2 ≤ entries.length))
      return (hash, leftUpdates ++ rightUpdates ++ own, memo)
  else
    some (leafAt sha3 leaves stem, [], memo)
termination_by (depth - level, 0)

end

/-- The plain recursion over a sorted list of leaf hashes. -/
def subtree (entries : List (Key × Hash)) (level : Nat) : Hash :=
  if entries.isEmpty then defaults sha3 level
  else if level < depth then
    nodeHash sha3
      (subtree (entries.takeWhile fun entry => !keyBit entry.1 level) (level + 1))
      (subtree (entries.dropWhile fun entry => !keyBit entry.1 level) (level + 1))
  else
    match entries with
    | [] => defaults sha3 level
    | entry :: _ => entry.2
termination_by depth - level

/-- The hash a verification starts from. -/
def Proof.start (proof : Proof) : Hash :=
  match proof.value with
  | some value => leafHash sha3 value
  | none => defaultLeaf

/-- The sibling a verification meets at a level. -/
def Proof.sibling (proof : Proof) (level : Nat) : Hash :=
  proof.siblings.getD level defaultLeaf

/-- Checks a proof against a root. -/
def verify (key : Key) (proof : Proof) (root : Hash) : Bool :=
  if proof.siblings.length ≠ depth then false
  else climb (scheme sha3) key proof.sibling 0 depth (proof.start sha3) = root

end Hashing

namespace Trie

/-- The empty trie. -/
def new (sha3 : Bytes → Hash) : Trie where
  leaves := Overlay.empty
  cache := { nodes := Overlay.empty, root := defaults sha3 0, changed := ∅ }
  persistDirty := ∅

def get (trie : Trie) (key : Key) : Option Bytes :=
  trie.leaves.get key

/-- Marks a key as written since the last root and since the last persisted batch. -/
def markChanged (trie : Trie) (key : Key) : Trie :=
  { trie with
    cache := { trie.cache with changed := trie.cache.changed.insert key }
    persistDirty := trie.persistDirty.insert key }

def insert (trie : Trie) (unique : Bool) (key : Key) (value : Bytes) : Trie :=
  { trie with leaves := trie.leaves.put unique key (some value) }.markChanged key

/-- Removes a key and says whether it was present; an absent key is not marked. -/
def remove (trie : Trie) (unique : Bool) (key : Key) : Bool × Trie :=
  if (trie.get key).isSome then
    (true, { trie with leaves := trie.leaves.put unique key none }.markChanged key)
  else (false, trie)

/-- The keys written since the last persisted batch, which start again. -/
def takePersistDirty (trie : Trie) : List Key × Trie :=
  (trie.persistDirty.toList, { trie with persistDirty := ∅ })

def compact (trie : Trie) (uniqueLeaves uniqueNodes : Bool) : Trie :=
  { trie with
    leaves := trie.leaves.fold foldFloor uniqueLeaves
    cache := { trie.cache with nodes := trie.cache.nodes.fold foldFloor uniqueNodes } }

/-- Applies node updates in order. -/
def applyUpdates (nodes : Nodes) (unique : Bool) (updates : List NodeUpdate) : Nodes :=
  updates.foldl (fun nodes update => nodes.put unique update.1 update.2) nodes

section Hashing

variable (sha3 : Bytes → Hash)

/-- The root hash, recomputed along the changed keys only. -/
def root (trie : Trie) (unique : Bool) (memo : Anchors) : Option (Hash × Trie × Anchors) :=
  if trie.cache.changed.isEmpty then some (trie.cache.root, trie, memo)
  else do
    let (root, updates, memo) ←
      recompute sha3 trie.leaves trie.cache.nodes 0 0 trie.cache.changed.toList memo
    let nodes := applyUpdates trie.cache.nodes unique updates
    return (root, { trie with cache := { nodes, root, changed := ∅ } }, memo)

/-- The siblings of a key from level `level` down, read from a clean cache. -/
def siblings (trie : Trie) (key : Key) : List Nat → Anchors → List Hash × Anchors
  | [], memo => ([], memo)
  | level :: levels, memo =>
    let (hash, memo) := cachedSubtree sha3 trie.leaves trie.cache.nodes (level + 1)
      (flipBit (prefixAt key (level + 1)) level) memo
    let (rest, memo) := siblings trie key levels memo
    (hash :: rest, memo)

def prove (trie : Trie) (unique : Bool) (key : Key) (memo : Anchors) :
    Option (Proof × Trie × Anchors) := do
  let (_, trie, memo) ← trie.root sha3 unique memo
  let (siblings, memo) := trie.siblings sha3 key (List.range depth) memo
  return ({ value := trie.get key, siblings }, trie, memo)

/-- The leaf hashes in key order. -/
def entries (trie : Trie) : List (Key × Hash) :=
  (trie.leaves.range fun _ => true).map fun (key, value) => (key, leafHash sha3 value)

/-- The root by plain recursion over the current leaf map. -/
def plainRoot (trie : Trie) : Hash :=
  subtree sha3 (trie.entries sha3) 0

end Hashing

end Trie

/-- The live copies of tries in one process, and the memo they share. -/
structure Store where
  tries : List Trie
  memo : Anchors

/-- An operation on the copy at position `at`. -/
inductive Op where
  | insert (copy : Nat) (unique : Bool) (key : Key) (value : Bytes)
  | remove (copy : Nat) (unique : Bool) (key : Key)
  | root (copy : Nat) (unique : Bool)
  | prove (copy : Nat) (unique : Bool) (key : Key)
  | compact (copy : Nat) (uniqueLeaves uniqueNodes : Bool)
  | clone (copy : Nat)

namespace Store

/-- A fresh process with one empty trie. -/
def initial (sha3 : Bytes → Hash) : Store :=
  ⟨[Trie.new sha3], Anchors.empty⟩

/-- Runs `action` on the copy at a position; a position with no copy is left alone. -/
def onCopy (store : Store) (copy : Nat) (action : Trie → Anchors → Option (Trie × Anchors)) :
    Option Store :=
  match store.tries[copy]? with
  | none => some store
  | some trie => do
    let (trie, memo) ← action trie store.memo
    return { tries := store.tries.set copy trie, memo }

/-- One operation. It fails only where the code would panic. -/
def step (sha3 : Bytes → Hash) (store : Store) : Op → Option Store
  | .insert copy unique key value =>
    store.onCopy copy fun trie memo => some (trie.insert unique key value, memo)
  | .remove copy unique key =>
    store.onCopy copy fun trie memo => some ((trie.remove unique key).2, memo)
  | .root copy unique =>
    store.onCopy copy fun trie memo => (trie.root sha3 unique memo).map Prod.snd
  | .prove copy unique key =>
    store.onCopy copy fun trie memo => (trie.prove sha3 unique key memo).map Prod.snd
  | .compact copy uniqueLeaves uniqueNodes =>
    store.onCopy copy fun trie memo => some (trie.compact uniqueLeaves uniqueNodes, memo)
  | .clone copy => some { store with tries := store.tries ++ store.tries[copy]?.toList }

def run (sha3 : Bytes → Hash) (store : Store) (ops : List Op) : Option Store :=
  ops.foldlM (step sha3) store

end Store

end QuantovaChain.State
