import QuantovaChain.Library.Elimination
import QuantovaChain.Library.LevelTree
import QuantovaChain.Net.Field
import QuantovaChain.Platform

/-!
# Erasure coding

Data is cut into `k` pieces and coded into `n` shards, any `k` of which give the data back. The
first `k` shards are the pieces themselves; each other shard is a sum of the pieces with
coefficients that come from a Vandermonde matrix. The shards are the leaves of a tree of hashes,
whose root is bound to the parameters in the commitment, and every shard has a proof that it is a
leaf.
-/

namespace QuantovaChain.Net

open State (Bytes Hash)
open Elimination (Square)
open LevelTree (Join)

def maxShards : Nat := 256

inductive Error
  | parameters
  | shardSet
  | shardLength
  | singular
  deriving DecidableEq, Repr

structure Shard where
  index : Nat
  bytes : Bytes
  deriving DecidableEq, Repr

structure ShardProof where
  siblings : List Hash
  deriving DecidableEq, Repr

structure Commitment where
  root : Hash
  k : Nat
  n : Nat
  shardLen : Nat
  dataLen : Nat
  deriving DecidableEq, Repr

structure Coded where
  commitment : Commitment
  shards : List Shard
  tree : List (List Hash)
  deriving DecidableEq, Repr

/-- The parameters that `encode` and `reconstruct` refuse. -/
def outOfRange (k n : Nat) : Bool := k == 0 || decide (n < k) || decide (maxShards < n)

/-! ## Work in parallel -/

def parallelWork : Nat := 2 ^ 20

/-- Parts of equal length, but for the last. -/
def chunks {α : Type} (size : Nat) (items : List α) : List (List α) :=
  if items.length ≤ size ∨ size = 0 then [items]
  else items.take size :: chunks size (items.drop size)
termination_by items.length
decreasing_by
  rw [List.length_drop]
  omega

/-- Maps in parallel when there are cores and enough work, and keeps the order. -/
def mapOrdered {α β : Type} (available : Nat) (items : List α) (work : Nat) (f : α → β) : List β :=
  let cores := min available items.length
  if cores ≤ 1 ∨ work < parallelWork then items.map f
  else (chunks ((items.length + cores - 1) / cores) items).flatMap fun part => part.map f

/-! ## Matrices -/

/-- The powers of a point, up to the `k`th, not included. -/
def vandermondeRow (point k : Nat) : Vector Gf k :=
  let alpha : Gf := ⟨UInt8.ofNat point⟩
  Vector.ofFn fun column => (fun value => value * alpha)^[column.val] 1

def vandermonde (k : Nat) : Square Gf k := Vector.ofFn fun point => vandermondeRow point.val k

/-- Adds a multiple of a row. -/
def addRow {k : Nat} (out : Vector Gf k) (coeff : Gf) (row : Vector Gf k) : Vector Gf k :=
  if coeff = 0 then out else Vector.zipWith (fun slot value => slot + coeff * value) out row

def rowTimesMatrix {k : Nat} (row : Vector Gf k) (matrix : Square Gf k) : Vector Gf k :=
  (List.finRange k).foldl (fun out ⟨place, _⟩ => addRow out row[place] matrix[place])
    (Vector.replicate k 0)

def invert {k : Nat} (matrix : Square Gf k) : Except Error (Square Gf k) :=
  match Elimination.invert matrix with
  | some inverse => .ok inverse
  | none => .error .singular

/-- The coefficients of the shards that are not pieces. -/
def parityCoefficients (k n : Nat) : Except Error (List (Vector Gf k)) := do
  let topInverse ← invert (vandermonde k)
  return (List.range' k (n - k)).map fun index =>
    rowTimesMatrix (vandermondeRow index k) topInverse

/-- The coefficients of chosen shards. -/
def decodeMatrix (indices : List Nat) (k : Nat) : Except Error (Square Gf k) := do
  let topInverse ← invert (vandermonde k)
  return Vector.ofFn fun place =>
    let index := indices.getD place.val 0
    if index < k then Vector.ofFn fun column => if column.val = index then 1 else 0
    else rowTimesMatrix (vandermondeRow index k) topInverse

/-! ## Shards -/

/-- Adds the multiple of a shard to bytes. -/
def addMultiple (coeff : Gf) : Bytes → Bytes → Bytes
  | slot :: out, byte :: bytes =>
    (slot ^^^ field.mul coeff.byte byte) :: addMultiple coeff out bytes
  | out, _ => out

/-- The sum of the multiples of shards. -/
def combine (coeffs : List Gf) (shards : List Bytes) (shardLen : Nat) : Bytes :=
  (coeffs.zip shards).foldl (fun out entry =>
    if entry.1 = 0 then out else addMultiple entry.1 out entry.2) (List.replicate shardLen 0)

/-- A piece of the data, filled up with zeros. -/
def pieceOf (data : Bytes) (shardLen piece : Nat) : Bytes :=
  let part := (data.drop (piece * shardLen)).take shardLen
  part ++ List.replicate (shardLen - part.length) 0

def shardLength (data : Bytes) (k : Nat) : Nat := max ((data.length + k - 1) / k) 1

def pieces (data : Bytes) (k : Nat) : List Bytes :=
  (List.range k).map (pieceOf data (shardLength data k))

section Hashing

variable [Platform]

/-- Machine sizes are written as words of 64 bits. -/
def putUsize (value : Nat) : Bytes := Codec.putU64 (Word.clamp 64 value)

def leafInput (shardLen : Nat) (bytes : Bytes) : Bytes := 0 :: putUsize shardLen ++ bytes

def leafHash (shardLen : Nat) (bytes : Bytes) : Hash := Platform.sha3 (leafInput shardLen bytes)

/-- What is hashed for a pair of nodes, and for a node alone. -/
def joinInput : Join Hash → Bytes
  | .pair left right => 1 :: left.toList ++ right.toList
  | .odd only => 3 :: only.toList

def joinHash (join : Join Hash) : Hash := Platform.sha3 (joinInput join)

def rootInput (treeRoot : Hash) (k n shardLen dataLen : Nat) : Bytes :=
  2 :: treeRoot.toList ++ putUsize k ++ putUsize n ++ putUsize shardLen ++ putUsize dataLen

def rootHash (treeRoot : Hash) (k n shardLen dataLen : Nat) : Hash :=
  Platform.sha3 (rootInput treeRoot k n shardLen dataLen)

def merkleTree (leaves : List Hash) : List (List Hash) := LevelTree.levels joinHash leaves

def Commitment.verifyShard (commitment : Commitment) (shard : Shard) (proof : ShardProof) : Bool :=
  if outOfRange commitment.k commitment.n || decide (commitment.n ≤ shard.index) ||
      shard.bytes.length != commitment.shardLen then false
  else
    match LevelTree.climb joinHash (leafHash commitment.shardLen shard.bytes) shard.index
        commitment.n proof.siblings with
    | some (node, []) =>
      rootHash node commitment.k commitment.n commitment.shardLen commitment.dataLen ==
        commitment.root
    | _ => false

/-- The partners on the way up through the levels. -/
def siblingsFrom : List (List Hash) → Nat → List Hash
  | [], _ => []
  | level :: rest, index =>
    if level.length ≤ 1 then []
    else LevelTree.partner level index ++ siblingsFrom rest (index / 2)

def Coded.proof (coded : Coded) (index : Nat) : Option ShardProof :=
  if coded.shards.length ≤ index then none else some ⟨siblingsFrom coded.tree index⟩

/-- The root of a tree. -/
def treeRoot (tree : List (List Hash)) : Hash :=
  ((tree.getLast?.bind List.head?).getD (Vector.replicate 32 0))

def encode (available : Nat) (data : Bytes) (k n : Nat) : Except Error Coded :=
  if outOfRange k n then .error .parameters
  else do
    let shardLen := shardLength data k
    let dataShards := pieces data k
    let parity ← parityCoefficients k n
    let work := k * shardLen * parity.length
    let parityShards := mapOrdered available parity work fun coeffs =>
      combine coeffs.toList dataShards shardLen
    let shardBytes := dataShards ++ parityShards
    let leaves := mapOrdered available shardBytes (shardLen * shardBytes.length) (leafHash shardLen)
    let tree := merkleTree leaves
    return {
      commitment :=
        { root := rootHash (treeRoot tree) k n shardLen data.length, k, n, shardLen,
          dataLen := data.length }
      shards := shardBytes.mapIdx fun index bytes => { index, bytes }
      tree }

end Hashing

/-- Takes shards until there are enough. -/
def gather (commitment : Commitment) : List Shard → List Nat → List Bytes →
    Except Error (List Nat × List Bytes)
  | [], indices, rows => .ok (indices, rows)
  | shard :: rest, indices, rows =>
    if indices.length = commitment.k then .ok (indices, rows)
    else if commitment.n ≤ shard.index ∨ shard.index ∈ indices then .error .shardSet
    else if shard.bytes.length ≠ commitment.shardLen then .error .shardLength
    else gather commitment rest (indices ++ [shard.index]) (rows ++ [shard.bytes])

def reconstruct (available : Nat) (commitment : Commitment) (shards : List Shard) :
    Except Error Bytes :=
  if outOfRange commitment.k commitment.n then .error .parameters
  else do
    let k := commitment.k
    let (indices, rows) ← gather commitment shards [] []
    if indices.length < k then .error .shardSet
    else
      let matrix ← decodeMatrix indices k
      let inverse ← invert matrix
      let shardLen := commitment.shardLen
      let recovered := mapOrdered available inverse.toList (k * k * shardLen) fun row =>
        combine row.toList rows shardLen
      return recovered.flatten.take commitment.dataLen

end QuantovaChain.Net
