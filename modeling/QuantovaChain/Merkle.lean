import QuantovaChain.Library.HashTree
import QuantovaChain.Platform

/-!
# Roots of transactions and events

A list is hashed as a tree that splits at the largest power of two below its length. Leaves and
nodes are hashed under different first bytes.
-/

namespace QuantovaChain.Chain

open State (Bytes Hash)
open Tx (Wrapper)

/-- Doubles a power while its double is below a bound. -/
def growSplit (n split : Nat) : Nat :=
  if 0 < split ∧ split * 2 < n then growSplit n (split * 2) else split
termination_by n - split
decreasing_by omega

def largestPowerOfTwoBelow (n : Nat) : Nat := growSplit n 1

theorem growSplit_bounds {n split : Nat} (positive : 0 < split) (below : split < n) :
    0 < growSplit n split ∧ growSplit n split < n := by
  induction split using growSplit.induct n with
  | case1 split more hypothesis =>
    rw [growSplit, if_pos more]
    exact hypothesis (by omega) more.2
  | case2 split last =>
    rw [growSplit, if_neg last]
    exact ⟨positive, below⟩

theorem largestPowerOfTwoBelow_bounds {n : Nat} (two : 2 ≤ n) :
    0 < largestPowerOfTwoBelow n ∧ largestPowerOfTwoBelow n < n :=
  growSplit_bounds Nat.one_pos two

/-- Both sides of a split are shorter than the list. -/
theorem split_shorter {α : Type} (elements : List α) (two : 2 ≤ elements.length) :
    (elements.take (largestPowerOfTwoBelow elements.length)).length < elements.length ∧
      (elements.drop (largestPowerOfTwoBelow elements.length)).length < elements.length := by
  have bounds := largestPowerOfTwoBelow_bounds two
  rw [List.length_take, List.length_drop]
  omega

section Hashing

variable [Platform]

def emptyTransactionRoot : Hash := Platform.sha3 []

def leafHash (data : Bytes) : Hash := Platform.sha3 (0 :: data)

def pairHash (left right : Hash) : Hash := Platform.sha3 (1 :: left.toList ++ right.toList)

def merkleRoot (leaves : List Hash) : Hash :=
  match leaves with
  | [] => emptyTransactionRoot
  | [only] => only
  | first :: second :: rest =>
    let leaves := first :: second :: rest
    let split := largestPowerOfTwoBelow leaves.length
    pairHash (merkleRoot (leaves.take split)) (merkleRoot (leaves.drop split))
termination_by leaves.length
decreasing_by
  · exact (split_shorter _ (by simp)).1
  · exact (split_shorter _ (by simp)).2

def eventRoot (events : List Bytes) : Hash :=
  if events = [] then emptyTransactionRoot else merkleRoot (events.map leafHash)

def transactionRoot (transactions : List Wrapper) : Hash :=
  if transactions = [] then emptyTransactionRoot
  else merkleRoot (transactions.map fun transaction => leafHash transaction.encode)

/-! ## Proofs of inclusion -/

abbrev MerkleStep := HashTree.Step Hash

structure MerkleProof where
  steps : List MerkleStep
  deriving DecidableEq, Repr

def collectSteps (leaves : List Hash) (index : Nat) : List MerkleStep :=
  match leaves with
  | [] | [_] => []
  | first :: second :: rest =>
    let leaves := first :: second :: rest
    let split := largestPowerOfTwoBelow leaves.length
    if index < split then
      collectSteps (leaves.take split) index ++ [⟨merkleRoot (leaves.drop split), false⟩]
    else
      collectSteps (leaves.drop split) (index - split) ++ [⟨merkleRoot (leaves.take split), true⟩]
termination_by leaves.length
decreasing_by
  · exact (split_shorter _ (by simp)).1
  · exact (split_shorter _ (by simp)).2

def proveInclusion (events : List Bytes) (index : Nat) : Option MerkleProof :=
  if events.length ≤ index then none else some ⟨collectSteps (events.map leafHash) index⟩

def verifyInclusion (root : Hash) (event : Bytes) (proof : MerkleProof) : Bool :=
  let reached := proof.steps.foldl (fun current step =>
    if step.siblingOnLeft then pairHash step.sibling current else pairHash current step.sibling)
    (leafHash event)
  reached == root

end Hashing

end QuantovaChain.Chain
