import QuantovaChain.Library.Transaction
import QuantovaChain.State.Proofs

/-!
# Atomic application on the ledger's trie

The ledger keeps its leaves in the state trie. `apply_atomic` runs a closure over the ledger with
an undo journal and restores the leaves, the event logs and the fresh leaf counter when the closure
returns false, panics, or, for the outermost call, ends above the fresh leaf ceiling. Here the
journaled transactions are instantiated with the trie: a closure is a program of leaf reads and
writes, leaf erasures, event pushes and nested calls.
-/

namespace QuantovaChain.Ledger

open State Transaction

/-- A trie as a ledger holds it: its cache is coherent, and for each successive write it is
determined from outside whether the leaves are shared with another copy at that moment. -/
structure SharedTrie (sha3 : Bytes → Hash) where
  trie : Trie
  coherent : trie.Coherent sha3
  unique : Nat → Bool
  tick : Nat

variable {sha3 : Bytes → Hash}

namespace SharedTrie

def insert (shared : SharedTrie sha3) (key : Key) (value : Bytes) : SharedTrie sha3 where
  trie := shared.trie.insert (shared.unique shared.tick) key value
  coherent := Trie.insert_coherent sha3 shared.coherent _ key value
  unique := shared.unique
  tick := shared.tick + 1

def remove (shared : SharedTrie sha3) (key : Key) : SharedTrie sha3 where
  trie := (shared.trie.remove (shared.unique shared.tick) key).2
  coherent := Trie.remove_coherent sha3 shared.coherent _ key
  unique := shared.unique
  tick := shared.tick + 1

theorem get_insert (shared : SharedTrie sha3) (key other : Key) (value : Bytes) :
    (shared.insert key value).trie.get other =
      if key = other then some value else shared.trie.get other :=
  Overlay.get_put _ _ _ _ _

theorem get_remove (shared : SharedTrie sha3) (key other : Key) :
    (shared.remove key).trie.get other = if key = other then none else shared.trie.get other := by
  simp only [remove, Trie.remove]
  split
  next => exact Overlay.get_put _ _ _ _ _
  next absent =>
    by_cases here : key = other
    · subst here
      simpa using absent
    · simp [here]

instance : KeyedStore (SharedTrie sha3) Key (fun _ => Bytes) where
  get shared key := shared.trie.get key
  insert := insert
  remove := remove
  get_insert_self shared key value := by rw [get_insert, if_pos rfl]
  get_insert_ne shared key value other apart := by rw [get_insert, if_neg apart]
  get_remove_self shared key := by rw [get_remove, if_pos rfl]
  get_remove_ne shared key other apart := by rw [get_remove, if_neg apart]

end SharedTrie

variable {E F X : Type}

/-- The ledger as far as `apply_atomic` is concerned. -/
abbrev TrieLedger (sha3 : Bytes → Hash) (E F X : Type) :=
  Transaction.State (SharedTrie sha3) Key (fun _ => Bytes) E F X

/-- The root over the ledger's leaves. -/
def qRoot (ledger : TrieLedger sha3 E F X) (unique : Bool) (memo : Anchors) : Option Hash :=
  (ledger.store.trie.root sha3 unique memo).map Prod.fst

/-- The leaf map, the root, the logs and the fresh leaf counter of two ledgers are the same. -/
structure SameLedger (first second : TrieLedger sha3 E F X) : Prop where
  leaves : ∀ key, first.store.trie.get key = second.store.trie.get key
  root : ∀ unique unique' memo memo', memo.Valid sha3 → memo'.Valid sha3 →
    ∃ root, qRoot first unique memo = some root ∧ qRoot second unique' memo' = some root
  blockEvents : first.events = second.events
  sideEvents : first.sideEvents = second.sideEvents
  blockFreshLeaves : first.fresh = second.fresh

/-- The root depends on the leaves only. -/
theorem qRoot_eq (ledger : TrieLedger sha3 E F X) (unique : Bool) {memo : Anchors}
    (valid : memo.Valid sha3) :
    qRoot ledger unique memo = some (mapHash sha3 ledger.store.trie.get 0 0) := by
  obtain ⟨_, _, computed, _⟩ := Trie.root_spec sha3 ledger.store.coherent unique valid
  rw [qRoot, computed]
  rfl

theorem SameLedger.of_same {first second : TrieLedger sha3 E F X} (same : Same first second) :
    SameLedger first second where
  leaves := same.store
  root unique unique' memo memo' valid valid' := by
    have leaves : first.store.trie.get = second.store.trie.get := funext same.store
    exact ⟨_, qRoot_eq first unique valid, leaves ▸ qRoot_eq second unique' valid'⟩
  blockEvents := same.events
  sideEvents := same.sideEvents
  blockFreshLeaves := same.fresh

/-- `apply_atomic` is a transaction. For an outermost call: where the program returns false, panics
or ends above the ceiling, the call returns false and the ledger is as before; otherwise the call
returns true and the ledger is as after the plain run of the program, in which every failed inner
program contributed nothing. The run with a journal agrees with the plain one. -/
theorem applyAtomic_transaction (ledger : TrieLedger sha3 E F X)
    (outermost : ledger.journal = none) (program : Program Key (fun _ => Bytes) E F X Bool) :
    ((program.plain ledger).1 ≠ some true ∨ overCeiling (program.plain ledger).2 = true →
      (applyAtomic program.exec ledger).1 = false ∧
        SameLedger (applyAtomic program.exec ledger).2 ledger) ∧
    ((program.plain ledger).1 = some true ∧ overCeiling (program.plain ledger).2 = false →
      (applyAtomic program.exec ledger).1 = true ∧
        SameLedger (applyAtomic program.exec ledger).2 (program.plain ledger).2) := by
  have outcome := applyAtomic_agrees program ledger outermost
  split at outcome
  next commits =>
    refine ⟨fun fails => ?_, fun _ => ⟨outcome.1, .of_same outcome.2⟩⟩
    rcases fails with refused | heavy
    · exact absurd commits.1 refused
    · exact absurd heavy commits.2
  next fails =>
    have same := SameLedger.of_same outcome.2
    refine ⟨fun _ => ⟨outcome.1, { same with }⟩, fun commits => absurd ⟨commits.1, ?_⟩ fails⟩
    simp [commits.2]

/-- An empty ledger over the sample hash. -/
def sampleLedger : TrieLedger sampleSha3 Unit Unit Unit where
  store := ⟨Trie.new sampleSha3, Trie.new_coherent sampleSha3, fun _ => true, 0⟩
  events := []
  sideEvents := []
  fresh := 0
  ceiling := none
  journal := none
  extra := ()

/-- A program whose inner program succeeds before the outer one fails. -/
def sampleProgram : Program Key (fun _ => Bytes) Unit Unit Unit Bool :=
  .write 1 [1] <| .atomic (.write 2 [2] <| .event () <| .done true) fun _ => .done false

/-- The inner success is rolled back with the outer failure. -/
theorem applyAtomic_transaction_sample :
    sampleLedger.journal = none ∧
      (applyAtomic sampleProgram.exec sampleLedger).1 = false ∧
      SameLedger (applyAtomic sampleProgram.exec sampleLedger).2 sampleLedger := by
  refine ⟨rfl, (applyAtomic_transaction sampleLedger rfl sampleProgram).1 (.inl ?_)⟩
  have returned : (sampleProgram.plain sampleLedger).1 = some false := rfl
  rw [returned]
  decide

end QuantovaChain.Ledger
