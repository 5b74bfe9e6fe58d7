import QuantovaChain.Ledger.Atomic
import QuantovaChain.Library.WriteBack

/-!
# What is persisted of a ledger

A ledger is persisted by batches of the leaves that were written since the last one. The set of
these leaves is kept by the trie beside the set for the root, and goes through everything that
happens to a ledger: writes outside and inside of transactions, rollbacks, which write to the trie
directly, roots and compactions, which write no leaf, and copies. A block is executed on a copy,
which becomes the ledger when the block is final.

What the batches bring to the disk is behind the ledger by the dirty leaves, and so it is behind
every copy taken since the last batch. It need not be behind an older copy: what was written after
the copy and persisted since is not dirty there.
-/

namespace QuantovaChain.State.Trie

variable {sha3 : Bytes → Hash} {trie rooted : Trie} {memo memo' : Anchors} {unique : Bool}
  {hash : Hash}

/-- A root leaves the leaves and what is to be persisted as they are. -/
theorem root_keeps (computed : trie.root sha3 unique memo = some (hash, rooted, memo')) :
    rooted.leaves = trie.leaves ∧ rooted.persistDirty = trie.persistDirty := by
  unfold root at computed
  split at computed
  · cases computed
    exact ⟨rfl, rfl⟩
  · obtain ⟨_, _, ended⟩ := Option.bind_eq_some_iff.mp computed
    cases ended
    exact ⟨rfl, rfl⟩

theorem root_coherent (coherent : trie.Coherent sha3) (valid : memo.Valid sha3)
    (computed : trie.root sha3 unique memo = some (hash, rooted, memo')) :
    rooted.Coherent sha3 ∧ memo'.Valid sha3 := by
  obtain ⟨trie', last, computed', memoValid, clean, _⟩ := root_spec sha3 coherent unique valid
  rw [computed, Option.some.injEq] at computed'
  cases computed'
  exact ⟨clean.coherent sha3, memoValid⟩

theorem takePersistDirty_coherent (coherent : trie.Coherent sha3) :
    trie.takePersistDirty.2.Coherent sha3 :=
  coherent

end QuantovaChain.State.Trie

namespace QuantovaChain.Ledger

open State Transaction Std

/-- The memo of the process, all of whose anchors are right. -/
structure Memo (sha3 : Bytes → Hash) where
  anchors : Anchors
  valid : anchors.Valid sha3

variable {sha3 : Bytes → Hash} {E F X : Type}

namespace SharedTrie

def root (shared : SharedTrie sha3) (memo : Memo sha3) :
    Option (Hash × SharedTrie sha3 × Memo sha3) :=
  match computed : shared.trie.root sha3 (shared.unique shared.tick) memo.anchors with
  | none => none
  | some (hash, trie, anchors) =>
    have rooted := Trie.root_coherent shared.coherent memo.valid computed
    some (hash, ⟨trie, rooted.1, shared.unique, shared.tick + 1⟩, ⟨anchors, rooted.2⟩)

/-- A root is always there, and leaves the leaves and what is to be persisted as they are. -/
theorem root_spec (shared : SharedTrie sha3) (memo : Memo sha3) :
    ∃ hash after memo', shared.root memo = some (hash, after, memo') ∧
      after.trie.get = shared.trie.get ∧ after.trie.persistDirty = shared.trie.persistDirty := by
  obtain ⟨trie, anchors, computed, _⟩ :=
    Trie.root_spec sha3 shared.coherent (shared.unique shared.tick) memo.valid
  obtain ⟨same, sameDirty⟩ := Trie.root_keeps computed
  unfold root
  split
  next failed =>
    rw [computed] at failed
    cases failed
  next hash rooted last found =>
    rw [computed, Option.some.injEq, Prod.mk.injEq, Prod.mk.injEq] at found
    obtain ⟨_, rfl, _⟩ := found
    refine ⟨_, _, _, rfl, funext fun key => ?_, sameDirty⟩
    rw [Trie.get, same, Trie.get]

def compact (shared : SharedTrie sha3) (uniqueLeaves uniqueNodes : Bool) : SharedTrie sha3 where
  trie := shared.trie.compact uniqueLeaves uniqueNodes
  coherent := Trie.compact_coherent sha3 shared.coherent uniqueLeaves uniqueNodes
  unique := shared.unique
  tick := shared.tick

def takePersistDirty (shared : SharedTrie sha3) : List Key × SharedTrie sha3 :=
  (shared.trie.takePersistDirty.1, ⟨shared.trie.takePersistDirty.2,
    Trie.takePersistDirty_coherent shared.coherent, shared.unique, shared.tick⟩)

/-- A copy, with its own answers to whether its leaves are shared. -/
def clone (shared : SharedTrie sha3) (unique : Nat → Bool) : SharedTrie sha3 :=
  { shared with unique }

end SharedTrie

def takeDirtyEntries (ledger : TrieLedger sha3 E F X) :
    WriteBack.Batch Key Bytes × TrieLedger sha3 E F X :=
  let (keys, store) := ledger.store.takePersistDirty
  (WriteBack.collect store.trie.get keys, { ledger with store })

/-- What happens to one ledger. -/
inductive LedgerAct (E F X : Type) : Type 1
  | writeLeaf (key : Key) (value : Bytes)
  | eraseLeaf (key : Key)
  | applyAtomic (program : Program Key (fun _ => Bytes) E F X Bool)
  | qRoot
  | compactState (uniqueLeaves uniqueNodes : Bool)

/-- One act. It fails only where the code would panic. -/
def LedgerAct.apply (ledger : TrieLedger sha3 E F X) (memo : Memo sha3) :
    LedgerAct E F X → Option (TrieLedger sha3 E F X × Memo sha3)
  | writeLeaf key value => some (ledger.write key value, memo)
  | eraseLeaf key => some (ledger.erase key, memo)
  | applyAtomic program => some ((Transaction.applyAtomic program.exec ledger).2, memo)
  | qRoot => (ledger.store.root memo).map fun (_, store, memo) => ({ ledger with store }, memo)
  | compactState uniqueLeaves uniqueNodes =>
    some ({ ledger with store := ledger.store.compact uniqueLeaves uniqueNodes }, memo)

/-! ## One ledger -/

/-- A map is behind the leaves of a ledger by the dirty ones. -/
def Trails (disk : Key → Option Bytes) (shared : SharedTrie sha3) : Prop :=
  WriteBack.Behind disk shared.trie.get {key | key ∈ shared.trie.persistDirty}

section Trails

variable {disk : Key → Option Bytes} {shared : SharedTrie sha3} {memo : Memo sha3}

theorem mem_persistDirty_markChanged {trie : Trie} {key other : Key}
    (marked : other = key ∨ other ∈ trie.persistDirty) :
    other ∈ (trie.markChanged key).persistDirty := by
  rw [Trie.markChanged, ExtTreeSet.mem_insert]
  exact marked.imp (fun here => by rw [here, compare_self]) id

theorem Trails.insert (trails : Trails disk shared) (key : Key) (value : Bytes) :
    Trails disk (shared.insert key value) := by
  refine trails.write key (fun other apart => ?_) fun other marked => ?_
  · rw [SharedTrie.get_insert, if_neg (Ne.symm apart)]
  · exact mem_persistDirty_markChanged marked

theorem Trails.remove (trails : Trails disk shared) (key : Key) :
    Trails disk (shared.remove key) := by
  by_cases present : (shared.trie.get key).isSome
  · refine trails.write key (fun other apart => ?_) fun other marked => ?_
    · rw [SharedTrie.get_remove, if_neg (Ne.symm apart)]
    · have removed : (shared.remove key).trie = _ := congrArg Prod.snd (if_pos present)
      rw [Set.mem_ofPred_eq, removed]
      exact mem_persistDirty_markChanged marked
  · have unchanged : (shared.remove key).trie = shared.trie := congrArg Prod.snd (if_neg present)
    unfold Trails
    rw [unchanged]
    exact trails

/-- Every act keeps the disk behind the ledger, and none fails. -/
theorem LedgerAct.apply_trails {ledger : TrieLedger sha3 E F X} (act : LedgerAct E F X)
    (memo : Memo sha3) :
    ∃ after memo', act.apply ledger memo = some (after, memo') ∧
      ∀ disk, Trails disk ledger.store → Trails disk after.store := by
  cases act with
  | writeLeaf key value => exact ⟨_, _, rfl, fun _ trails => trails.insert key value⟩
  | eraseLeaf key => exact ⟨_, _, rfl, fun _ trails => trails.remove key⟩
  | applyAtomic program =>
    refine ⟨_, _, rfl, fun disk trails => ?_⟩
    have inserts : ∀ (store : SharedTrie sha3) (key : Key) (value : Bytes), Trails disk store →
        Trails disk (KeyedStore.insert store key value) :=
      fun _ key value trails => trails.insert key value
    have removes : ∀ (store : SharedTrie sha3) (key : Key), Trails disk store →
        Trails disk (KeyedStore.remove store key) := fun _ key trails => trails.remove key
    exact applyAtomic_keeps inserts removes (program.exec_keeps inserts removes trails)
  | qRoot =>
    obtain ⟨hash, store, memo', computed, same, sameDirty⟩ := ledger.store.root_spec memo
    refine ⟨{ ledger with store }, memo', by rw [apply, computed]; rfl, fun disk trails => ?_⟩
    unfold Trails at trails ⊢
    dsimp only
    rw [same, sameDirty]
    exact trails
  | compactState uniqueLeaves uniqueNodes =>
    refine ⟨_, _, rfl, fun disk trails key clean => ?_⟩
    exact (trails key clean).trans (Overlay.get_fold _ _ _ _).symm

end Trails

/-! ## The ledger and its copies -/

/-- A copy of the ledger, with the number of batches there were when it was taken. -/
structure LedgerCopy (sha3 : Bytes → Hash) (E F X : Type) where
  ledger : TrieLedger sha3 E F X
  taken : Nat

/-- A process with its ledger, the copies that are alive and the batches so far. -/
structure Process (sha3 : Bytes → Hash) (E F X : Type) where
  ledger : TrieLedger sha3 E F X
  copies : List (LedgerCopy sha3 E F X)
  batches : List (WriteBack.Batch Key Bytes)
  memo : Memo sha3

/-- What happens in a process, to the ledger or to the copy at a position. -/
inductive ProcessOp (E F X : Type) : Type 1
  | act (act : LedgerAct E F X)
  | actOn (copy : Nat) (act : LedgerAct E F X)
  | clone (unique : Nat → Bool)
  | cloneOf (copy : Nat) (unique : Nat → Bool)
  | adopt (copy : Nat)
  | takeDirtyEntries

namespace Process

/-- A process that starts with a ledger. -/
def opening (ledger : TrieLedger sha3 E F X) (memo : Memo sha3) : Process sha3 E F X :=
  ⟨ledger, [], [], memo⟩

/-- One step. A position without a copy is left alone. -/
def step (process : Process sha3 E F X) : ProcessOp E F X → Option (Process sha3 E F X)
  | .act act => do
    let (ledger, memo) ← act.apply process.ledger process.memo
    return { process with ledger, memo }
  | .actOn position act =>
    match process.copies[position]? with
    | none => some process
    | some copy => do
      let (ledger, memo) ← act.apply copy.ledger process.memo
      return { process with copies := process.copies.set position { copy with ledger }, memo }
  | .clone unique =>
    let ledger := { process.ledger with store := process.ledger.store.clone unique }
    some { process with copies := process.copies ++ [⟨ledger, process.batches.length⟩] }
  | .cloneOf position unique =>
    match process.copies[position]? with
    | none => some process
    | some copy =>
      let ledger := { copy.ledger with store := copy.ledger.store.clone unique }
      some { process with copies := process.copies ++ [{ copy with ledger }] }
  | .adopt position =>
    match process.copies[position]? with
    | none => some process
    | some copy =>
      some { process with ledger := copy.ledger, copies := process.copies.eraseIdx position }
  | .takeDirtyEntries =>
    let (batch, ledger) := Ledger.takeDirtyEntries process.ledger
    some { process with ledger, batches := process.batches ++ [batch] }

def run (process : Process sha3 E F X) (ops : List (ProcessOp E F X)) :
    Option (Process sha3 E F X) :=
  ops.foldlM step process

/-- The leaves of the ledger. -/
def leaves (process : Process sha3 E F X) : Key → Option Bytes := process.ledger.store.trie.get

/-- A copy that is adopted was taken since the last batch. -/
def Timely (process : Process sha3 E F X) : ProcessOp E F X → Prop
  | .adopt position => ∀ copy, process.copies[position]? = some copy →
    copy.taken = process.batches.length
  | _ => True

/-- The copies that are adopted along a run were taken since the last batch. -/
def TimelyRun (process : Process sha3 E F X) (ops : List (ProcessOp E F X)) : Prop :=
  ∀ earlier op later middle, ops = earlier ++ op :: later → process.run earlier = some middle →
    middle.Timely op

theorem TimelyRun.nil (process : Process sha3 E F X) : process.TimelyRun [] := by
  intro earlier op later middle cut
  simp at cut

theorem TimelyRun.cons {process after : Process sha3 E F X} {op : ProcessOp E F X}
    {ops : List (ProcessOp E F X)} (timely : process.Timely op)
    (stepped : process.step op = some after) (rest : after.TimelyRun ops) :
    process.TimelyRun (op :: ops) := by
  intro earlier past later middle cut ran
  cases earlier with
  | nil =>
    cases cut
    cases ran
    exact timely
  | cons first earlier =>
    cases cut
    rw [run, List.foldlM_cons, stepped] at ran
    exact rest earlier past later middle rfl ran

/-- The disk is behind the ledger and behind every copy taken since the last batch. -/
structure Kept (disk : Key → Option Bytes) (process : Process sha3 E F X) : Prop where
  ledger : Trails (WriteBack.applyAll disk process.batches) process.ledger.store
  copies : ∀ copy ∈ process.copies, copy.taken ≤ process.batches.length ∧
    (copy.taken = process.batches.length →
      Trails (WriteBack.applyAll disk process.batches) copy.ledger.store)

variable {disk : Key → Option Bytes} {process : Process sha3 E F X}

/-- A batch brings the disk up to date. -/
theorem Kept.take (kept : Kept disk process) :
    ∃ after, process.step .takeDirtyEntries = some after ∧ Kept disk after ∧
      WriteBack.applyAll disk after.batches = after.leaves := by
  have current : WriteBack.applyAll disk (process.batches ++
      [(Ledger.takeDirtyEntries process.ledger).1]) = process.leaves := by
    rw [WriteBack.applyAll_concat]
    exact kept.ledger.flush fun key dirty => ExtTreeSet.mem_toList.mpr dirty
  refine ⟨_, rfl, ⟨?_, fun copy alive => ?_⟩, current⟩
  · have refreshed : Trails process.leaves (Ledger.takeDirtyEntries process.ledger).2.store :=
      WriteBack.Behind.refl _ _
    rwa [← current] at refreshed
  · have earlier := (kept.copies copy alive).1
    rw [List.length_append, List.length_singleton]
    exact ⟨by omega, fun fresh => by omega⟩

/-- Every timely step succeeds and keeps the disk behind. -/
theorem Kept.step (kept : Kept disk process) (op : ProcessOp E F X) (timely : process.Timely op) :
    ∃ after, process.step op = some after ∧ Kept disk after := by
  cases op with
  | act act =>
    obtain ⟨ledger, memo, applied, trails⟩ := act.apply_trails process.memo
    refine ⟨{ process with ledger, memo }, ?_, trails _ kept.ledger, kept.copies⟩
    rw [Process.step, applied]
    rfl
  | actOn position act =>
    rw [Process.step]
    split
    next => exact ⟨process, rfl, kept⟩
    next copy alive =>
    obtain ⟨earlier, trailing⟩ := kept.copies copy (List.mem_of_getElem? alive)
    obtain ⟨ledger, memo, applied, trails⟩ := act.apply_trails process.memo
    refine ⟨{ process with copies := process.copies.set position { copy with ledger }, memo }, ?_,
      kept.ledger, ?_⟩
    · rw [applied]
      rfl
    · intro other among
      obtain before | rfl := List.mem_or_eq_of_mem_set among
      · exact kept.copies other before
      · exact ⟨earlier, fun fresh => trails _ (trailing fresh)⟩
  | clone unique =>
    refine ⟨_, rfl, kept.ledger, fun copy among => ?_⟩
    obtain before | rfl := List.mem_append.mp among |>.imp_right List.mem_singleton.mp
    · exact kept.copies copy before
    · exact ⟨Nat.le_refl _, fun _ => kept.ledger⟩
  | cloneOf position unique =>
    rw [Process.step]
    split
    next => exact ⟨process, rfl, kept⟩
    next copy alive =>
    refine ⟨_, rfl, kept.ledger, fun other among => ?_⟩
    obtain before | rfl := List.mem_append.mp among |>.imp_right List.mem_singleton.mp
    · exact kept.copies other before
    · exact kept.copies copy (List.mem_of_getElem? alive)
  | adopt position =>
    rw [Process.step]
    split
    next => exact ⟨process, rfl, kept⟩
    next copy alive =>
    refine ⟨_, rfl, ?_, fun other among => kept.copies other (List.mem_of_mem_eraseIdx among)⟩
    exact (kept.copies copy (List.mem_of_getElem? alive)).2 (timely copy alive)
  | takeDirtyEntries =>
    obtain ⟨after, stepped, kept, _⟩ := kept.take
    exact ⟨after, stepped, kept⟩

theorem run_concat (process : Process sha3 E F X) (ops : List (ProcessOp E F X))
    (op : ProcessOp E F X) :
    process.run (ops ++ [op]) = (process.run ops).bind fun middle => middle.step op := by
  rw [run, List.foldlM_append]
  simp only [List.foldlM_cons, List.foldlM_nil, Option.bind_eq_bind, run]
  congr
  funext middle
  exact Option.bind_fun_some _

/-- Every timely run succeeds and keeps the disk behind. -/
theorem run_kept (ledger : TrieLedger sha3 E F X) (memo : Memo sha3)
    (ops : List (ProcessOp E F X)) (timely : (opening ledger memo).TimelyRun ops) :
    ∃ finish, (opening ledger memo).run ops = some finish ∧
      Kept ledger.store.trie.get finish := by
  induction ops using List.reverseRecOn with
  | nil => exact ⟨_, rfl, WriteBack.Behind.refl _ _, nofun⟩
  | append_singleton ops op hypothesis =>
    have before : (opening ledger memo).TimelyRun ops := by
      rintro earlier past later middle rfl ran
      exact timely earlier past (later ++ [op]) middle (by simp) ran
    obtain ⟨middle, ran, kept⟩ := hypothesis before
    obtain ⟨after, stepped, keptAfter⟩ := kept.step op (timely ops op [] middle rfl ran)
    refine ⟨after, ?_, keptAfter⟩
    rw [run_concat, ran, Option.bind_some, stepped]

end Process

/-- The batches of the dirty leaves are complete: in every run of writes, erasures, transactions
that commit or not, roots, compactions and copies, in which a copy becomes the ledger only when it
was taken since the last batch, the batches applied one after the other to the leaves at the start
give the leaves of the ledger right after each batch. No step of such a run fails. By induction on
the run, what the batches so far do not give is dirty. -/
theorem takeDirtyEntries_complete (ledger : TrieLedger sha3 E F X) (memo : Memo sha3)
    (ops : List (ProcessOp E F X)) (timely : (Process.opening ledger memo).TimelyRun ops) :
    ∃ finish, (Process.opening ledger memo).run ops = some finish ∧
      ∀ earlier, ops = earlier ++ [.takeDirtyEntries] →
        WriteBack.applyAll (Process.opening ledger memo).leaves finish.batches = finish.leaves := by
  obtain ⟨finish, ran, _⟩ := Process.run_kept ledger memo ops timely
  refine ⟨finish, ran, ?_⟩
  rintro earlier rfl
  have before : (Process.opening ledger memo).TimelyRun earlier := by
    rintro first past later middle rfl ran
    exact timely first past (later ++ [.takeDirtyEntries]) middle (by simp) ran
  obtain ⟨middle, ranMiddle, kept⟩ := Process.run_kept ledger memo earlier before
  obtain ⟨after, stepped, _, current⟩ := kept.take
  rw [Process.run_concat, ranMiddle, Option.bind_some, stepped, Option.some.injEq] at ran
  subst ran
  exact current

/-- The memo of a fresh process. -/
def freshMemo : Memo sampleSha3 := ⟨Anchors.empty, Anchors.empty_valid sampleSha3⟩

/-- A copy is written to and adopted between two batches. -/
def sampleOps : List (ProcessOp Unit Unit Unit) :=
  [.act (.applyAtomic sampleProgram), .takeDirtyEntries, .clone fun _ => false,
    .actOn 0 (.writeLeaf 1 [1]), .adopt 0, .takeDirtyEntries]

/-- The leaf that was written to the copy is persisted. -/
theorem takeDirtyEntries_complete_sample :
    ∃ finish, (Process.opening sampleLedger freshMemo).run sampleOps = some finish ∧
      WriteBack.applyAll (Process.opening sampleLedger freshMemo).leaves finish.batches 1 =
        some [1] := by
  have timely : (Process.opening sampleLedger freshMemo).TimelyRun sampleOps := by
    refine .cons trivial rfl (.cons trivial rfl (.cons trivial rfl (.cons trivial rfl
      (.cons ?_ rfl (.cons trivial rfl (.nil _))))))
    intro copy alive
    cases alive
    rfl
  obtain ⟨finish, ran, current⟩ := takeDirtyEntries_complete sampleLedger freshMemo sampleOps timely
  refine ⟨finish, ran, ?_⟩
  rw [current (sampleOps.take 5) rfl]
  cases ran
  decide +kernel

/-- A copy that is older than the last batch: the leaf that was written and persisted in between is
not in the copy, and nothing takes it back from the disk. -/
def staleOps : List (ProcessOp Unit Unit Unit) :=
  [.clone fun _ => false, .act (.writeLeaf 1 [1]), .takeDirtyEntries, .adopt 0, .takeDirtyEntries]

theorem takeDirtyEntries_stale :
    ∃ finish, (Process.opening sampleLedger freshMemo).run staleOps = some finish ∧
      WriteBack.applyAll (Process.opening sampleLedger freshMemo).leaves finish.batches ≠
        finish.leaves := by
  refine ⟨_, rfl, fun same => ?_⟩
  have drifted := congrFun same 1
  exact absurd drifted (by decide +kernel)

end QuantovaChain.Ledger
