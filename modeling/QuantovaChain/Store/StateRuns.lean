import QuantovaChain.Store.StateRecovery

/-!
# Runs of the state store

A run is a sequence of writes, commits, compactions, crashes and openings over one file. Next to the
store and its file it notes what the file has to give back: the commits whose records are in the
file, each with the end of its record and with what the store held when it was made.
-/

namespace QuantovaChain.Store

open State (Bytes Hash)
open StateStore

structure StoreRun where
  store : Option StateStore
  file : LogFile
  commits : List (Nat × Snapshot)
  /-- Whether something was written since the last commit. -/
  written : Bool

inductive StoreEvent
  | put (key : Key) (value : Bytes)
  | delete (key : Key)
  | apply (changes : List (Key × Option Bytes))
  | commit (height : U64) (root : Hash)
  | compact (fresh : Salt)
  | close
  | crash (keep : Nat)
  | openStore (fresh compacted : Salt) (contended skipped : Bool)

/-- The values that an event writes are no longer than a program can hold. -/
def StoreEvent.Fits : StoreEvent → Prop
  | .put _ value => value.length < 2 ^ 63
  | .apply changes => ∀ change ∈ changes, (changeRecord change).Fits
  | _ => True

namespace StoreRun

/-- A call on the store, if it is open. -/
def call (run : StoreRun) (act : StateStore → LogFile → StateStore × LogFile) (written : Bool) :
    StoreRun :=
  match run.store with
  | none => run
  | some store =>
    let (store, file) := act store run.file
    { run with store := some store, file, written := run.written || written }

/-- A compaction. It leaves one commit in the file. -/
def compacted (fresh : Salt) (run : StoreRun) : StoreRun :=
  match run.store with
  | none => run
  | some store =>
    let (store, file) := store.compact fresh run.file
    ⟨some store, file, compactedCommits file run.commits, run.written⟩

/-- A crash keeps a first part of the file, which is no shorter than what was synced. -/
def kept (run : StoreRun) (keep : Nat) : Nat :=
  max run.file.synced (min keep run.file.bytes.length)

/-- A commit. Its record is the last of the file. -/
def committed (run : StoreRun) (height : U64) (root : Hash) : StoreRun :=
  match run.store with
  | none => run
  | some store =>
    let (store, file) := store.commit run.file height root
    ⟨some store, file, run.commits ++ [(file.bytes.length, store.snapshot)], false⟩

/-- The store is opened by a process that finds it closed. -/
def opened (run : StoreRun) (fresh compacted : Salt) (contended skipped : Bool) : StoreRun :=
  match run.store with
  | some _ => run
  | none =>
    match recover fresh contended none run.file with
    | (file, .error _) => { run with file }
    | (file, .ok (store, committedLen)) =>
      let opened := { run with store := some store, file, written := false }
      if store.shouldCompact committedLen ∧ skipped = false then opened.compacted compacted
      else opened

def step (run : StoreRun) : StoreEvent → StoreRun
  | .put key value => run.call (fun store file => store.putAccount file key value) true
  | .delete key => run.call (fun store file => store.deleteAccount file key) true
  | .apply changes =>
    run.call (fun store file => store.applyAccounts file changes) !changes.isEmpty
  | .commit height root => run.committed height root
  | .compact fresh => run.compacted fresh
  | .close => { run with store := none, written := false }
  | .crash keep =>
    ⟨none, ⟨run.file.bytes.take (run.kept keep), run.file.synced⟩,
      run.commits.filter fun commit => commit.1 ≤ run.kept keep, false⟩
  | .openStore fresh compacted contended skipped => run.opened fresh compacted contended skipped

/-- A file without a header, and nothing committed. -/
def start (file : Bytes) : StoreRun := ⟨none, ⟨file, 0⟩, [], false⟩

def after (run : StoreRun) (events : List StoreEvent) : StoreRun := events.foldl step run

/-- The log is compacted only when nothing was written since the last commit. -/
def Careful : StoreRun → List StoreEvent → Prop
  | _, [] => True
  | run, event :: rest =>
    (∀ fresh, event = .compact fresh → run.written = false) ∧ Careful (run.step event) rest

/-- The commits say what the file gives back. -/
def Sound (run : StoreRun) : Prop :=
  (run.store = none ∧ Stopped run.file run.commits) ∨
    ∃ store records, run.store = some store ∧ Running store run.file run.commits records ∧
      (run.written = false → Quiet store run.commits)

variable {run : StoreRun}

theorem Sound.stopped (sound : run.Sound) : Stopped run.file run.commits := by
  rcases sound with ⟨-, stopped⟩ | ⟨store, records, -, running, -⟩
  · exact stopped
  · exact running.stopped

theorem Sound.crash (sound : run.Sound) (keep : Nat) : (run.step (.crash keep)).Sound := by
  have synced := sound.stopped.synced
  refine .inl ⟨rfl, sound.stopped.crash ?_ ?_⟩
  · exact Nat.le_max_left _ _
  · unfold kept
    omega

/-- Opening a file gives what its last commit holds, with or without a compaction. -/
theorem open_spec {file : LogFile} {commits : List (Nat × Snapshot)} (stopped : Stopped file commits)
    (fresh compacted : Salt) (skipped : Bool) :
    ∃ store after, StateStore.openStore fresh compacted false skipped file = (after, .ok store) ∧
      store.snapshot = lastOr .empty commits := by
  obtain ⟨store, after, records, committedLen, recovered, running, snapshotEq⟩ :=
    stopped.recover fresh
  rw [StateStore.openStore, recovered]
  simp only
  split
  · obtain ⟨-, -, -, same⟩ := running.compact snapshotEq compacted
    exact ⟨_, _, rfl, same.trans snapshotEq⟩
  · exact ⟨_, _, rfl, snapshotEq⟩

theorem Sound.call (sound : run.Sound)
    {act : StateStore → LogFile → StateStore × LogFile} {written : Bool}
    (keeps : ∀ store records, Running store run.file run.commits records →
      ∃ records, Running (act store run.file).1 (act store run.file).2 run.commits records)
    (same : written = false → ∀ store, (act store run.file).1.snapshot = store.snapshot) :
    (run.call act written).Sound := by
  unfold StoreRun.call
  rcases sound with ⟨closed, stopped⟩ | ⟨store, records, opened, running, quiet⟩
  · rw [closed]
    exact .inl ⟨closed, stopped⟩
  · rw [opened]
    obtain ⟨records, running⟩ := keeps store records running
    refine .inr ⟨_, records, rfl, running, fun unwritten => ?_⟩
    obtain ⟨before, now⟩ := Bool.or_eq_false_iff.mp unwritten
    exact (same now store).trans (quiet before)

theorem Sound.compacted (sound : run.Sound) (careful : run.written = false)
    (fresh : Salt) : (run.compacted fresh).Sound := by
  unfold StoreRun.compacted
  rcases sound with ⟨closed, stopped⟩ | ⟨store, records, opened, running, quiet⟩
  · rw [closed]
    exact .inl ⟨closed, stopped⟩
  · rw [opened]
    obtain ⟨records, running, still, -⟩ := running.compact (quiet careful) fresh
    exact .inr ⟨_, records, rfl, running, fun _ => still⟩

theorem Sound.committed (sound : run.Sound) (height : U64) (root : Hash) :
    (run.committed height root).Sound := by
  unfold StoreRun.committed
  rcases sound with ⟨closed, stopped⟩ | ⟨store, records, opened, running, -⟩
  · rw [closed]
    exact .inl ⟨closed, stopped⟩
  · rw [opened]
    have still : Quiet (store.commit run.file height root).1 (run.commits ++
        [((store.commit run.file height root).2.bytes.length,
          (store.commit run.file height root).1.snapshot)]) := by
      rw [Quiet, Running.lastOr_concat]
    exact .inr ⟨_, _, rfl, running.commit height root, fun _ => still⟩

theorem Sound.opened (sound : run.Sound) (fresh compacted : Salt)
    (contended skipped : Bool) : (run.opened fresh compacted contended skipped).Sound := by
  unfold StoreRun.opened
  rcases sound with ⟨closed, stopped⟩ | ⟨store, records, opened, running, quiet⟩
  · rw [closed]
    cases contended with
    | true =>
      obtain ⟨after, refused, still⟩ := stopped.refused fresh
      rw [refused]
      exact .inl ⟨rfl, still⟩
    | false =>
      obtain ⟨store, after, records, committedLen, recovered, running, snapshotEq⟩ :=
        stopped.recover fresh
      have opened : Sound { run with store := some store, file := after, written := false } :=
        .inr ⟨store, records, rfl, running, fun _ => snapshotEq⟩
      rw [recovered]
      simp only
      split
      · exact opened.compacted rfl compacted
      · exact opened
  · rw [opened]
    exact .inr ⟨store, records, opened, running, quiet⟩

theorem Sound.step (sound : run.Sound) {event : StoreEvent} (fits : event.Fits)
    (careful : ∀ fresh, event = .compact fresh → run.written = false) : (run.step event).Sound := by
  cases event with
  | put key value => exact sound.call (fun _ _ running => ⟨_, running.put fits⟩) nofun
  | delete key => exact sound.call (fun _ _ running => ⟨_, running.delete key⟩) nofun
  | apply changes =>
    refine sound.call (fun _ _ running => ⟨_, running.apply fits⟩) fun unwritten store => ?_
    cases changes with
    | nil => rfl
    | cons change rest => cases unwritten
  | commit height root => exact sound.committed height root
  | compact fresh => exact sound.compacted (careful fresh rfl) fresh
  | close => exact .inl ⟨rfl, sound.stopped⟩
  | crash keep => exact sound.crash keep
  | openStore fresh compacted contended skipped =>
    exact sound.opened fresh compacted contended skipped

theorem Sound.after (sound : run.Sound) {events : List StoreEvent}
    (fits : ∀ event ∈ events, event.Fits) (careful : Careful run events) :
    (run.after events).Sound := by
  induction events generalizing run with
  | nil => exact sound
  | cons event rest hypothesis =>
    exact hypothesis (sound.step (fits event List.mem_cons_self) careful.1)
      (List.forall_mem_cons.mp fits).2 careful.2

/-- After every run, a crash leaves a file that is opened with what the last commit in it holds, and
so does the end of a process. A compaction, and a new opening when nothing was written since the
last commit, change nothing of what the store holds. By induction on the run, the records in the
file give what the store held at its commits. -/
theorem state_store_recovers (file : Bytes) (short : file.length < headerLen)
    (events : List StoreEvent) (fits : ∀ event ∈ events, event.Fits)
    (careful : Careful (start file) events) :
    let run := (start file).after events
    (∀ keep fresh compacted skipped, ∃ store leftFile,
      StateStore.openStore fresh compacted false skipped (run.step (.crash keep)).file =
          (leftFile, .ok store) ∧
        store.snapshot =
          lastOr .empty (run.commits.filter fun commit => commit.1 ≤ run.kept keep)) ∧
    (∀ fresh compacted skipped, ∃ store leftFile,
      StateStore.openStore fresh compacted false skipped run.file = (leftFile, .ok store) ∧
        store.snapshot = lastOr .empty run.commits) ∧
    ∀ store, run.store = some store → run.written = false →
      (∀ fresh, (store.compact fresh run.file).1.snapshot = store.snapshot) ∧
      ∀ fresh compacted skipped, ∃ again leftFile,
        StateStore.openStore fresh compacted false skipped run.file = (leftFile, .ok again) ∧
          again.snapshot = store.snapshot := by
  intro run
  have sound : run.Sound :=
    Sound.after (.inl ⟨rfl, .inl ⟨short, Nat.zero_le _, rfl⟩⟩) fits careful
  refine ⟨fun keep fresh compacted skipped => ?_, fun fresh compacted skipped => ?_, ?_⟩
  · exact open_spec (sound.crash keep).stopped fresh compacted skipped
  · exact open_spec sound.stopped fresh compacted skipped
  · intro store opening unwritten
    rcases sound with ⟨closed, -⟩ | ⟨store', records, opened, running, quiet⟩
    · cases closed.symm.trans opening
    · cases opened.symm.trans opening
      have still := quiet unwritten
      refine ⟨fun fresh => ?_, fun fresh compacted skipped => ?_⟩
      · obtain ⟨-, -, -, same⟩ := running.compact still fresh
        exact same
      · obtain ⟨again, leftFile, opened, snapshotEq⟩ :=
          open_spec running.stopped fresh compacted skipped
        exact ⟨again, leftFile, opened, snapshotEq.trans still.symm⟩

/-- A value is committed, another is written, and a crash leaves no more than what was synced. -/
def committedThenWritten : List StoreEvent :=
  let salt : Salt := Vector.replicate 16 7
  [.openStore salt salt false false, .put (Vector.replicate 32 1) [1, 2, 3],
    .commit 5 (Vector.replicate 32 9), .put (Vector.replicate 32 2) [4]]

theorem state_store_recovers_committed :
    let salt : Salt := Vector.replicate 16 7
    let run := (start []).after committedThenWritten
    ∃ store leftFile, StateStore.openStore salt salt false false (run.step (.crash 0)).file =
        (leftFile, .ok store) ∧
      store.head = some (Vector.replicate 32 9) ∧ store.committedHeight = some 5 := by
  intro salt run
  have fits : ∀ event ∈ committedThenWritten, event.Fits := by
    simp [committedThenWritten, StoreEvent.Fits]
  have careful : Careful (start []) committedThenWritten :=
    ⟨nofun, nofun, nofun, nofun, trivial⟩
  have held : (lastOr .empty (run.commits.filter fun commit => commit.1 ≤ run.kept 0)).head =
        some (Vector.replicate 32 9) ∧
      (lastOr .empty (run.commits.filter fun commit => commit.1 ≤ run.kept 0)).height = some 5 := by
    decide +kernel
  obtain ⟨store, leftFile, opened, snapshotEq⟩ :=
    (state_store_recovers [] (by decide) committedThenWritten fits careful).1 0 salt salt false
  refine ⟨store, leftFile, opened, ?_, ?_⟩
  · exact (congrArg Snapshot.head snapshotEq).trans held.1
  · exact (congrArg Snapshot.height snapshotEq).trans held.2

end StoreRun

end QuantovaChain.Store
