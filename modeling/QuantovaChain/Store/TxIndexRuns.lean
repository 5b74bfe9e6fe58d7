import QuantovaChain.Library.Acts
import QuantovaChain.Store.TxIndex

/-!
# Runs of the transaction index

A run is a sequence of calls on an index, of crashes between any two acts of a call, and of
openings. Next to the disk it notes the insertions that were not lost. A crash loses the records
behind what is left of the tail, unless the tail was already copied into a run that is still there.

A merge does not sync the tail before it publishes the run. If a crash comes before the tail is
emptied and takes a part of the tail, an older record of an identifier can be left in the tail,
where it hides the newer one in the run. The runs without such a crash answer as a map does.
-/

namespace QuantovaChain.Store

open State (Bytes)
open SortedRuns

/-! ## Crashes -/

/-- What a crash leaves: which of the names that were made or removed are there, the unfinished
file, whether emptying the tail lasted, and how much of the tail. -/
structure Survival where
  file : Nat → Bool
  rebuilding : Option Bytes
  truncated : Bool
  tail : Nat

/-- The runs that are there after a crash. -/
def survivors (files : List RunFile) (kept : Nat → Bool) : List Run :=
  (files.filter fun file => file.presence = .durable || kept file.run.seq).map RunFile.run

namespace IndexDisk

/-- A file keeps what was synced, and a part of what was not. -/
def leftTail (disk : IndexDisk) (survival : Survival) : Bytes :=
  let tail := match disk.truncated with
    | some before => if survival.truncated then disk.tail else before
    | none => disk.tail
  tail.bytes.take (max tail.synced (min survival.tail tail.bytes.length))

def crash (disk : IndexDisk) (survival : Survival) : IndexDisk :=
  let left := disk.leftTail survival
  { files := (survivors disk.files survival.file).map fun run => ⟨run, .durable⟩
    rebuilding := survival.rebuilding
    tail := ⟨left, left.length⟩
    truncated := none }

end IndexDisk

/-- A disk, the insertions that were not lost, and the run that was published since the last of
them. -/
structure IndexState where
  disk : IndexDisk
  history : List TxRecord
  copied : Option Nat

namespace IndexState

def perform (state : IndexState) : DiskAct → IndexState
  | .append records => ⟨state.disk.perform (.append records), state.history ++ records, none⟩
  | .rename seq => { state with disk := state.disk.perform (.rename seq), copied := some seq }
  | act => { state with disk := state.disk.perform act }

/-- The run into which the tail was copied is there after the crash. -/
def copySurvives (state : IndexState) (survival : Survival) : Bool :=
  (survivors state.disk.files survival.file).any fun run => state.copied = some run.seq

/-- The number of insertions that a crash loses. -/
def lost (state : IndexState) (survival : Survival) : Nat :=
  if state.copySurvives survival then 0
  else (records state.disk.tail.bytes).length - (records (state.disk.leftTail survival)).length

def crash (state : IndexState) (survival : Survival) : IndexState :=
  ⟨state.disk.crash survival,
    state.history.take (state.history.length - state.lost survival), none⟩

/-- What is left of a tail that was copied gives its identifiers the values that the whole tail gave
them. -/
def Unshadowed (state : IndexState) (survival : Survival) : Prop :=
  state.copySurvives survival = true →
    ∀ record ∈ records (state.disk.leftTail survival),
      lastOf (records (state.disk.leftTail survival)) record.1 =
        lastOf (records (state.disk.truncated.getD state.disk.tail).bytes) record.1

instance (state : IndexState) (survival : Survival) : Decidable (state.Unshadowed survival) :=
  inferInstanceAs (Decidable (_ → _))

end IndexState

/-! ## Runs -/

inductive IndexCall
  | openIndex
  | insertAll (records : List TxRecord)
  | merge
  | sync

inductive IndexEvent
  | call (call : IndexCall)
  | close
  /-- A crash, between two calls or after some acts of one. -/
  | crash (during : Option (IndexCall × Nat)) (survival : Survival)

/-- What a call does. A closed index can only be opened. -/
def IndexCall.code : IndexCall → Option TxIndex → IndexDisk → Option (TxIndex × List DiskAct)
  | .openIndex, none, disk => some (TxIndex.openIndex disk)
  | .insertAll records, some index, _ => some (index.insertAll records)
  | .merge, some index, _ => some index.merge
  | .sync, some index, _ => some index.sync
  | _, _, _ => none

structure IndexRun where
  index : Option TxIndex
  state : IndexState

namespace IndexRun

def called (run : IndexRun) (call : IndexCall) : IndexRun :=
  match call.code run.index run.state.disk with
  | none => run
  | some (index, acts) => ⟨some index, acts.foldl IndexState.perform run.state⟩

/-- The state after some acts of a call. -/
def interrupted (run : IndexRun) : Option (IndexCall × Nat) → IndexState
  | none => run.state
  | some (call, count) =>
    match call.code run.index run.state.disk with
    | none => run.state
    | some (_, acts) => (acts.take count).foldl IndexState.perform run.state

def step (run : IndexRun) : IndexEvent → IndexRun
  | .call call => run.called call
  | .close => { run with index := none }
  | .crash during survival => ⟨none, (run.interrupted during).crash survival⟩

/-- An empty directory. -/
def start : IndexRun := ⟨none, ⟨⟨[], none, ⟨[], 0⟩, none⟩, [], none⟩⟩

def after (run : IndexRun) (events : List IndexEvent) : IndexRun := events.foldl step run

/-- No crash leaves an older record of an identifier in a tail that was copied. -/
def Careful : IndexRun → List IndexEvent → Prop
  | _, [] => True
  | run, event :: rest =>
    (match event with
      | .crash during survival => (run.interrupted during).Unshadowed survival
      | _ => True) ∧ Careful (run.step event) rest

instance (run : IndexRun) (events : List IndexEvent) : Decidable (Careful run events) := by
  induction events generalizing run with
  | nil => exact .isTrue trivial
  | cons event rest hypothesis =>
    unfold Careful
    cases event <;> infer_instance

end IndexRun

/-! ## What the disk holds -/

/-- Runs and a tail answer as a history does. A first part of the tail may be in the runs too; it is
not lost any more. The rest of the tail is the end of the history. -/
def Covers (stored tail : List TxRecord) (synced : Nat) (history : List TxRecord) : Prop :=
  ∃ base old fresh, history = base ++ fresh ∧ tail = old ++ fresh ∧
    old.length * recordLen ≤ synced ∧ ∀ id, lastOf (stored ++ old) id = lastOf base id

variable {stored tail history left : List TxRecord} {bytes : Bytes} {entries : List TxRecord}
  {state : IndexState} {survival : Survival} {runs rest : List Run} {run older newer : Run}
  {presence first second third : Presence} {files : List RunFile} {index : TxIndex}

theorem Covers.lastOf {synced : Nat} (covers : Covers stored tail synced history) (id : Key) :
    lastOf (stored ++ tail) id = SortedRuns.lastOf history id := by
  obtain ⟨base, old, fresh, rfl, rfl, -, same⟩ := covers
  rw [← List.append_assoc, lastOf_append, same, lastOf_append base]

/-- Everything that the tail has is in the history, and was not copied yet. -/
theorem covers_stored (same : ∀ id, lastOf (stored ++ tail) id = SortedRuns.lastOf history id) :
    Covers stored tail (tail.length * recordLen) history :=
  ⟨history, tail, [], by simp, by simp, Nat.le_refl _, same⟩

theorem Covers.append {synced : Nat} (covers : Covers stored tail synced history)
    (more : List TxRecord) : Covers stored (tail ++ more) synced (history ++ more) := by
  obtain ⟨base, old, fresh, rfl, rfl, kept, same⟩ := covers
  exact ⟨base, old, fresh ++ more, by simp, by simp, kept, same⟩

theorem Covers.mono {synced further : Nat} (covers : Covers stored tail synced history)
    (more : synced ≤ further) : Covers stored tail further history := by
  obtain ⟨base, old, fresh, historyEq, tailEq, kept, same⟩ := covers
  exact ⟨base, old, fresh, historyEq, tailEq, Nat.le_trans kept more, same⟩

theorem Covers.clip {synced : Nat} (covers : Covers stored tail synced history) :
    Covers stored tail (min synced (tail.length * recordLen)) history := by
  obtain ⟨base, old, fresh, historyEq, tailEq, kept, same⟩ := covers
  refine ⟨base, old, fresh, historyEq, tailEq, Nat.le_min.mpr ⟨kept, ?_⟩, same⟩
  rw [tailEq, List.length_append]
  exact Nat.mul_le_mul_right _ (Nat.le_add_right _ _)

/-- A tail that is cut behind what was synced loses the end of the history. -/
theorem Covers.cut {synced count : Nat} (covers : Covers stored tail synced history)
    (kept : synced ≤ count * recordLen + (recordLen - 1)) :
    Covers stored (tail.take count) ((tail.take count).length * recordLen)
      (history.take (history.length - (tail.length - (tail.take count).length))) := by
  obtain ⟨base, old, fresh, rfl, rfl, safe, same⟩ := covers
  have oldKept : old.length ≤ count := by
    unfold recordLen at safe kept
    omega
  have taken : (old ++ fresh).take count = old ++ fresh.take (count - old.length) := by
    rw [List.take_append, List.take_of_length_le oldKept]
  refine ⟨base, old, fresh.take (count - old.length), ?_, taken, ?_, same⟩
  · rw [taken, List.take_append, List.take_of_length_le]
    · congr 1
      simp only [List.length_append, List.length_take]
      rcases Nat.le_total fresh.length (count - old.length) with fits | short
      · rw [List.take_of_length_le (by omega), List.take_of_length_le fits]
      · congr 1
        omega
    · simp only [List.length_append, List.length_take]
      omega
  · rw [taken, List.length_append]
    exact Nat.mul_le_mul_right _ (Nat.le_add_right _ _)

/-- The bytes of a file of records, with a part of one more. -/
def Spells (bytes : Bytes) (entries : List TxRecord) : Prop :=
  ∃ torn : Bytes, torn.length < recordLen ∧ bytes = Frames.written recordBytes entries ++ torn

theorem spells_written (entries : List TxRecord) :
    Spells (Frames.written recordBytes entries) entries :=
  ⟨[], by decide, (List.append_nil _).symm⟩

theorem Spells.records (spells : Spells bytes entries) : records bytes = entries := by
  obtain ⟨torn, short, rfl⟩ := spells
  exact records_written entries short

theorem Spells.length (spells : Spells bytes entries) :
    bytes.length / recordLen = entries.length := by
  obtain ⟨torn, short, rfl⟩ := spells
  rw [List.length_append, length_written, Nat.mul_comm, Nat.mul_add_div (by decide),
    Nat.div_eq_of_lt short, Nat.add_zero]

theorem Spells.take (spells : Spells bytes entries) (count : Nat) :
    Spells (bytes.take count) (entries.take (count / recordLen)) := by
  obtain ⟨torn, short, rfl⟩ := spells
  induction entries generalizing count with
  | nil =>
    refine ⟨torn.take count, Nat.lt_of_le_of_lt (List.length_take_le' _ _) short, ?_⟩
    simp only [List.take_nil, Frames.written_nil, List.nil_append]
  | cons entry rest hypothesis =>
    rcases Nat.lt_or_ge count recordLen with early | late
    · refine ⟨(recordBytes entry).take count, ?_, ?_⟩
      · exact Nat.lt_of_le_of_lt (List.length_take_le _ _) early
      · rw [Nat.div_eq_of_lt early, List.take_zero, Frames.written_nil, List.nil_append,
          Frames.written_cons, List.append_assoc, List.take_append_of_le_length]
        rw [length_recordBytes]
        exact Nat.le_of_lt early
    · obtain ⟨left, shortLeft, cut⟩ := hypothesis (count - recordLen)
      refine ⟨left, shortLeft, ?_⟩
      rw [Nat.div_eq_sub_div (by decide) late, List.take_succ_cons, Frames.written_cons,
        Frames.written_cons, List.append_assoc, List.append_assoc, ← cut, List.take_append,
        length_recordBytes, List.take_of_length_le (by rw [length_recordBytes]; exact late)]

/-- The runs of a directory are complete, and their numbers go up. -/
structure Shelved (files : List RunFile) : Prop where
  formed : ∀ file ∈ files, file.run.Formed
  ascending : files.Pairwise fun first second => first.run.seq < second.run.seq

/-- The presence of a file has no part in what is on it. -/
theorem Shelved.of_runs {others : List RunFile} (shelved : Shelved files)
    (same : files.map RunFile.run = others.map RunFile.run) : Shelved others := by
  constructor
  · intro file listed
    have member : file.run ∈ files.map RunFile.run := same ▸ List.mem_map_of_mem listed
    obtain ⟨source, inside, runEq⟩ := List.mem_map.mp member
    exact runEq ▸ shelved.formed source inside
  · have ascending : (files.map RunFile.run).Pairwise fun first second => first.seq < second.seq :=
      List.pairwise_map.mpr shelved.ascending
    rw [same, List.pairwise_map] at ascending
    exact ascending

/-- All changes of the directory were synced. -/
def durable (runs : List Run) : List RunFile := runs.map fun run => ⟨run, .durable⟩

/-- An index that is closed, and has no change of its directory or its tail pending. -/
structure Halted (state : IndexState) (runs : List Run) (tail : List TxRecord) : Prop where
  files : state.disk.files = durable runs
  shelved : Shelved (durable runs)
  spells : Spells state.disk.tail.bytes tail
  settled : state.disk.truncated = none
  covers : Covers (held runs) tail state.disk.tail.synced state.history
  copied : state.copied = none ∨ tail = []

/-- Every crash leaves something that can be opened, and that answers for what was not lost. -/
def Safe (state : IndexState) : Prop :=
  ∀ survival, state.Unshadowed survival → ∃ runs tail, Halted (state.crash survival) runs tail

theorem survivors_append (first second : List RunFile) (kept : Nat → Bool) :
    survivors (first ++ second) kept = survivors first kept ++ survivors second kept := by
  rw [survivors, List.filter_append, List.map_append]
  rfl

theorem survivors_durable (runs : List Run) (kept : Nat → Bool) :
    survivors (durable runs) kept = runs := by
  induction runs with
  | nil => rfl
  | cons run rest hypothesis => exact congrArg (run :: ·) hypothesis

theorem Shelved.survivors (shelved : Shelved files) (kept : Nat → Bool) :
    Shelved (durable (survivors files kept)) := by
  constructor
  · intro file listed
    obtain ⟨run, member, rfl⟩ := List.mem_map.mp listed
    obtain ⟨source, inside, rfl⟩ := List.mem_map.mp member
    exact shelved.formed source (List.mem_filter.mp inside).1
  · rw [durable, List.pairwise_map, Store.survivors, List.pairwise_map]
    exact shelved.ascending.filter _

/-- What is there after a crash is for good. -/
theorem stopped_crash (shelved : Shelved state.disk.files)
    (spells : Spells (state.disk.leftTail survival) tail)
    (covers : Covers (held (survivors state.disk.files survival.file)) tail (tail.length *
      recordLen) (state.crash survival).history) :
    Halted (state.crash survival) (survivors state.disk.files survival.file) tail where
  files := rfl
  shelved := shelved.survivors survival.file
  spells := spells
  settled := rfl
  covers := by
    refine covers.mono ?_
    obtain ⟨torn, -, bytesEq⟩ := spells
    change _ ≤ (state.disk.leftTail survival).length
    rw [bytesEq, List.length_append, length_written]
    exact Nat.le_add_right _ _
  copied := .inl rfl

/-- The number of bytes that a crash leaves of the tail. -/
def leftOf (tail : LogFile) (survival : Survival) : Nat :=
  max tail.synced (min survival.tail tail.bytes.length)

theorem le_leftOf (tail : LogFile) (survival : Survival) :
    tail.synced ≤ leftOf tail survival / recordLen * recordLen + (recordLen - 1) := by
  have most : tail.synced ≤ leftOf tail survival := Nat.le_max_left _ _
  unfold recordLen
  omega

theorem leftTail_settled {disk : IndexDisk} (settled : disk.truncated = none) (survival : Survival) :
    disk.leftTail survival = disk.tail.bytes.take (leftOf disk.tail survival) := by
  rw [IndexDisk.leftTail, settled]
  rfl

/-- A crash that finds no copy of the tail loses the end of the history. -/
theorem stopped_crash_uncopied (shelved : Shelved state.disk.files)
    (spells : Spells state.disk.tail.bytes tail) (settled : state.disk.truncated = none)
    (covers : Covers (held (survivors state.disk.files survival.file)) tail
      state.disk.tail.synced state.history)
    (uncopied : state.copySurvives survival = false ∨ tail = []) :
    ∃ runs tail, Halted (state.crash survival) runs tail := by
  have left := spells.take (leftOf state.disk.tail survival)
  rw [← leftTail_settled settled] at left
  have lostEq : state.lost survival =
      tail.length - (tail.take (leftOf state.disk.tail survival / recordLen)).length := by
    rw [IndexState.lost, spells.records, left.records]
    rcases uncopied with nothing | rfl
    · rw [nothing, if_neg Bool.false_ne_true]
    · simp
  refine ⟨_, _, stopped_crash shelved left ?_⟩
  rw [IndexState.crash, lostEq]
  exact covers.cut (le_leftOf _ _)

theorem Halted.safe (stopped : Halted state runs tail) : Safe state := by
  intro survival _
  have survive : survivors state.disk.files survival.file = runs := by
    rw [stopped.files, survivors_durable]
  refine stopped_crash_uncopied (stopped.files ▸ stopped.shelved) stopped.spells stopped.settled
    (survive ▸ stopped.covers) (stopped.copied.imp (fun nothing => ?_) id)
  simp [IndexState.copySurvives, nothing]

/-! ## The states of a merge -/

/-- The runs with one more, into which the tail was copied. -/
structure Copied (state : IndexState) (runs : List Run) (run : Run) (tail : List TxRecord) :
    Prop where
  shelved : Shelved (durable runs ++ [⟨run, .durable⟩])
  copy : ∀ id, lastOf run.entries id = lastOf tail id
  answers : ∀ id, lastOf (held runs ++ tail) id = lastOf state.history id
  copied : state.copied = some run.seq

theorem Copied.survives (copied : Copied state runs run tail)
    (survive : survivors state.disk.files survival.file = runs ++ [run]) :
    state.copySurvives survival = true := by
  rw [IndexState.copySurvives, survive, List.any_append, copied.copied]
  simp

/-- A crash that leaves the copy loses nothing. What it leaves of the tail must not hide the copy.
-/
theorem Copied.crash (copied : Copied state runs run tail)
    (survive : survivors state.disk.files survival.file = runs ++ [run])
    (shelved : Shelved state.disk.files) (spells : Spells (state.disk.leftTail survival) left)
    (unshadowed : ∀ record ∈ left, lastOf left record.1 = lastOf tail record.1) :
    ∃ runs tail, Halted (state.crash survival) runs tail := by
  refine ⟨_, _, stopped_crash shelved spells ?_⟩
  have kept : (state.crash survival).history = state.history := by
    rw [IndexState.crash, IndexState.lost, if_pos (copied.survives survive), Nat.sub_zero,
      List.take_length]
  rw [survive, kept]
  refine covers_stored fun id => ?_
  rw [← copied.answers, held_append, held_singleton, lastOf_append, lastOf_append, lastOf_append,
    copied.copy]
  cases found : lastOf left id with
  | none => rw [Option.none_or]
  | some height =>
    have same := unshadowed _ (mem_of_lastOf found)
    rw [found] at same
    rw [← same, Option.some_or, Option.some_or]

/-- The run of a merge was published, and the tail is still there. -/
structure Published (state : IndexState) (runs : List Run) (run : Run) (presence : Presence)
    (tail : List TxRecord) : Prop extends Copied state runs run tail where
  files : state.disk.files = durable runs ++ [⟨run, presence⟩]
  bytes : state.disk.tail.bytes = Frames.written recordBytes tail
  settled : state.disk.truncated = none
  covers : Covers (held runs) tail state.disk.tail.synced state.history

theorem Published.safe (published : Published state runs run presence tail) : Safe state := by
  intro survival unshadowed
  have shelved : Shelved state.disk.files := published.files ▸ published.shelved.of_runs (by simp)
  have spells : Spells state.disk.tail.bytes tail := published.bytes ▸ spells_written tail
  have survive : survivors state.disk.files survival.file =
      runs ++ survivors [⟨run, presence⟩] survival.file := by
    rw [published.files, survivors_append, survivors_durable]
  by_cases there : presence = .durable ∨ survival.file run.seq = true
  · have one : survivors [⟨run, presence⟩] survival.file = [run] := by
      simp [survivors, there]
    rw [one] at survive
    have left := spells.take (leftOf state.disk.tail survival)
    rw [← leftTail_settled published.settled] at left
    refine published.crash survive shelved left fun record member => ?_
    have same := unshadowed (published.survives survive)
    rw [left.records, published.settled, Option.getD_none, spells.records] at same
    exact same record member
  · have nothing : survivors [⟨run, presence⟩] survival.file = [] := by
      simp only [not_or] at there
      simp [survivors, there]
    rw [nothing, List.append_nil] at survive
    refine stopped_crash_uncopied shelved spells published.settled (survive ▸ published.covers)
      (.inl ?_)
    rw [IndexState.copySurvives, survive, List.any_eq_false]
    intro other listed same
    have order := (List.pairwise_append.mp published.shelved.ascending).2.2 ⟨other, .durable⟩
      (List.mem_map_of_mem listed) ⟨run, .durable⟩ (by simp)
    rw [published.copied, decide_eq_true_eq, Option.some.injEq] at same
    exact absurd order (by simp [same])

/-- The tail was emptied, which may not last. -/
structure Truncating (state : IndexState) (runs : List Run) (run : Run) (tail : List TxRecord) :
    Prop extends Copied state runs run tail where
  files : state.disk.files = durable (runs ++ [run])
  bytes : state.disk.tail.bytes = []
  truncated : ∃ synced, state.disk.truncated = some ⟨Frames.written recordBytes tail, synced⟩

theorem durable_append (first second : List Run) :
    durable (first ++ second) = durable first ++ durable second :=
  List.map_append

theorem Truncating.safe (truncating : Truncating state runs run tail) : Safe state := by
  intro survival unshadowed
  have survive : survivors state.disk.files survival.file = runs ++ [run] := by
    rw [truncating.files, survivors_durable]
  have shelved : Shelved state.disk.files := by
    rw [truncating.files, durable_append]
    exact truncating.shelved
  obtain ⟨synced, truncated⟩ := truncating.truncated
  have same := unshadowed (truncating.survives survive)
  rw [truncated, Option.getD_some, (spells_written tail).records] at same
  obtain ⟨left, spells⟩ : ∃ left, Spells (state.disk.leftTail survival) left := by
    rw [IndexDisk.leftTail, truncated]
    simp only
    split
    · rw [truncating.bytes, List.take_nil]
      exact ⟨[], spells_written []⟩
    · exact ⟨_, (spells_written tail).take _⟩
  rw [spells.records] at same
  exact truncating.crash survive shelved spells same

/-! ## The states of folding -/

/-- As long as the new run is there, or both old ones are, folding changes no answer. -/
theorem lastOf_folded
    (merged : ∀ id, lastOf run.entries id = lastOf (older.entries ++ newer.entries) id)
    (covered : third = .durable ∨ first = .durable ∧ second = .durable) (kept : Nat → Bool)
    (id : Key) :
    lastOf (held (survivors
        (durable rest ++ [⟨older, first⟩, ⟨newer, second⟩, ⟨run, third⟩]) kept)) id =
      lastOf (held rest ++ (older.entries ++ newer.entries)) id := by
  have value := merged id
  rw [lastOf_append] at value
  rw [survivors_append, survivors_durable, held_append, lastOf_append, lastOf_append, lastOf_append]
  congr 1
  by_cases there : third = .durable ∨ kept run.seq = true
  · obtain ⟨others, within, cut⟩ : ∃ others : List Run, others.Sublist [older, newer] ∧
        survivors [⟨older, first⟩, ⟨newer, second⟩, ⟨run, third⟩] kept = others ++ [run] := by
      refine ⟨survivors [⟨older, first⟩, ⟨newer, second⟩] kept, List.filter_sublist.map _, ?_⟩
      have last : survivors [⟨run, third⟩] kept = [run] := by
        simp [survivors, there]
      exact (survivors_append [⟨older, first⟩, ⟨newer, second⟩] [⟨run, third⟩] kept).trans
        (congrArg _ last)
    rw [cut, held_append, held_singleton, lastOf_append, value]
    cases newest : lastOf newer.entries id with
    | some height => rfl
    | none =>
      cases oldest : lastOf older.entries id with
      | some height => rfl
      | none =>
        have absent : lastOf (held others) id = none := by
          rw [lastOf_eq_none] at newest oldest ⊢
          intro entry listed
          obtain ⟨other, member, inside⟩ := List.mem_flatMap.mp listed
          rcases List.mem_cons.mp (within.subset member) with rfl | member
          · exact oldest entry inside
          · obtain rfl := List.mem_singleton.mp member
            exact newest entry inside
        rw [absent]
        rfl
  · obtain ⟨rfl, rfl⟩ := covered.resolve_left fun same => there (.inl same)
    have both : survivors [⟨older, .durable⟩, ⟨newer, .durable⟩, ⟨run, third⟩] kept =
        [older, newer] := by
      simp only [not_or] at there
      simp [survivors, there]
    rw [both, ← lastOf_append]
    simp [held]

/-! ## The index and its disk -/

/-- Between two calls the index is what an opening of its disk would give. -/
structure Idle (index : TxIndex) (state : IndexState) : Prop
    extends Halted state index.runs index.tailMem where
  whole : state.disk.tail.bytes = Frames.written recordBytes index.tailMem
  next : ∀ run ∈ index.runs, run.seq < index.nextSeq
  tailLen : index.tailLen = index.tailMem.length
  sortedLen : index.sortedLen = (index.runs.map Run.len).sum

theorem Idle.answers (idle : Idle index state) (id : Key) :
    index.get id = .ok (lastOf state.history id) := by
  have formed : ∀ run ∈ index.runs, run.Formed := fun run listed =>
    idle.shelved.formed ⟨run, .durable⟩ (List.mem_map_of_mem listed)
  rw [TxIndex.get_spec formed, idle.covers.lastOf]

theorem lt_succ_newest (before : ∀ other ∈ rest, other.seq < run.seq) :
    ∀ other ∈ rest ++ [run], other.seq < run.seq + 1 := by
  simp only [List.mem_append, List.mem_singleton]
  rintro other (member | rfl)
  · exact Nat.lt_succ_of_lt (before other member)
  · exact Nat.lt_succ_self _

/-- A new run is behind all others. -/
theorem Idle.shelve (idle : Idle index state) (sorted : Sorted entries) :
    Shelved (durable index.runs ++
      [⟨⟨index.nextSeq, Frames.written recordBytes entries⟩, .durable⟩]) := by
  constructor
  · intro file listed
    rcases List.mem_append.mp listed with member | member
    · exact idle.shelved.formed file member
    · obtain rfl := List.mem_singleton.mp member
      exact Run.formed_written sorted
  · refine List.pairwise_append.mpr ⟨idle.shelved.ascending, List.pairwise_singleton _ _, ?_⟩
    intro first listed second member
    obtain ⟨run, inside, rfl⟩ := List.mem_map.mp listed
    obtain rfl := List.mem_singleton.mp member
    exact idle.next run inside

abbrev Leads := Acts.Leads IndexState.perform Safe

theorem Idle.append (idle : Idle index state) (chunk : List TxRecord) :
    Idle (index.grown chunk) (state.perform (.append chunk)) := by
  have bytes : (state.perform (.append chunk)).disk.tail.bytes =
      Frames.written recordBytes (index.tailMem ++ chunk) := by
    rw [Frames.written_append, ← idle.whole]
    rfl
  exact { idle with
    spells := bytes ▸ spells_written _
    covers := idle.covers.append chunk
    copied := .inl rfl
    whole := bytes
    tailLen := by simp [TxIndex.grown, idle.tailLen] }

theorem Idle.rebuild (idle : Idle index state) (bytes : Bytes) :
    Idle index (state.perform (.rebuild bytes)) :=
  { idle with }

theorem Idle.synced (idle : Idle index state) :
    Idle { index with unsynced := false } (state.perform .syncTail) := by
  have covers := idle.covers.clip.mono (Nat.min_le_right _ _)
  rw [← length_written, ← idle.whole] at covers
  exact { idle with settled := rfl, covers }

theorem Idle.sync (idle : Idle index state) : Leads state index.sync.2 (Idle index.sync.1) := by
  unfold TxIndex.sync
  split
  · exact ⟨idle.safe, idle.synced.safe, idle.synced⟩
  · exact ⟨idle.safe, idle⟩

/-! ## Merging -/

theorem listed_durable (runs : List Run) :
    ((durable runs).filter fun file => file.presence ≠ .removed).map RunFile.run = runs := by
  induction runs with
  | nil => rfl
  | cons run rest hypothesis => exact congrArg (run :: ·) hypothesis

theorem Idle.publish (idle : Idle index state) (sorted : Sorted entries)
    (copy : ∀ id, lastOf entries id = lastOf index.tailMem id) :
    Published ((state.perform (.rebuild (Frames.written recordBytes entries))).perform
        (.rename index.nextSeq)) index.runs
      ⟨index.nextSeq, Frames.written recordBytes entries⟩ .added index.tailMem where
  shelved := idle.shelve sorted
  copy id := by rw [Run.entries_written, copy]
  answers id := idle.covers.lastOf id
  copied := rfl
  files := by
    change state.disk.files ++ _ = _
    rw [idle.files]
  bytes := idle.whole
  settled := idle.settled
  covers := idle.covers

theorem Published.syncDir (published : Published state runs run .added tail) :
    Published (state.perform .syncDir) runs run .durable tail :=
  { published with
    files := by
      change durable state.disk.listed = _
      have listed : state.disk.listed = runs ++ [run] := by
        rw [IndexDisk.listed, published.files, List.filter_append, List.map_append, listed_durable]
        rfl
      rw [listed, durable_append]
      rfl }

theorem Published.truncate (published : Published state runs run .durable tail) :
    Truncating (state.perform .truncateTail) runs run tail where
  toCopied := { published with }
  files := by
    change state.disk.files = _
    rw [published.files, durable_append]
    rfl
  bytes := rfl
  truncated := by
    refine ⟨state.disk.tail.synced, ?_⟩
    rw [← published.bytes]
    rfl

theorem Truncating.synced (truncating : Truncating state runs run tail) :
    Halted (state.perform .syncTail) (runs ++ [run]) [] where
  files := truncating.files
  shelved := by
    rw [durable_append]
    exact truncating.shelved
  spells := truncating.bytes ▸ spells_written []
  settled := rfl
  covers := by
    refine (covers_stored fun id => ?_).mono (Nat.zero_le _)
    change _ = lastOf state.history id
    rw [← truncating.answers, List.append_nil, held_append, held_singleton, lastOf_append,
      lastOf_append, truncating.copy]
  copied := .inr rfl

/-- The directory while two runs are folded into a third. -/
def folded (rest : List Run) (older newer run : Run) (first second third : Presence) :
    List RunFile :=
  durable rest ++ [⟨older, first⟩, ⟨newer, second⟩, ⟨run, third⟩]

/-- Two runs are folded into a third, with the presence of each. -/
structure Fold (state : IndexState) (rest : List Run) (older newer run : Run)
    (first second third : Presence) : Prop where
  files : state.disk.files = folded rest older newer run first second third
  shelved : Shelved (durable (rest ++ [older, newer, run]))
  merged : ∀ id, lastOf run.entries id = lastOf (older.entries ++ newer.entries) id
  bytes : state.disk.tail.bytes = []
  settled : state.disk.truncated = none
  answers : ∀ id, lastOf (held rest ++ (older.entries ++ newer.entries)) id =
    lastOf state.history id

/-- Whatever names are there after a crash, their runs answer for the history. -/
theorem Fold.safe (fold : Fold state rest older newer run first second third)
    (covered : third = .durable ∨ first = .durable ∧ second = .durable) : Safe state := by
  intro survival _
  have shelved : Shelved state.disk.files :=
    fold.shelved.of_runs (by simp [fold.files, folded, durable, Function.comp_def])
  refine stopped_crash_uncopied shelved (fold.bytes ▸ spells_written []) fold.settled
    (Covers.mono (covers_stored fun id => ?_) (Nat.zero_le _)) (.inr rfl)
  rw [List.append_nil, fold.files, folded, lastOf_folded fold.merged covered, fold.answers]

theorem Fold.order (fold : Fold state rest older newer run first second third) :
    (∀ other ∈ rest, other.seq < older.seq) ∧ older.seq < newer.seq ∧ newer.seq < run.seq := by
  have ascending := fold.shelved.ascending
  rw [durable, List.pairwise_map, List.pairwise_append] at ascending
  obtain ⟨-, last, before⟩ := ascending
  simp only [List.pairwise_cons, List.mem_cons, forall_eq_or_imp] at last
  exact ⟨fun other listed => before other listed older (by simp), last.1.1, last.2.1.1⟩

/-- Removing a name marks no other. -/
theorem map_durable_ne {seq : Nat} (apart : ∀ other ∈ rest, other.seq ≠ seq) :
    ((durable rest).map fun file =>
      if file.run.seq = seq then { file with presence := .removed } else file) = durable rest := by
  rw [durable, List.map_map]
  refine List.map_congr_left fun other listed => ?_
  exact if_neg (apart other listed)

theorem Fold.removeOlder (fold : Fold state rest older newer run .durable .durable .durable) :
    Fold (state.perform (.removeRun older.seq)) rest older newer run .removed .durable .durable where
  files := by
    obtain ⟨before, first, second⟩ := fold.order
    change state.disk.files.map _ = _
    rw [fold.files, folded, List.map_append,
      map_durable_ne fun other listed => Nat.ne_of_lt (before other listed), folded]
    simp only [List.map_cons, List.map_nil, if_true, if_neg (Nat.ne_of_gt first),
      if_neg (Nat.ne_of_gt (Nat.lt_trans first second))]
  __ := fold

theorem Fold.removeNewer (fold : Fold state rest older newer run .removed .durable .durable) :
    Fold (state.perform (.removeRun newer.seq)) rest older newer run .removed .removed .durable where
  files := by
    obtain ⟨before, first, second⟩ := fold.order
    change state.disk.files.map _ = _
    rw [fold.files, folded, List.map_append,
      map_durable_ne fun other listed => Nat.ne_of_lt (Nat.lt_trans (before other listed) first),
      folded]
    simp only [List.map_cons, List.map_nil, if_true, if_neg (Nat.ne_of_lt first),
      if_neg (Nat.ne_of_gt second)]
  __ := fold

theorem Fold.syncDir (fold : Fold state rest older newer run .durable .durable .added) :
    Fold (state.perform .syncDir) rest older newer run .durable .durable .durable where
  files := by
    change durable state.disk.listed = _
    rw [IndexDisk.listed, fold.files, folded, List.filter_append, List.map_append, listed_durable,
      durable_append, folded]
    rfl
  __ := fold

/-- After the names of the old runs are gone, the new run stands for them. -/
theorem Fold.stopped (fold : Fold state rest older newer run .removed .removed .durable) :
    Halted (state.perform .syncDir) (rest ++ [run]) [] where
  files := by
    change durable state.disk.listed = _
    rw [IndexDisk.listed, fold.files, folded, List.filter_append, List.map_append, listed_durable]
    rfl
  shelved := by
    have within : (rest ++ [run]).Sublist (rest ++ [older, newer, run]) :=
      (List.Sublist.refl rest).append (.cons _ (.cons _ (.refl _)))
    constructor
    · exact fun file listed => fold.shelved.formed file ((within.map _).subset listed)
    · exact fold.shelved.ascending.sublist (within.map _)
  spells := fold.bytes ▸ spells_written []
  settled := fold.settled
  covers := by
    refine (covers_stored fun id => ?_).mono (Nat.zero_le _)
    change _ = lastOf state.history id
    rw [← fold.answers, List.append_nil, held_append, held_singleton, lastOf_append,
      lastOf_append, fold.merged]
  copied := .inr rfl

/-- From the new name on, folding ends with the new run in the place of the old ones. -/
theorem Fold.leads (fold : Fold state rest older newer run .durable .durable .added) :
    Leads state [.syncDir, .removeRun older.seq, .removeRun newer.seq, .syncDir] fun state =>
      Halted state (rest ++ [run]) [] ∧ state.disk.tail.bytes = [] := by
  refine ⟨fold.safe (.inr ⟨rfl, rfl⟩), fold.syncDir.safe (.inl rfl), ?_⟩
  have older := fold.syncDir.removeOlder
  refine ⟨older.safe (.inl rfl), older.removeNewer.safe (.inl rfl), ?_⟩
  have stopped := older.removeNewer.stopped
  exact ⟨stopped.safe, stopped, fold.bytes⟩

theorem Idle.foldNewest (idle : Idle index state) (empty : index.tailMem = [])
    (runsEq : index.runs = rest ++ [older, newer]) :
    Leads state (index.foldNewest rest older newer).2
      (Idle (index.foldNewest rest older newer).1) := by
  have formed : ∀ run ∈ index.runs, run.Formed := fun run listed =>
    idle.shelved.formed ⟨run, .durable⟩ (List.mem_map_of_mem listed)
  have olderFormed := formed older (by simp [runsEq])
  have newerFormed := formed newer (by simp [runsEq])
  generalize entriesEq : combine (records older.bytes) (records newer.bytes) = entries
  have sorted : Sorted entries := entriesEq ▸ sorted_combine olderFormed.sorted newerFormed.sorted
  generalize runEq : (⟨index.nextSeq, Frames.written recordBytes entries⟩ : Run) = run
  have shelved : Shelved (durable (rest ++ [older, newer, run])) := by
    have all := idle.shelve sorted
    rw [runEq, runsEq] at all
    exact all.of_runs (by simp [durable, Function.comp_def])
  have fold : Fold (state.perform (.rebuild run.bytes) |>.perform (.rename run.seq)) rest older
      newer run .durable .durable .added := by
    refine ⟨?_, shelved, fun id => ?_, ?_, idle.settled, fun id => ?_⟩
    · change state.disk.files ++ [⟨run, .added⟩] = _
      rw [idle.files, runsEq, durable_append, List.append_assoc]
      rfl
    · rw [← runEq, Run.entries_written, ← entriesEq]
      exact lastOf_combine olderFormed.sorted newerFormed.sorted id
    · exact idle.whole.trans (by rw [empty, Frames.written_nil])
    · change _ = lastOf state.history id
      rw [← idle.covers.lastOf, empty, List.append_nil, runsEq]
      simp [held]
  have code : index.foldNewest rest older newer =
      ({ index with
          runs := rest ++ [run]
          nextSeq := index.nextSeq + 1
          sortedLen := index.sortedLen - older.len - newer.len + run.len },
        [.rebuild run.bytes, .rename run.seq, .syncDir, .removeRun older.seq, .removeRun newer.seq,
          .syncDir]) := by
    subst runEq entriesEq
    rfl
  rw [code]
  refine ⟨idle.safe, (idle.rebuild run.bytes).safe,
    fold.leads.mono fun state ended => ?_⟩
  obtain ⟨stopped, bytes⟩ := ended
  refine ⟨?_, ?_, ?_, ?_, ?_⟩
  · change Halted _ _ index.tailMem
    rwa [empty]
  · change _ = Frames.written recordBytes index.tailMem
    rw [empty]
    exact bytes
  · subst runEq
    exact lt_succ_newest fun other listed => idle.next other (by simp [runsEq, listed])
  · exact idle.tailLen
  · have total := idle.sortedLen
    rw [runsEq] at total
    simp only [List.map_append, List.sum_append, List.map_cons, List.map_nil, List.sum_cons,
      List.sum_nil] at total ⊢
    omega

theorem foldNewest_tailMem (index : TxIndex) (rest : List Run) (older newer : Run) :
    (index.foldNewest rest older newer).1.tailMem = index.tailMem :=
  rfl

theorem Idle.foldRounds (idle : Idle index state) (empty : index.tailMem = []) (rounds : Nat) :
    Leads state (index.foldRounds rounds).2 (Idle (index.foldRounds rounds).1) := by
  induction rounds generalizing index state with
  | zero => exact ⟨idle.safe, idle⟩
  | succ rounds hypothesis =>
    unfold TxIndex.foldRounds
    split
    next newer older rest reversed =>
      split
      · exact ⟨idle.safe, idle⟩
      · have runsEq : index.runs = rest.reverse ++ [older, newer] := by
          rw [← List.reverse_reverse index.runs, reversed]
          simp
        exact (idle.foldNewest empty runsEq).append fun state idle =>
          hypothesis idle ((foldNewest_tailMem _ _ _ _).trans empty)
    next => exact ⟨idle.safe, idle⟩

/-- A merge leads to the same answers, and so does each part of it. -/
theorem Idle.merge (idle : Idle index state) : Leads state index.merge.2 (Idle index.merge.1) := by
  unfold TxIndex.merge
  split
  · exact ⟨idle.safe, idle⟩
  · have published := idle.publish (sorted_runOf index.tailMem) (lastOf_runOf index.tailMem)
    have truncating := published.syncDir.truncate
    have stopped := truncating.synced
    refine ⟨idle.safe, (idle.rebuild _).safe, published.safe,
      published.syncDir.safe, truncating.safe, Idle.foldRounds ⟨stopped, truncating.bytes, ?_, rfl, ?_⟩
        rfl _⟩
    · exact lt_succ_newest idle.next
    · simp only [List.map_append, List.sum_append, idle.sortedLen, List.map_cons,
        List.map_nil, List.sum_cons, List.sum_nil, Nat.add_zero]

theorem Idle.mergeFull (idle : Idle index state) :
    Leads state index.mergeFull.2 (Idle index.mergeFull.1) := by
  unfold TxIndex.mergeFull
  split
  · exact idle.merge
  · exact ⟨idle.safe, idle⟩

theorem Idle.insertRounds (idle : Idle index state) (rounds : Nat) (entries : List TxRecord) :
    Leads state (index.insertRounds rounds entries).2 (Idle (index.insertRounds rounds entries).1) := by
  induction rounds generalizing index state entries with
  | zero => exact ⟨idle.safe, idle⟩
  | succ rounds hypothesis =>
    unfold TxIndex.insertRounds
    split
    · exact ⟨idle.safe, idle⟩
    · refine ⟨idle.safe, ?_⟩
      exact (idle.append _).mergeFull.append fun state idle => hypothesis idle _

/-! ## Opening -/

theorem Halted.whole (stopped : Halted state runs tail) :
    state.disk.tail.bytes.take (state.disk.tail.bytes.length / recordLen * recordLen) =
      Frames.written recordBytes tail := by
  obtain ⟨torn, short, bytes⟩ := stopped.spells
  rw [stopped.spells.length, bytes, ← length_written, List.take_left]

theorem Halted.cut (stopped : Halted state runs tail) :
    Halted (state.perform (.setTailLen (state.disk.tail.bytes.length / recordLen * recordLen)))
      runs tail :=
  { stopped with
    spells := by
      change Spells (state.disk.tail.bytes.take _) tail
      rw [stopped.whole]
      exact spells_written tail
    covers := by
      change Covers _ _ (min state.disk.tail.synced _) _
      rw [stopped.spells.length]
      exact stopped.covers.clip }

theorem Halted.discard (stopped : Halted state runs tail) :
    Halted (state.perform .discardRebuilding) runs tail :=
  { stopped with }

theorem Halted.listed (stopped : Halted state runs tail) :
    (state.disk.listed.insertionSort fun first second => first.seq ≤ second.seq) = runs := by
  rw [IndexDisk.listed, stopped.files, listed_durable]
  have ascending := stopped.shelved.ascending
  rw [durable, List.pairwise_map] at ascending
  exact (ascending.imp Nat.le_of_lt).insertionSort_eq

theorem lt_next (shelved : Shelved (durable runs)) (listed : run ∈ runs) :
    run.seq < (runs.getLast?.map fun run => run.seq + 1).getD 0 := by
  have ascending := shelved.ascending
  rw [durable, List.pairwise_map] at ascending
  cases runs using List.reverseRecOn with
  | nil => cases listed
  | append_singleton older last =>
    rw [List.getLast?_concat, Option.map_some, Option.getD_some]
    have before := (List.pairwise_append.mp ascending).2.2
    exact lt_succ_newest (fun other member => before other member last (by simp)) run listed

/-- The index that an opening gives fits the disk from which the torn record is cut. -/
theorem Halted.idle {final : IndexState} (stopped : Halted state runs tail)
    (ended : Halted final runs tail)
    (bytes : final.disk.tail.bytes = Frames.written recordBytes tail) :
    Idle (TxIndex.openIndex state.disk).1 final := by
  have runsEq : (TxIndex.openIndex state.disk).1.runs = runs := stopped.listed
  have tailEq : (TxIndex.openIndex state.disk).1.tailMem = tail := by
    change records (state.disk.tail.bytes.take _) = tail
    rw [stopped.whole]
    exact (spells_written tail).records
  refine ⟨?_, ?_, ?_, rfl, rfl⟩
  · rwa [runsEq, tailEq]
  · rwa [tailEq]
  · change ∀ run ∈ (TxIndex.openIndex state.disk).1.runs, run.seq <
      ((TxIndex.openIndex state.disk).1.runs.getLast?.map fun run => run.seq + 1).getD 0
    rw [runsEq]
    exact fun run listed => lt_next stopped.shelved listed

theorem Halted.openIndex (stopped : Halted state runs tail) :
    Leads state (TxIndex.openIndex state.disk).2 (Idle (TxIndex.openIndex state.disk).1) := by
  have discarded : Leads state
      (if state.disk.rebuilding.isSome then [.discardRebuilding] else []) fun later =>
        Halted later runs tail ∧ later.disk.tail = state.disk.tail := by
    split
    · exact ⟨stopped.safe, stopped.discard.safe, stopped.discard, rfl⟩
    · exact ⟨stopped.safe, stopped, rfl⟩
  refine discarded.append fun later ⟨settled, same⟩ => ?_
  split
  · have cut := settled.cut
    have whole := settled.whole
    rw [same] at cut whole
    refine ⟨settled.safe, cut.safe, stopped.idle cut ?_⟩
    change later.disk.tail.bytes.take _ = _
    rw [same, whole]
  · next even =>
    have even : state.disk.tail.bytes.length % recordLen = 0 := Decidable.not_not.mp even
    refine ⟨settled.safe, stopped.idle settled ?_⟩
    have whole := stopped.whole
    rw [Nat.div_mul_cancel (Nat.dvd_of_mod_eq_zero even), List.take_length] at whole
    rw [same, whole]

/-! ## Whole runs -/

namespace IndexRun

/-- The disk answers for what was not lost, and an open index fits its disk. -/
def Sound (run : IndexRun) : Prop :=
  match run.index with
  | none => ∃ runs tail, Halted run.state runs tail
  | some index => Idle index run.state

theorem Sound.stopped {run : IndexRun} (sound : run.Sound) :
    ∃ runs tail, Halted run.state runs tail := by
  unfold Sound at sound
  split at sound
  · exact sound
  · exact ⟨_, _, sound.toHalted⟩

theorem Sound.leads {run : IndexRun} (sound : run.Sound) {call : IndexCall} {index : TxIndex}
    {acts : List DiskAct} (code : call.code run.index run.state.disk = some (index, acts)) :
    Leads run.state acts (Idle index) := by
  unfold Sound at sound
  cases found : run.index with
  | none =>
    rw [found] at code sound
    obtain ⟨runs, tail, stopped⟩ := sound
    cases call with
    | openIndex =>
      obtain ⟨rfl, rfl⟩ := Prod.mk.inj (Option.some.inj code)
      exact stopped.openIndex
    | _ => cases code
  | some openIndex =>
    rw [found] at code sound
    cases call with
    | openIndex => cases code
    | insertAll entries =>
      obtain ⟨rfl, rfl⟩ := Prod.mk.inj (Option.some.inj code)
      exact sound.insertRounds _ entries
    | merge =>
      obtain ⟨rfl, rfl⟩ := Prod.mk.inj (Option.some.inj code)
      exact sound.merge
    | sync =>
      obtain ⟨rfl, rfl⟩ := Prod.mk.inj (Option.some.inj code)
      exact sound.sync

theorem Sound.called {run : IndexRun} (sound : run.Sound) (call : IndexCall) :
    (run.called call).Sound := by
  unfold IndexRun.called
  split
  · exact sound
  · next index acts code => exact (sound.leads code).reaches

theorem Sound.interrupted {run : IndexRun} (sound : run.Sound) (during : Option (IndexCall × Nat)) :
    Safe (run.interrupted during) := by
  obtain ⟨runs, tail, stopped⟩ := sound.stopped
  cases during with
  | none => exact stopped.safe
  | some place =>
    obtain ⟨call, count⟩ := place
    unfold IndexRun.interrupted
    simp only
    split
    · exact stopped.safe
    · next index acts code => exact (sound.leads code).interrupted count

theorem Sound.step {run : IndexRun} (sound : run.Sound) {event : IndexEvent} {rest : List IndexEvent}
    (careful : Careful run (event :: rest)) : (run.step event).Sound := by
  cases event with
  | call call => exact sound.called call
  | close => exact sound.stopped
  | crash during survival => exact sound.interrupted during survival careful.1

theorem Sound.after {run : IndexRun} (sound : run.Sound) {events : List IndexEvent}
    (careful : Careful run events) : (run.after events).Sound := by
  induction events generalizing run with
  | nil => exact sound
  | cons event rest hypothesis =>
    exact hypothesis (sound.step careful) careful.2

end IndexRun

/-! ## The history -/

namespace TxIndex

end TxIndex

namespace IndexRun

end IndexRun

end QuantovaChain.Store
