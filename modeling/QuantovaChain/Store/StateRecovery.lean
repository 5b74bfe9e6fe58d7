import Mathlib.Data.List.Induction
import QuantovaChain.Store.StateStore

/-!
# Recovery of the state store

What a store should hold is said by the commits of its file: for each, where its record ends, and
what the store held when it was made. A crash keeps some first part of the file, no shorter than
what was synced, and with it the commits whose records lie wholly within. Opening the store gives
what it held at the last of these.
-/

namespace QuantovaChain.Store

open State (Bytes Hash)
open Codec Codec.Decoder Reading
open Frames (written whole torn)

/-! ## Records are read back -/

namespace StateRecord

theorem inverts_getFixed : Inverts getFixed putFixed fun _ => True := by
  have filled := Inverts.fill (inverts_getU8 : Inverts (getU8 : Decoder Error UInt8) _ _) 32
  intro input value rest
  rw [getFixed, filled input value rest]
  simp [putFixed]

theorem reads_decode {record : StateRecord} (fits : record.Fits) (rest : Bytes) :
    Reads decode (record.encode ++ rest) record rest := by
  cases record with
  | entry key value =>
    have small : value.length < 2 ^ 64 := Nat.lt_trans fits (by decide)
    rw [encode, List.append_assoc, List.append_assoc]
    refine inverts_getU8.andThen trivial ?_
    exact inverts_getFixed.andThen trivial (inverts_getBytes.andThen small (reads_pure.mpr ⟨rfl, rfl⟩))
  | commit height root =>
    rw [encode, List.append_assoc, List.append_assoc]
    refine inverts_getU8.andThen trivial ?_
    exact inverts_getU64.andThen trivial (inverts_getFixed.andThen trivial (reads_pure.mpr ⟨rfl, rfl⟩))
  | delete key =>
    rw [encode, List.append_assoc]
    refine inverts_getU8.andThen trivial ?_
    exact inverts_getFixed.andThen trivial (reads_pure.mpr ⟨rfl, rfl⟩)

theorem fromBytes_encode {record : StateRecord} (fits : record.Fits) :
    fromBytes record.encode = .ok record := by
  refine run'_eq_pure.mpr ⟨[], ?_⟩
  have reads := reads_decode fits []
  rw [List.append_nil] at reads
  exact reads_bind.mpr ⟨record, [], reads, reads_bind.mpr ⟨(), [], reads_finish.mpr ⟨rfl, rfl⟩,
    reads_pure.mpr ⟨rfl, rfl⟩⟩⟩

theorem length_putFixed (value : Vector UInt8 32) : (putFixed value).length = 32 := by
  simp [putFixed, putU8, List.length_flatMap]

theorem length_encode_lt {record : StateRecord} (fits : record.Fits) :
    record.encode.length < 2 ^ 64 := by
  cases record with
  | entry key value =>
    have small : value.length < 2 ^ 63 := fits
    simp only [encode, putU8, List.length_append, length_putFixed, length_putBytes, lengthWidth,
      List.length_singleton]
    omega
  | commit height root => simp [encode, putU8, putU64, length_putFixed]
  | delete key => simp [encode, putU8, length_putFixed]

/-- The bytes of a record in a log. -/
def framed (salt : Salt) (record : StateRecord) : Bytes := frame salt record.encode

/-- The entries after a record. -/
def applyTo (entries : Entries) : StateRecord → Entries
  | .entry key value => entries.insert key value
  | .delete key => entries.erase key
  | .commit _ _ => entries

end StateRecord

open StateRecord (framed applyTo)

theorem written_encode (salt : Salt) (records : List StateRecord) :
    written (frame salt) (records.map StateRecord.encode) = written (framed salt) records := by
  rw [written, written, List.flatMap_map]
  rfl

/-! ## Commits of a file -/

/-- What a store holds. -/
structure Snapshot where
  entries : Entries
  head : Option Hash
  height : Option U64

def Snapshot.empty : Snapshot := ⟨∅, none, none⟩

def StateStore.snapshot (store : StateStore) : Snapshot :=
  ⟨store.entries, store.head, store.committedHeight⟩

/-- What was held at the last of some commits, if there is one. -/
def lastOr (base : Snapshot) (commits : List (Nat × Snapshot)) : Snapshot :=
  (commits.getLast?.map Prod.snd).getD base

/-- Where the last of some commits ends, if there is one. -/
def endOr (base : Nat) (commits : List (Nat × Snapshot)) : Nat :=
  (commits.getLast?.map Prod.fst).getD base

theorem lastOr_cons (base : Snapshot) (commit : Nat × Snapshot) (later : List (Nat × Snapshot)) :
    lastOr base (commit :: later) = lastOr commit.2 later := by
  rw [lastOr, lastOr, List.getLast?_cons]
  cases later.getLast? <;> rfl

theorem endOr_cons (base : Nat) (commit : Nat × Snapshot) (later : List (Nat × Snapshot)) :
    endOr base (commit :: later) = endOr commit.1 later := by
  rw [endOr, endOr, List.getLast?_cons]
  cases later.getLast? <;> rfl

/-- The entries after records. -/
def live (entries : Entries) (records : List StateRecord) : Entries :=
  records.foldl applyTo entries

/-- The commits of the records at a position of a file, each with the end of its record and what it
commits. -/
def commitsFrom (salt : Salt) : Nat → Entries → List StateRecord → List (Nat × Snapshot)
  | _, _, [] => []
  | position, entries, record :: rest =>
    let recordEnd := position + (framed salt record).length
    let later := commitsFrom salt recordEnd (applyTo entries record) rest
    match record with
    | .commit height root => (recordEnd, ⟨entries, some root, some height⟩) :: later
    | _ => later

variable {records : List StateRecord} {file : LogFile} {record : StateRecord}
  {commits : List (Nat × Snapshot)}

section Commits

variable (salt : Salt)

theorem commitsFrom_append (position : Nat) (entries : Entries) (first second : List StateRecord) :
    commitsFrom salt position entries (first ++ second) =
      commitsFrom salt position entries first ++
        commitsFrom salt (position + (written (framed salt) first).length) (live entries first)
          second := by
  induction first generalizing position entries with
  | nil => simp [commitsFrom, live]
  | cons record rest hypothesis =>
    have later := hypothesis (position + (framed salt record).length)
      (applyTo entries record)
    rw [Nat.add_assoc, ← List.length_append, ← Frames.written_cons] at later
    cases record <;> simp [commitsFrom, later, live]

theorem lt_of_mem_commitsFrom {position : Nat} {entries : Entries} {rest : List StateRecord}
    {commit : Nat × Snapshot}
    (member : commit ∈ commitsFrom salt position entries (record :: rest)) :
    position + (framed salt record).length ≤ commit.1 := by
  induction rest generalizing position entries record with
  | nil =>
    cases record <;> simp [commitsFrom] at member
    rw [member]
  | cons next rest hypothesis =>
    have later : commit ∈ commitsFrom salt (position + (framed salt record).length)
        (applyTo entries record) (next :: rest) →
        position + (framed salt record).length ≤ commit.1 := fun member =>
      Nat.le_trans (Nat.le_add_right _ _) (hypothesis member)
    cases record with
    | commit height root =>
      rcases List.mem_cons.mp member with rfl | member
      · exact Nat.le_refl _
      · exact later member
    | entry key value => exact later member
    | delete key => exact later member

/-- The commits of the records that lie wholly before a cut. -/
theorem commitsFrom_whole (position cut : Nat) (entries : Entries) (records : List StateRecord) :
    commitsFrom salt position entries (whole (framed salt) records cut) =
      (commitsFrom salt position entries records).filter fun commit =>
        commit.1 ≤ position + cut := by
  induction records generalizing position cut entries with
  | nil => rfl
  | cons record rest hypothesis =>
    rw [whole]
    split
    next fits =>
      have later := hypothesis (position + (framed salt record).length)
        (cut - (framed salt record).length) (applyTo entries record)
      rw [show position + (framed salt record).length + (cut - (framed salt record).length) =
        position + cut by omega] at later
      cases record with
      | commit height root =>
        simp only [commitsFrom, later, List.filter_cons]
        rw [if_pos (by simpa using fits)]
      | entry key value => simp only [commitsFrom, later]
      | delete key => simp only [commitsFrom, later]
    next short =>
      symm
      rw [commitsFrom, List.filter_eq_nil_iff]
      intro commit member
      have behind := lt_of_mem_commitsFrom salt member
      simp only [decide_eq_true_eq]
      omega

/-- Records up to the last commit, with which they end, or none if there is no commit. -/
structure Settled (position : Nat) (entries : Entries) (records settled : List StateRecord) :
    Prop where
  part : ∃ rest, records = settled ++ rest
  commits : commitsFrom salt position entries records = commitsFrom salt position entries settled
  ends : (settled = [] ∧ commitsFrom salt position entries records = []) ∨
    ∃ commit, (commitsFrom salt position entries records).getLast? = some commit ∧
      commit.1 = position + (written (framed salt) settled).length ∧
      commit.2.entries = live entries settled

theorem exists_settled (position : Nat) (entries : Entries) (records : List StateRecord) :
    ∃ settled, Settled salt position entries records settled := by
  induction records using List.reverseRecOn with
  | nil => exact ⟨[], ⟨[], rfl⟩, rfl, .inl ⟨rfl, rfl⟩⟩
  | append_singleton records record hypothesis =>
    obtain ⟨settled, ⟨rest, parts⟩, same, ends⟩ := hypothesis
    have quiet : commitsFrom salt (position + (written (framed salt) records).length)
        (live entries records) [record] = [] →
        ∃ settled, Settled salt position entries (records ++ [record]) settled := by
      intro nothing
      have unchanged : commitsFrom salt position entries (records ++ [record]) =
          commitsFrom salt position entries records := by
        rw [commitsFrom_append, nothing, List.append_nil]
      refine ⟨settled, ⟨rest ++ [record], by rw [parts, List.append_assoc]⟩, ?_, ?_⟩
      · rw [unchanged, same]
      · rwa [unchanged]
    cases record with
    | commit height root =>
      refine ⟨_, ⟨[], (List.append_nil _).symm⟩, rfl, .inr ?_⟩
      rw [commitsFrom_append]
      refine ⟨_, List.getLast?_concat, ?_, ?_⟩
      · simp only [Frames.written_append, Frames.written_cons, Frames.written_nil, List.append_nil,
          List.length_append]
        omega
      · simp [live, applyTo]
    | entry key value => exact quiet rfl
    | delete key => exact quiet rfl

end Commits

/-! ## Replaying -/

namespace StateStore.Replay

def snapshot (replay : Replay) : Snapshot := ⟨replay.entries, replay.head, replay.committedHeight⟩

/-- The entries with the writes that wait for a commit. -/
def ahead (replay : Replay) : Entries := applyChanges replay.entries replay.pending

theorem visit_write (fits : record.Fits) {change : Key × Option Bytes}
    (same : record = changeRecord change) (replay : Replay) (start frameEnd : Nat) :
    visit replay record.encode start frameEnd =
      ({ replay with pending := replay.pending ++ [change] }, true) := by
  rw [visit, StateRecord.fromBytes_encode fits]
  obtain ⟨key, value⟩ := change
  cases value <;> cases same <;> rfl

theorem accepts_visit (fits : ∀ record ∈ records, record.Fits) :
    Accepts visit (records.map StateRecord.encode) := by
  intro payload member state start frameEnd
  obtain ⟨record, listed, rfl⟩ := List.mem_map.mp member
  rw [visit, StateRecord.fromBytes_encode (fits record listed)]
  cases record <;> rfl

theorem ahead_write (replay : Replay) (change : Key × Option Bytes) :
    ahead { replay with pending := replay.pending ++ [change] } =
      applyTo replay.ahead (changeRecord change) := by
  obtain ⟨key, value⟩ := change
  cases value <;> simp [ahead, applyChanges, applyTo, changeRecord, Overlay.applyChange]

/-- Replaying records: the writes are ahead of what the last commit holds. -/
theorem visited_visit (salt : Salt) (fits : ∀ record ∈ records, record.Fits) (position : Nat)
    (replay : Replay) : let after := visited visit salt position replay (records.map StateRecord.encode)
    let commits := commitsFrom salt position replay.ahead records
    after.snapshot = lastOr replay.snapshot commits ∧
      after.committedLen = endOr replay.committedLen commits := by
  induction records generalizing position replay with
  | nil => exact ⟨rfl, rfl⟩
  | cons record rest hypothesis =>
    have here : record.Fits := fits record List.mem_cons_self
    have later := hypothesis (List.forall_mem_cons.mp fits).2
    have write : ∀ change, record = changeRecord change →
        let after := visited visit salt position replay ((record :: rest).map StateRecord.encode)
        let commits := commitsFrom salt (position + (framed salt record).length)
          (applyTo replay.ahead record) rest
        after.snapshot = lastOr replay.snapshot commits ∧
          after.committedLen = endOr replay.committedLen commits := by
      rintro change rfl
      rw [List.map_cons, visited, visit_write here rfl, ← ahead_write]
      exact later _ _
    cases record with
    | entry key value => exact write (key, some value) rfl
    | delete key => exact write (key, none) rfl
    | commit height root =>
      have step : visit replay (StateRecord.commit height root).encode (position + lengthWidth)
          (position + (frame salt (StateRecord.commit height root).encode).length) =
          (⟨replay.ahead, some root, some height, [],
            position + (framed salt (.commit height root)).length⟩, true) := by
        rw [visit, StateRecord.fromBytes_encode here]
        rfl
      rw [List.map_cons, visited, step]
      simp only [commitsFrom, lastOr_cons, endOr_cons]
      exact later _ ⟨replay.ahead, some root, some height, [], _⟩

end StateStore.Replay

/-! ## Stores and their files -/

open StateStore

/-- An open store and its file, which holds records and nothing else. -/
structure Running (store : StateStore) (file : LogFile) (commits : List (Nat × Snapshot))
    (records : List StateRecord) : Prop where
  fits : ∀ record ∈ records, record.Fits
  bytes : file.bytes = header store.salt ++ written (framed store.salt) records
  listed : commits = commitsFrom store.salt headerLen ∅ records
  entries : store.entries = live ∅ records
  head : store.head = (lastOr .empty commits).head
  height : store.committedHeight = (lastOr .empty commits).height
  begun : headerLen ≤ file.synced
  synced : file.synced ≤ file.bytes.length
  clean : store.dirty = false → file.synced = file.bytes.length

/-- The first part of a file of records. -/
structure Cut (file : LogFile) (commits : List (Nat × Snapshot)) (salt : Salt)
    (records : List StateRecord) (cut : Nat) : Prop where
  fits : ∀ record ∈ records, record.Fits
  bytes : file.bytes = (header salt ++ written (framed salt) records).take (headerLen + cut)
  listed : commits = (commitsFrom salt headerLen ∅ records).filter fun commit =>
    commit.1 ≤ headerLen + cut
  begun : headerLen ≤ file.synced
  synced : file.synced ≤ file.bytes.length

/-- A file that no store has open: it has no header yet, or it is the first part of one with
records. -/
def Stopped (file : LogFile) (commits : List (Nat × Snapshot)) : Prop :=
  (file.bytes.length < headerLen ∧ file.synced ≤ file.bytes.length ∧ commits = []) ∨
    ∃ salt records cut, Cut file commits salt records cut

theorem Stopped.synced (stopped : Stopped file commits) : file.synced ≤ file.bytes.length := by
  rcases stopped with ⟨-, synced, -⟩ | ⟨salt, records, cut, holds⟩
  · exact synced
  · exact holds.synced

theorem ends_torn_framed (salt : Salt) (fits : ∀ record ∈ records, record.Fits) (cut : Nat) :
    Ends salt (torn (framed salt) records cut) :=
  ends_torn salt (fun record member => StateRecord.length_encode_lt (fits record member)) cut

theorem openScanned_cut {salt : Salt} {cut : Nat} (holds : Cut file commits salt records cut)
    (fresh : Salt) :
    openScannedKeepingTailStrict fresh Replay.visit .new file.bytes =
      (file.bytes, .ok (salt, visited Replay.visit salt headerLen .new
        ((whole (framed salt) records cut).map StateRecord.encode))) := by
  have kept : ∀ record ∈ whole (framed salt) records cut, record.Fits :=
    fun record member => holds.fits record (Frames.mem_of_mem_whole member)
  have small : ∀ payload ∈ (whole (framed salt) records cut).map StateRecord.encode,
      payload.length < 2 ^ 64 :=
    List.forall_mem_map.mpr fun record listed => StateRecord.length_encode_lt (kept record listed)
  have opened := openScannedKeepingTailStrict_written fresh Replay.new (Replay.accepts_visit kept) small
    (ends_torn_framed salt holds.fits cut)
  have shape : file.bytes = header salt ++ (written (framed salt) (whole (framed salt) records cut) ++
      torn (framed salt) records cut) := by
    rw [holds.bytes, ← length_header salt, List.take_length_add_append, Frames.take_written]
  rw [written_encode, ← shape] at opened
  exact opened

theorem Cut.not_short {salt : Salt} {cut : Nat} (holds : Cut file commits salt records cut) :
    ¬ file.bytes.length < headerLen :=
  Nat.not_lt.mpr (Nat.le_trans holds.begun holds.synced)

/-- Opening a file gives what its last commit holds, and leaves the records up to that. -/
theorem Cut.recover {salt : Salt} {cut : Nat} (holds : Cut file commits salt records cut)
    (fresh : Salt) :
    ∃ store after kept committedLen,
      StateStore.recover fresh false none file = (after, .ok (store, committedLen)) ∧
        Running store after commits kept ∧ store.snapshot = lastOr .empty commits := by
  have fits : ∀ record ∈ whole (framed salt) records cut, record.Fits :=
    fun record member => holds.fits record (Frames.mem_of_mem_whole member)
  have listed : commits = commitsFrom salt headerLen ∅ (whole (framed salt) records cut) := by
    rw [holds.listed, commitsFrom_whole]
  obtain ⟨snapshotEq, lengthEq⟩ := Replay.visited_visit salt fits headerLen .new
  obtain ⟨settled, ⟨rest, parts⟩, same, ends⟩ :=
    exists_settled salt headerLen ∅ (whole (framed salt) records cut)
  have opened := openScanned_cut holds fresh
  generalize visited Replay.visit salt headerLen .new
    ((whole (framed salt) records cut).map StateRecord.encode) = replay at snapshotEq lengthEq opened
  change _ = lastOr .empty (commitsFrom salt headerLen ∅ _) at snapshotEq
  change _ = endOr 0 (commitsFrom salt headerLen ∅ _) at lengthEq
  rw [← listed] at snapshotEq lengthEq same ends
  have boundary : max replay.committedLen headerLen =
      headerLen + (written (framed salt) settled).length := by
    rcases ends with ⟨rfl, nothing⟩ | ⟨commit, last, place, -⟩
    · simp [lengthEq, nothing, endOr, headerLen]
    · rw [lengthEq, endOr, last]
      simp only [Option.map_some, Option.getD_some, place]
      omega
  have entriesEq : replay.entries = live ∅ settled := by
    have stored : replay.entries = (lastOr .empty commits).entries :=
      congrArg Snapshot.entries snapshotEq
    rcases ends with ⟨rfl, nothing⟩ | ⟨commit, last, -, entries⟩
    · rw [stored, nothing]
      rfl
    · rw [stored, lastOr, last]
      exact entries
  have shape : file.bytes = header salt ++ written (framed salt) settled ++
      (written (framed salt) rest ++ torn (framed salt) records cut) := by
    rw [holds.bytes, ← length_header salt, List.take_length_add_append, Frames.take_written, parts]
    simp
  have taken : file.bytes.take (max replay.committedLen headerLen) =
      header salt ++ written (framed salt) settled := by
    rw [boundary, shape]
    exact List.take_left' (by simp)
  have settledFits : ∀ record ∈ settled, record.Fits :=
    fun record member => fits record (parts ▸ List.mem_append_left _ member)
  unfold StateStore.recover
  rw [opened, if_neg holds.not_short]
  simp only [Bool.false_eq_true, if_false, Option.any_none]
  by_cases longer : max replay.committedLen headerLen < file.bytes.length
  · rw [if_pos longer]
    refine ⟨_, _, settled, _, rfl, ?_, snapshotEq⟩
    refine ⟨settledFits, taken, same, entriesEq, congrArg Snapshot.head snapshotEq,
      congrArg Snapshot.height snapshotEq, ?_, Nat.le_refl _, fun _ => rfl⟩
    simp only [StateStore.truncate, taken, List.length_append, length_header]
    exact Nat.le_add_right _ _
  · rw [if_neg longer]
    refine ⟨_, _, settled, _, rfl, ?_, snapshotEq⟩
    refine ⟨settledFits, ?_, same, entriesEq, congrArg Snapshot.head snapshotEq,
      congrArg Snapshot.height snapshotEq, holds.begun, holds.synced, by rintro ⟨⟩⟩
    rw [List.take_of_length_le (Nat.not_lt.mp longer)] at taken
    exact taken

/-- A file without a header is given one, and is then a file without records. -/
theorem recover_short (short : file.bytes.length < headerLen) (fresh : Salt) (contended : Bool) :
    StateStore.recover fresh contended none file =
      StateStore.recover fresh contended none ⟨header fresh, headerLen⟩ := by
  have headed : prepareHeader fresh (header fresh) = (header fresh, .ok fresh) := by
    have prepared := prepareHeader_header fresh fresh []
    rwa [List.append_nil] at prepared
  have scanned : openScannedKeepingTailStrict fresh Replay.visit .new file.bytes =
      openScannedKeepingTailStrict fresh Replay.visit .new (header fresh) := by
    rw [openScannedKeepingTailStrict, scanOpenParts, scanOpenParts, headed, prepareHeader,
      if_pos short]
  unfold StateStore.recover
  rw [scanned, if_pos short, length_header, if_neg (Nat.lt_irrefl _)]

theorem cut_header (fresh : Salt) : Cut ⟨header fresh, headerLen⟩ [] fresh [] 0 :=
  ⟨List.forall_mem_nil _, by simp [List.take_of_length_le], rfl, Nat.le_refl _, by simp⟩

/-- Opening a file that no store has open gives what its last commit holds. -/
theorem Stopped.recover (stopped : Stopped file commits) (fresh : Salt) :
    ∃ store after kept committedLen,
      StateStore.recover fresh false none file = (after, .ok (store, committedLen)) ∧
        Running store after commits kept ∧ store.snapshot = lastOr .empty commits := by
  rcases stopped with ⟨short, -, rfl⟩ | ⟨salt, records, cut, holds⟩
  · rw [recover_short short]
    exact (cut_header fresh).recover fresh
  · exact holds.recover fresh

/-- A file that another process holds is refused, and stays as it is but for a header. -/
theorem Stopped.refused (stopped : Stopped file commits) (fresh : Salt) :
    ∃ after, StateStore.recover fresh true none file = (after, .error inUse) ∧
      Stopped after commits := by
  have refused : ∀ {file : LogFile} {commits salt records cut}, Cut file commits salt records cut →
      StateStore.recover fresh true none file = (file, .error inUse) := by
    intro file commits salt records cut holds
    rw [StateStore.recover, openScanned_cut holds fresh, if_neg holds.not_short]
    rfl
  rcases stopped with ⟨short, -, rfl⟩ | ⟨salt, records, cut, holds⟩
  · exact ⟨_, (recover_short short fresh true).trans (refused (cut_header fresh)),
      .inr ⟨_, _, _, cut_header fresh⟩⟩
  · exact ⟨file, refused holds, .inr ⟨salt, records, cut, holds⟩⟩

/-- What a crash leaves of a file that no store has open. -/
theorem Stopped.crash (stopped : Stopped file commits) {keep : Nat} (enough : file.synced ≤ keep)
    (inside : keep ≤ file.bytes.length) :
    Stopped ⟨file.bytes.take keep, file.synced⟩ (commits.filter fun commit => commit.1 ≤ keep) := by
  rcases stopped with ⟨short, -, rfl⟩ | ⟨salt, records, cut, fits, bytes, listed, begun, synced⟩
  · refine .inl ⟨Nat.lt_of_le_of_lt (List.length_take_le' _ _) short, ?_, rfl⟩
    exact enough.trans_eq (List.length_take_of_le inside).symm
  · obtain ⟨count, rfl⟩ := Nat.exists_eq_add_of_le (Nat.le_trans begun enough)
    refine .inr ⟨salt, records, min count cut, fits, ?_, ?_, begun, ?_⟩
    · rw [bytes, List.take_take, Nat.add_min_add_left]
    · rw [listed, List.filter_filter]
      refine List.filter_congr fun commit _ => ?_
      rw [← Bool.decide_and]
      exact decide_eq_decide.mpr (by omega)
    · change file.synced ≤ (file.bytes.take _).length
      rw [List.length_take]
      exact Nat.le_min.mpr ⟨enough, synced⟩

/-! ## Writes and commits -/

namespace Running

variable {store : StateStore} {file : LogFile} {commits : List (Nat × Snapshot)}
  {records more : List StateRecord}

/-- When its process ends, an open store leaves its file with all of its records. -/
theorem stopped (running : Running store file commits records) : Stopped file commits := by
  refine .inr ⟨store.salt, records, (written (framed store.salt) records).length, running.fits, ?_,
    ?_, running.begun, running.synced⟩
  · rw [running.bytes, List.take_of_length_le (by simp)]
  · rw [running.listed, ← commitsFrom_whole, Frames.whole_of_le (Nat.le_refl _)]

theorem live_append (entries : Entries) (first second : List StateRecord) :
    live entries (first ++ second) = live (live entries first) second := by
  rw [live, List.foldl_append]
  rfl

theorem append_eq (store : StateStore) (file : LogFile) (more : List StateRecord) :
    store.append file more =
      ({ store with dirty := store.dirty || !more.isEmpty },
        ⟨file.bytes ++ written (framed store.salt) more, file.synced⟩) := by
  cases more with
  | nil => simp [StateStore.append]
  | cons record rest =>
    rw [← written_encode]
    simp [StateStore.append, appendAll]

/-- Records that commit nothing. -/
def Writes (records : List StateRecord) : Prop :=
  ∀ salt position entries, commitsFrom salt position entries records = []

theorem writes_cons {change : Key × Option Bytes} {rest : List StateRecord} (writes : Writes rest) :
    Writes (changeRecord change :: rest) := by
  intro salt position entries
  obtain ⟨key, value⟩ := change
  cases value with
  | none => exact writes _ _ _
  | some value => exact writes _ _ _

theorem writes_map (changes : List (Key × Option Bytes)) : Writes (changes.map changeRecord) := by
  induction changes with
  | nil => exact fun _ _ _ => rfl
  | cons change rest hypothesis => exact writes_cons hypothesis

/-- Writes are appended to the file and applied to the entries. -/
theorem write (running : Running store file commits records) (writes : Writes more)
    (fits : ∀ record ∈ more, record.Fits) :
    let appended := store.append file more
    Running { appended.1 with entries := live store.entries more } appended.2 commits
      (records ++ more) := by
  simp only [append_eq]
  refine ⟨?_, ?_, ?_, ?_, running.head, running.height, running.begun, ?_, ?_⟩
  · exact List.forall_mem_append.mpr ⟨running.fits, fits⟩
  · rw [running.bytes, Frames.written_append, List.append_assoc]
  · rw [commitsFrom_append, writes, List.append_nil, running.listed]
  · rw [live_append, running.entries]
  · have synced := running.synced
    simp only [List.length_append]
    omega
  · intro clean
    obtain ⟨before, empty⟩ := Bool.or_eq_false_iff.mp clean
    cases more with
    | nil => simpa using running.clean before
    | cons record rest => cases empty

theorem put (running : Running store file commits records) {key : Key} {value : Bytes}
    (fits : value.length < 2 ^ 63) :
    let after := store.putAccount file key value
    Running after.1 after.2 commits (records ++ [.entry key value]) :=
  running.write (writes_map [(key, some value)]) fun _ member =>
    List.mem_singleton.mp member ▸ fits

theorem delete (running : Running store file commits records) (key : Key) :
    let after := store.deleteAccount file key
    Running after.1 after.2 commits (records ++ [.delete key]) :=
  running.write (writes_map [(key, none)]) fun _ member =>
    List.mem_singleton.mp member ▸ trivial

theorem live_changes (entries : Entries) (changes : List (Key × Option Bytes)) :
    live entries (changes.map changeRecord) = applyChanges entries changes := by
  rw [live, List.foldl_map, applyChanges]
  congr 1
  funext entries change
  obtain ⟨key, value⟩ := change
  cases value <;> rfl

theorem apply (running : Running store file commits records) {changes : List (Key × Option Bytes)}
    (fits : ∀ change ∈ changes, (changeRecord change).Fits) :
    let after := store.applyAccounts file changes
    Running after.1 after.2 commits (records ++ changes.map changeRecord) := by
  have applied := running.write (writes_map changes) (List.forall_mem_map.mpr fits)
  simp only [live_changes] at applied
  simp only [StateStore.applyAccounts, append_eq] at applied ⊢
  exact applied

theorem lastOr_concat (base : Snapshot) (commits : List (Nat × Snapshot))
    (commit : Nat × Snapshot) : lastOr base (commits ++ [commit]) = commit.2 := by
  rw [lastOr, List.getLast?_concat]
  rfl

theorem commit (running : Running store file commits records) (height : U64) (root : Hash) :
    let after := store.commit file height root
    Running after.1 after.2 (commits ++ [(after.2.bytes.length, after.1.snapshot)])
      (records ++ [.commit height root]) := by
  have after : store.commit file height root =
      (⟨store.salt, false, store.entries, some root, some height⟩,
        ⟨file.bytes ++ written (framed store.salt) [.commit height root],
          (file.bytes ++ written (framed store.salt) [.commit height root]).length⟩) := by
    simp [StateStore.commit, append_eq, StateStore.sync]
  have begun := Nat.le_trans running.begun running.synced
  rw [after]
  refine ⟨?_, ?_, ?_, ?_, ?_, ?_, ?_, Nat.le_refl _, fun _ => rfl⟩
  · exact List.forall_mem_append.mpr ⟨running.fits, List.forall_mem_singleton.mpr trivial⟩
  · rw [Frames.written_append, ← List.append_assoc, running.bytes]
  · rw [commitsFrom_append, ← running.listed, ← running.entries]
    simp [commitsFrom, snapshot, running.bytes, Nat.add_assoc]
  · rw [live_append, ← running.entries]
    rfl
  · rw [lastOr_concat]
    rfl
  · rw [lastOr_concat]
    rfl
  · simp only [List.length_append]
    omega

end Running

/-! ## Compaction -/

section Compaction

variable {fresh : Salt}

/-- What is written in batches is what is written at once. -/
theorem foldl_compactStep (fresh : Salt) (entries : List (Key × Bytes)) (state : Bytes × List Bytes) :
    let after := entries.foldl (compactStep fresh) state
    appendAll fresh after.1 after.2 =
      appendAll fresh (appendAll fresh state.1 state.2)
        (entries.map fun entry => (StateRecord.entry entry.1 entry.2).encode) := by
  induction entries generalizing state with
  | nil => simp [appendAll]
  | cons entry rest hypothesis =>
    rw [List.foldl_cons]
    refine (hypothesis _).trans ?_
    have step : appendAll fresh (compactStep fresh state entry).1 (compactStep fresh state entry).2 =
        appendAll fresh (appendAll fresh state.1 state.2)
          [(StateRecord.entry entry.1 entry.2).encode] := by
      simp only [compactStep]
      split <;> simp [appendAll]
    rw [step]
    simp [appendAll]

/-- The records of a compacted file. -/
def compactRecords (entries : Entries) (height : U64) (root : Hash) : List StateRecord :=
  entries.toList.map (fun entry => .entry entry.1 entry.2) ++ [.commit height root]

theorem live_toList (entries : Entries) :
    live ∅ (entries.toList.map fun entry => .entry entry.1 entry.2) = entries := by
  have changes : (entries.toList.map fun entry => StateRecord.entry entry.1 entry.2) =
      (entries.toList.map fun entry => (entry.1, some entry.2)).map changeRecord := by
    simp [changeRecord]
  have sorted : (entries.toList.map fun entry => (entry.1, some entry.2)).Pairwise
      fun first second => compare first.1 second.1 = .lt :=
    List.pairwise_map.mpr Std.ExtTreeMap.ordered_keys_toList
  rw [changes, Running.live_changes, applyChanges]
  refine Std.ExtTreeMap.ext_getElem? fun key => ?_
  rw [Overlay.getElem?_foldl_applyChange _ _ sorted, List.find?_map]
  simp only [Function.comp_def]
  cases found : entries.toList.find? fun entry => compare entry.1 key == .eq with
  | none =>
    have missing := Std.ExtTreeMap.find?_toList_eq_none_iff_not_mem.mp found
    simpa using (Std.ExtTreeMap.getElem?_eq_none missing).symm
  | some entry =>
    obtain ⟨-, stored⟩ :=
      Std.ExtTreeMap.find?_toList_eq_some_iff_getKey?_eq_some_and_getElem?_eq_some.mp found
    exact stored.symm

theorem live_fits (fits : ∀ record ∈ records, record.Fits) {entries : Entries}
    (small : ∀ (key : Key) (value : Bytes), entries[key]? = some value → value.length < 2 ^ 63)
    (key : Key) (value : Bytes) (found : (live entries records)[key]? = some value) :
    value.length < 2 ^ 63 := by
  induction records generalizing entries with
  | nil => exact small key value found
  | cons record rest hypothesis =>
    refine hypothesis (List.forall_mem_cons.mp fits).2 ?_
      found
    intro key value found
    have here := fits record List.mem_cons_self
    cases record with
    | entry other appended =>
      rw [applyTo, Std.ExtTreeMap.getElem?_insert] at found
      split at found
      · cases found
        exact here
      · exact small key value found
    | commit height root => exact small key value found
    | delete other =>
      rw [applyTo, Std.ExtTreeMap.getElem?_erase] at found
      split at found
      · cases found
      · exact small key value found

theorem compact_eq {store : StateStore} (file : LogFile) {height : U64} {root : Hash}
    (heightEq : store.committedHeight = some height) (headEq : store.head = some root) :
    store.compact fresh file =
      (let bytes := header fresh ++ written (framed fresh) (compactRecords store.entries height root)
      ({ store with salt := fresh, dirty := false }, ⟨bytes, bytes.length⟩)) := by
  have batched := foldl_compactStep fresh store.entries.toList (header fresh, [])
  have bytes : appendAll fresh (appendAll fresh (header fresh) [])
      (store.entries.toList.map fun entry => (StateRecord.entry entry.1 entry.2).encode) =
      header fresh ++ written (framed fresh)
        (store.entries.toList.map fun entry => .entry entry.1 entry.2) := by
    rw [← written_encode, List.map_map]
    simp [appendAll, Function.comp_def]
  simp only [StateStore.compact, heightEq, headEq, batched, bytes]
  simp [appendAll, compactRecords, framed]

theorem some_of_mem_commitsFrom {salt : Salt} {position : Nat} {entries : Entries}
    {commit : Nat × Snapshot} (member : commit ∈ commitsFrom salt position entries records) :
    commit.2.head.isSome ∧ commit.2.height.isSome := by
  induction records generalizing position entries with
  | nil => cases member
  | cons record rest hypothesis =>
    cases record with
    | commit height root =>
      rcases List.mem_cons.mp member with rfl | later
      · exact ⟨rfl, rfl⟩
      · exact hypothesis later
    | entry key value => exact hypothesis member
    | delete key => exact hypothesis member

/-- Nothing was written since the last commit. -/
def Quiet (store : StateStore) (commits : List (Nat × Snapshot)) : Prop :=
  store.snapshot = lastOr .empty commits

/-- The commits of a file after its compaction: one with what the last of them holds. -/
def compactedCommits (file : LogFile) (commits : List (Nat × Snapshot)) : List (Nat × Snapshot) :=
  if commits = [] then [] else [(file.bytes.length, lastOr .empty commits)]

theorem Running.compact {store : StateStore} (running : Running store file commits records)
    (quiet : Quiet store commits) (fresh : Salt) : let after := store.compact fresh file
    ∃ records, Running after.1 after.2 (compactedCommits after.2 commits) records ∧
      Quiet after.1 (compactedCommits after.2 commits) ∧ after.1.snapshot = store.snapshot := by
  cases last : commits.getLast? with
  | none =>
    have nothing : commits = [] := List.getLast?_eq_none_iff.mp last
    have same : store.compact fresh file = (store, file) := by
      have absent : store.head = none := by rw [running.head, nothing]; rfl
      rw [StateStore.compact, absent]
      cases store.committedHeight <;> rfl
    rw [same]
    refine ⟨records, ?_⟩
    rw [compactedCommits, if_pos nothing, ← nothing]
    exact ⟨running, quiet, rfl⟩
  | some commit =>
    have several : commits ≠ [] := fun nothing => by rw [nothing] at last; cases last
    have lastEq : lastOr .empty commits = commit.2 := by rw [lastOr, last]; rfl
    have listed : commit ∈ commitsFrom store.salt headerLen ∅ records :=
      running.listed ▸ List.mem_of_getLast? last
    obtain ⟨headSome, heightSome⟩ := some_of_mem_commitsFrom listed
    obtain ⟨root, headEq⟩ := Option.isSome_iff_exists.mp headSome
    obtain ⟨height, heightEq⟩ := Option.isSome_iff_exists.mp heightSome
    rw [← lastEq, ← running.head] at headEq
    rw [← lastEq, ← running.height] at heightEq
    have snapshotEq : lastOr .empty commits = ⟨store.entries, some root, some height⟩ := by
      rw [← quiet, StateStore.snapshot, headEq, heightEq]
    rw [compact_eq file heightEq headEq]
    simp only [compactedCommits, if_neg several]
    refine ⟨compactRecords store.entries height root, ?_, quiet, rfl⟩
    refine ⟨?_, rfl, ?_, ?_, ?_, ?_, ?_, Nat.le_refl _, fun _ => rfl⟩
    · intro record member
      rcases List.mem_append.mp member with entry | last
      · obtain ⟨⟨key, value⟩, stored, rfl⟩ := List.mem_map.mp entry
        rw [Std.ExtTreeMap.mem_toList_iff_getElem?_eq_some, running.entries] at stored
        exact live_fits running.fits (by simp) key value stored
      · exact List.mem_singleton.mp last ▸ trivial
    · rw [snapshotEq, compactRecords, commitsFrom_append, live_toList]
      have writes : Running.Writes
          (store.entries.toList.map fun entry => .entry entry.1 entry.2) := by
        have mapped := Running.writes_map
          (store.entries.toList.map fun entry => (entry.1, some entry.2))
        rw [List.map_map] at mapped
        exact mapped
      rw [writes]
      simp [commitsFrom, Nat.add_assoc]
    · rw [compactRecords, Running.live_append, live_toList]
      rfl
    · exact running.head
    · exact running.height
    · simp

end Compaction

end QuantovaChain.Store
