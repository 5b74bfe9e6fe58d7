import QuantovaChain.Library.SortedRuns
import QuantovaChain.Store.StateStore
import Mathlib.Data.List.Induction

/-!
# The transaction index

The index gives the height of a transaction by its identifier. New records are appended to a tail,
which is also kept in memory. A long tail is sorted into a run, a file that is not written again,
and runs of similar size are folded into one. A lookup asks the tail, and then the runs from the
newest on.

A call on the index is a new index and the acts on the disk that the call consists of, in their
order. A run is published by renaming a finished file, and a change of names lasts only when the
directory was synced.
-/

namespace QuantovaChain.Store

open State (Bytes)
open SortedRuns

/-! ## Records -/

abbrev TxRecord := Key × U64

def recordLen : Nat := 44

def tailMergeAt : Nat := 4096

def runFanout : Nat := 4

def recordBytes (record : TxRecord) : Bytes :=
  Crc.sealed (record.1.toList ++ record.2.beBytes 8)

def splitRecord (bytes : Bytes) : Option TxRecord :=
  if Crc.Intact bytes then
    some (Vector.ofFn fun place => bytes.getD place.val 0,
      Word.ofLe 64 ((bytes.drop 32).take 8).reverse)
  else none

/-- The bytes at the place of a record. -/
def recordAt (bytes : Bytes) (place : Nat) : Bytes := (bytes.drop (place * recordLen)).take recordLen

/-- The records that are read one after another. Damaged ones are skipped. -/
def records (bytes : Bytes) : List TxRecord :=
  (List.range (bytes.length / recordLen)).filterMap fun place => splitRecord (recordAt bytes place)

/-! ## The disk -/

/-- The file of a run. Its number is in its name. -/
structure Run where
  seq : Nat
  bytes : Bytes
  deriving DecidableEq

/-- Whether the name of a run is on the disk for good, or was made or removed since the directory
was synced. -/
inductive Presence
  | durable
  | added
  | removed
  deriving DecidableEq

structure RunFile where
  run : Run
  presence : Presence
  deriving DecidableEq

/-- The directory of an index: the runs, a file that is still being written, and the tail. While the
tail was emptied but not synced, the tail before is kept too. -/
structure IndexDisk where
  files : List RunFile
  rebuilding : Option Bytes
  tail : LogFile
  truncated : Option LogFile

inductive DiskAct
  | append (records : List TxRecord)
  | syncTail
  | truncateTail
  | setTailLen (length : Nat)
  | rebuild (bytes : Bytes)
  | rename (seq : Nat)
  | discardRebuilding
  | removeRun (seq : Nat)
  | syncDir

namespace IndexDisk

/-- The names that a program finds. -/
def listed (disk : IndexDisk) : List Run :=
  (disk.files.filter fun file => file.presence ≠ .removed).map RunFile.run

def perform (disk : IndexDisk) : DiskAct → IndexDisk
  | .append records =>
    { disk with tail :=
        { disk.tail with bytes := disk.tail.bytes ++ Frames.written recordBytes records } }
  | .syncTail =>
    { disk with tail := { disk.tail with synced := disk.tail.bytes.length }, truncated := none }
  | .truncateTail => { disk with tail := ⟨[], 0⟩, truncated := some disk.tail }
  | .setTailLen length =>
    { disk with tail := ⟨disk.tail.bytes.take length, min disk.tail.synced length⟩ }
  | .rebuild bytes => { disk with rebuilding := some bytes }
  | .rename seq =>
    match disk.rebuilding with
    | none => disk
    | some bytes =>
      { disk with files := disk.files ++ [⟨⟨seq, bytes⟩, .added⟩], rebuilding := none }
  | .discardRebuilding => { disk with rebuilding := none }
  | .removeRun seq =>
    { disk with files := disk.files.map fun file =>
        if file.run.seq = seq then { file with presence := .removed } else file }
  | .syncDir => { disk with files := disk.listed.map fun run => ⟨run, .durable⟩ }

end IndexDisk

/-! ## The index -/

def Run.len (run : Run) : Nat := run.bytes.length / recordLen

def recordFailed : String := "a transaction index record failed its checksum"

/-- The record at a place of a run. -/
def Run.read (run : Run) (place : Nat) : Except String TxRecord :=
  match splitRecord (recordAt run.bytes place) with
  | some record => .ok record
  | none => .error recordFailed

/-- The interval gets shorter in every round, so that its length bounds the rounds. -/
def searchRun (run : Run) (id : Key) : Except String (Option U64) :=
  bisect run.read id run.len 0 run.len

structure TxIndex where
  runs : List Run
  nextSeq : Nat
  sortedLen : Nat
  tailLen : Nat
  tailMem : List TxRecord
  unsynced : Bool

namespace TxIndex

def openIndex (disk : IndexDisk) : TxIndex × List DiskAct :=
  let found := disk.listed.insertionSort fun first second => first.seq ≤ second.seq
  let stored := disk.tail.bytes.length / recordLen
  let tailMem := records (disk.tail.bytes.take (stored * recordLen))
  ({ runs := found
     nextSeq := (found.getLast?.map fun run => run.seq + 1).getD 0
     sortedLen := (found.map Run.len).sum
     tailLen := tailMem.length
     tailMem
     unsynced := true },
    (if disk.rebuilding.isSome then [.discardRebuilding] else []) ++
      if disk.tail.bytes.length % recordLen ≠ 0 then [.setTailLen (stored * recordLen)] else [])

def scanTail (index : TxIndex) (id : Key) : Option U64 := lastOf index.tailMem id

/-- The first answer of runs. -/
def searchRuns (id : Key) : List Run → Except String (Option U64)
  | [] => .ok none
  | run :: rest => do
    match ← searchRun run id with
    | some height => .ok (some height)
    | none => searchRuns id rest

def get (index : TxIndex) (id : Key) : Except String (Option U64) :=
  match index.scanTail id with
  | some height => .ok (some height)
  | none => searchRuns id index.runs.reverse

/-- A run is written under another name, and gets its own when it is complete. -/
def writeRun (index : TxIndex) (records : List TxRecord) : Run × TxIndex × List DiskAct :=
  let run : Run := ⟨index.nextSeq, Frames.written recordBytes records⟩
  (run, { index with nextSeq := index.nextSeq + 1 },
    [.rebuild run.bytes, .rename run.seq, .syncDir])

/-- The two newest runs become one. -/
def foldNewest (index : TxIndex) (rest : List Run) (older newer : Run) : TxIndex × List DiskAct :=
  let (run, index, writing) := index.writeRun (combine (records older.bytes) (records newer.bytes))
  ({ index with
      runs := rest ++ [run]
      sortedLen := index.sortedLen - older.len - newer.len + run.len },
    writing ++ [.removeRun older.seq, .removeRun newer.seq, .syncDir])

/-- Folding goes on until the newest run is much smaller than the one before it. Every round takes
one run away, so that their number bounds the rounds. -/
def foldRounds : Nat → TxIndex → TxIndex × List DiskAct
  | 0, index => (index, [])
  | rounds + 1, index =>
    match index.runs.reverse with
    | newer :: older :: rest =>
      if newer.len * runFanout < older.len then (index, [])
      else
        let (index, folding) := index.foldNewest rest.reverse older newer
        let (index, more) := index.foldRounds rounds
        (index, folding ++ more)
    | _ => (index, [])

def merge (index : TxIndex) : TxIndex × List DiskAct :=
  if index.tailLen = 0 then (index, [])
  else
    let (run, index, writing) := index.writeRun (runOf index.tailMem)
    let index := { index with
      runs := index.runs ++ [run]
      sortedLen := index.sortedLen + run.len
      tailLen := 0
      tailMem := [] }
    let (index, folding) := index.foldRounds index.runs.length
    (index, writing ++ .truncateTail :: .syncTail :: folding)

/-- The tail in memory with more records. -/
def grown (index : TxIndex) (chunk : List TxRecord) : TxIndex :=
  { index with
    unsynced := true
    tailLen := index.tailLen + chunk.length
    tailMem := index.tailMem ++ chunk }

def mergeFull (index : TxIndex) : TxIndex × List DiskAct :=
  if tailMergeAt ≤ index.tailLen then index.merge else (index, [])

/-- Records go to the tail in parts, so that the tail is merged when it is full. A part is not
empty, so that the number of records bounds the rounds. -/
def insertRounds : Nat → TxIndex → List TxRecord → TxIndex × List DiskAct
  | 0, index, _ => (index, [])
  | rounds + 1, index, records =>
    if records.isEmpty then (index, [])
    else
      let room := max (tailMergeAt - index.tailLen) 1
      let chunk := records.take room
      let (index, merging) := (index.grown chunk).mergeFull
      let (index, more) := index.insertRounds rounds (records.drop room)
      (index, .append chunk :: merging ++ more)

def insertAll (index : TxIndex) (records : List TxRecord) : TxIndex × List DiskAct :=
  index.insertRounds records.length records

def sync (index : TxIndex) : TxIndex × List DiskAct :=
  if index.unsynced then ({ index with unsynced := false }, [.syncTail]) else (index, [])

end TxIndex

/-! ## Reading back -/

@[simp] theorem length_recordBytes (record : TxRecord) : (recordBytes record).length = recordLen := by
  simp [recordBytes, Word.beBytes, recordLen]

theorem splitRecord_recordBytes (record : TxRecord) :
    splitRecord (recordBytes record) = some record := by
  obtain ⟨id, height⟩ := record
  rw [splitRecord, recordBytes, if_pos (Crc.intact_sealed _)]
  have idEq : (Vector.ofFn fun place : Fin 32 =>
      (Crc.sealed (id.toList ++ height.beBytes 8)).getD place.val 0) = id := by
    refine Vector.ext fun place inside => ?_
    have within : place < id.toList.length := by simpa using inside
    rw [Vector.getElem_ofFn, Crc.sealed, List.append_assoc,
      List.getD_append _ _ _ _ within, List.getD_eq_getElem _ _ within, Vector.getElem_toList]
  have heightEq : Word.ofLe 64
      (((Crc.sealed (id.toList ++ height.beBytes 8)).drop 32).take 8).reverse = height := by
    have bytes : ((Crc.sealed (id.toList ++ height.beBytes 8)).drop 32).take 8 =
        height.beBytes 8 := by
      rw [Crc.sealed, List.append_assoc, List.drop_left' (by simp), List.take_left' (by
        simp [Word.beBytes])]
    rw [bytes, Word.beBytes, List.reverse_reverse]
    exact (Word.ofLe_eq_iff rfl (by simp)).mpr rfl
  simp only [idEq, heightEq]

theorem length_written (entries : List TxRecord) :
    (Frames.written recordBytes entries).length = entries.length * recordLen := by
  induction entries with
  | nil => simp
  | cons entry rest hypothesis =>
    rw [Frames.written_cons, List.length_append, hypothesis, length_recordBytes,
      List.length_cons, Nat.succ_mul, Nat.add_comm]

/-- A record in a file of records. -/
theorem recordAt_written {entries : List TxRecord} {place : Nat} (inside : place < entries.length)
    (rest : Bytes) :
    recordAt (Frames.written recordBytes entries ++ rest) place = recordBytes entries[place] := by
  induction entries generalizing place with
  | nil => exact absurd inside (Nat.not_lt_zero _)
  | cons entry entries hypothesis =>
    rw [Frames.written_cons, List.append_assoc]
    cases place with
    | zero =>
      rw [recordAt, Nat.zero_mul, List.drop_zero, List.take_left' (length_recordBytes entry)]
      rfl
    | succ place =>
      have later : recordAt (recordBytes entry ++ (Frames.written recordBytes entries ++ rest))
          (place + 1) = recordAt (Frames.written recordBytes entries ++ rest) place := by
        rw [recordAt, recordAt, Nat.succ_mul, Nat.add_comm, ← List.drop_drop,
          List.drop_left' (length_recordBytes entry)]
      rw [later, hypothesis (Nat.lt_of_succ_lt_succ inside)]
      rfl

theorem filterMap_getElem?_range {α : Type} (entries : List α) :
    (List.range entries.length).filterMap (entries[·]?) = entries := by
  induction entries with
  | nil => rfl
  | cons entry rest hypothesis =>
    rw [List.length_cons, List.range_succ_eq_map, List.filterMap_cons, List.filterMap_map]
    exact congrArg (entry :: ·) hypothesis

/-- Behind whole records a part of one more is not read. -/
theorem records_written (entries : List TxRecord) {rest : Bytes} (short : rest.length < recordLen) :
    records (Frames.written recordBytes entries ++ rest) = entries := by
  have count : (Frames.written recordBytes entries ++ rest).length / recordLen = entries.length := by
    rw [List.length_append, length_written, Nat.mul_comm, Nat.mul_add_div (by decide),
      Nat.div_eq_of_lt short, Nat.add_zero]
  have reads : ∀ place ∈ List.range entries.length,
      splitRecord (recordAt (Frames.written recordBytes entries ++ rest) place) =
        entries[place]? := by
    intro place inside
    have inside := List.mem_range.mp inside
    rw [recordAt_written inside, splitRecord_recordBytes, List.getElem?_eq_getElem inside]
  rw [records, count, List.filterMap_congr reads, filterMap_getElem?_range]

namespace Run

def entries (run : Run) : List TxRecord := records run.bytes

/-- A run is made of whole records, in the order of their identifiers. -/
structure Formed (run : Run) : Prop where
  whole : run.bytes = Frames.written recordBytes run.entries
  sorted : Sorted run.entries

theorem entries_written (seq : Nat) (entries : List TxRecord) :
    Run.entries ⟨seq, Frames.written recordBytes entries⟩ = entries := by
  have read := @records_written entries [] (by decide)
  rwa [List.append_nil] at read

theorem formed_written {seq : Nat} {entries : List TxRecord} (sorted : Sorted entries) :
    Formed ⟨seq, Frames.written recordBytes entries⟩ :=
  ⟨by rw [entries_written], by rwa [entries_written]⟩

theorem Formed.search {run : Run} (formed : run.Formed) (id : Key) :
    searchRun run id = .ok (lastOf run.entries id) := by
  have length : run.len = run.entries.length := by
    rw [len, formed.whole, length_written, Nat.mul_div_cancel _ (by decide)]
  refine bisect_spec formed.sorted (fun place inside => ?_) id ⟨Nat.le_of_eq length, ?_, ?_⟩ (by omega)
  · have found := recordAt_written inside []
    rw [List.append_nil, ← formed.whole] at found
    rw [read, found, splitRecord_recordBytes]
  · intro place inside before
    exact absurd before (Nat.not_lt_zero _)
  · intro place inside behind
    exact absurd inside (by omega)

end Run

/-- What runs hold, from the oldest on. -/
def held (runs : List Run) : List TxRecord := runs.flatMap Run.entries

@[simp] theorem held_append (first second : List Run) :
    held (first ++ second) = held first ++ held second :=
  List.flatMap_append

@[simp] theorem held_singleton (run : Run) : held [run] = run.entries := by
  simp [held]

namespace TxIndex

theorem searchRuns_spec {runs : List Run} (formed : ∀ run ∈ runs, run.Formed) (id : Key) :
    searchRuns id runs.reverse = .ok (lastOf (held runs) id) := by
  induction runs using List.reverseRecOn with
  | nil => rfl
  | append_singleton older run hypothesis =>
    have newest := (formed run (by simp)).search id
    have rest := hypothesis fun run listed => formed run (by simp [listed])
    rw [List.reverse_concat, searchRuns, newest, held_append, held_singleton, lastOf_append]
    cases lastOf run.entries id with
    | none => exact rest
    | some height => rfl

/-- A lookup finds the last record among the runs and the tail. -/
theorem get_spec {index : TxIndex} (formed : ∀ run ∈ index.runs, run.Formed) (id : Key) :
    index.get id = .ok (lastOf (held index.runs ++ index.tailMem) id) := by
  rw [get, scanTail, lastOf_append, searchRuns_spec formed]
  cases lastOf index.tailMem id with
  | none => rfl
  | some height => rfl

end TxIndex

end QuantovaChain.Store
