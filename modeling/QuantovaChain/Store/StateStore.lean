import QuantovaChain.Codec.Decoder
import QuantovaChain.Store.Log

/-!
# The state store

The state store keeps the leaves of the ledger in memory and in a log. The log has a record for
every write, and a record for every commit, which is synced. Opening a store replays the log. Writes
wait until the commit behind them, and what stands behind the last commit is cut off the file, so
that a later commit cannot take it in. When the file is much larger than its leaves, it is replaced
by one with a record for every leaf and one commit.
-/

namespace QuantovaChain.Store

open State (Bytes Hash)
open Std (ExtTreeMap)
open Codec Codec.Decoder

/-! ## Records -/

abbrev Key := Vector UInt8 32

inductive StateRecord
  | entry (key : Key) (value : Bytes)
  | commit (height : U64) (root : Hash)
  | delete (key : Key)
  deriving DecidableEq

def tagEntry : UInt8 := 1

def tagCommit : UInt8 := 2

def tagDelete : UInt8 := 3

def putFixed (value : Vector UInt8 32) : Bytes := value.toList.flatMap putU8

def getFixed : Decoder Error (Vector UInt8 32) := Reading.fill getU8 32

namespace StateRecord

def encode : StateRecord → Bytes
  | .entry key value => putU8 tagEntry ++ (putFixed key ++ putBytes value)
  | .commit height root => putU8 tagCommit ++ (putU64 height ++ putFixed root)
  | .delete key => putU8 tagDelete ++ putFixed key

def decode : Decoder Error StateRecord := do
  let tag ← getU8
  if tag = tagEntry then
    let key ← getFixed
    let value ← getBytes
    return .entry key value
  else if tag = tagCommit then
    let height ← getU64
    let root ← getFixed
    return .commit height root
  else if tag = tagDelete then
    let key ← getFixed
    return .delete key
  else throw (.unknownTag tag)

def fromBytes (bytes : Bytes) : Except Error StateRecord :=
  StateT.run' (do
    let record ← decode
    finish
    return record) bytes

/-- The value of a record fits the length in front of it, with what else is in the record. -/
def Fits : StateRecord → Prop
  | .entry _ value => value.length < 2 ^ 63
  | _ => True

end StateRecord

def entryRecordLen (valueLen : Nat) : Nat := 1 + 32 + lengthWidth + valueLen

/-! ## The store -/

abbrev Entries := ExtTreeMap Key Bytes compare

instance : Std.TransCmp (compare : Key → Key → Ordering) := inferInstance

/-- A file, and how much of it survives every crash. -/
structure LogFile where
  bytes : Bytes
  synced : Nat

/-- A store that is open, with the salt of its log and whether the log has to be synced. -/
structure StateStore where
  salt : Salt
  dirty : Bool
  entries : Entries
  head : Option Hash
  committedHeight : Option U64

def compactFloorBytes : Nat := 64 * 1024 * 1024

def compactRatio : Nat := 4

def compactBatch : Nat := 4096

namespace StateStore

variable (store : StateStore) (file : LogFile)

def append (records : List StateRecord) : StateStore × LogFile :=
  if records.isEmpty then (store, file)
  else ({ store with dirty := true },
    { file with bytes := appendAll store.salt file.bytes (records.map StateRecord.encode) })

def sync : StateStore × LogFile :=
  if store.dirty then ({ store with dirty := false }, { file with synced := file.bytes.length })
  else (store, file)

def truncate (length : Nat) : StateStore × LogFile :=
  let bytes := file.bytes.take (max length headerLen)
  ({ store with dirty := false }, ⟨bytes, bytes.length⟩)

def putAccount (key : Key) (value : Bytes) : StateStore × LogFile :=
  let (store, file) := store.append file [.entry key value]
  ({ store with entries := store.entries.insert key value }, file)

def deleteAccount (key : Key) : StateStore × LogFile :=
  let (store, file) := store.append file [.delete key]
  ({ store with entries := store.entries.erase key }, file)

/-- The record of a change. -/
def changeRecord : Key × Option Bytes → StateRecord
  | (key, some value) => .entry key value
  | (key, none) => .delete key

/-- The entries after changes. -/
def applyChanges (entries : Entries) (changes : List (Key × Option Bytes)) : Entries :=
  changes.foldl (fun entries change => Overlay.applyChange entries change.1 change.2) entries

def applyAccounts (changes : List (Key × Option Bytes)) : StateStore × LogFile :=
  let (store, file) := store.append file (changes.map changeRecord)
  ({ store with entries := applyChanges store.entries changes }, file)

def commit (height : U64) (root : Hash) : StateStore × LogFile :=
  let (store, file) := store.append file [.commit height root]
  let (store, file) := store.sync file
  ({ store with head := some root, committedHeight := some height }, file)

/-! ### Compaction -/

def liveBytes : Nat :=
  (store.entries.toList.map fun entry => entryRecordLen entry.2.length + lengthWidth +
    checksumWidth).sum

def shouldCompact (onDisk : Nat) : Bool :=
  if onDisk < compactFloorBytes then false
  else compactRatio ≤ onDisk / max store.liveBytes 1

/-- Adds an entry to a batch, and the batch to the file when it is full. -/
def compactStep (salt : Salt) (state : Bytes × List Bytes) (entry : Key × Bytes) :
    Bytes × List Bytes :=
  let batch := state.2 ++ [(StateRecord.entry entry.1 entry.2).encode]
  if compactBatch ≤ batch.length then (appendAll salt state.1 batch, []) else (state.1, batch)

/-- Writes the entries and a commit to a new file with a salt of its own, syncs it, and puts it in
the place of the old one. A store without a commit is left as it is. -/
def compact (fresh : Salt) (store : StateStore) (file : LogFile) : StateStore × LogFile :=
  match store.committedHeight, store.head with
  | some height, some root =>
    let (bytes, batch) := store.entries.toList.foldl (compactStep fresh) (header fresh, [])
    let bytes := appendAll fresh bytes batch
    let bytes := appendAll fresh bytes [(StateRecord.commit height root).encode]
    ({ store with salt := fresh, dirty := false }, ⟨bytes, bytes.length⟩)
  | _, _ => (store, file)

/-! ### Opening -/

/-- What is known of a log while it is replayed. -/
structure Replay where
  entries : Entries
  head : Option Hash
  committedHeight : Option U64
  pending : List (Key × Option Bytes)
  committedLen : Nat

def Replay.new : Replay := ⟨∅, none, none, [], 0⟩

def Replay.visit : Visitor Replay := fun replay payload _ frameEnd =>
  match StateRecord.fromBytes payload with
  | .ok (.entry key value) =>
    ({ replay with pending := replay.pending ++ [(key, some value)] }, true)
  | .ok (.delete key) => ({ replay with pending := replay.pending ++ [(key, none)] }, true)
  | .ok (.commit height root) =>
    (⟨applyChanges replay.entries replay.pending, some root, some height, [], frameEnd⟩, true)
  | .error _ => (replay, false)

def inUse : String := "another live process holds this state log"

/-- Replays the log and cuts off what stands behind the last commit, unless the commits have not
come to the floor. A log that another process holds is refused. The store comes with the end of the
last commit. -/
def recover (fresh : Salt) (contended : Bool) (floor : Option U64) (file : LogFile) :
    LogFile × Except String (StateStore × Nat) :=
  let synced := if file.bytes.length < headerLen then headerLen else file.synced
  match openScannedKeepingTailStrict fresh Replay.visit Replay.new file.bytes with
  | (bytes, .error message) => (⟨bytes, synced⟩, .error message)
  | (bytes, .ok (salt, replay)) =>
    let file : LogFile := ⟨bytes, synced⟩
    let store : StateStore := ⟨salt, true, replay.entries, replay.head, replay.committedHeight⟩
    if contended then (file, .error inUse)
    else if floor.any fun floor => replay.committedHeight.all (· < floor) then
      (file, .ok (store, 0))
    else if max replay.committedLen headerLen < bytes.length then
      let (store, file) := store.truncate file replay.committedLen
      (file, .ok (store, replay.committedLen))
    else (file, .ok (store, replay.committedLen))

/-- Opens a store, and compacts its log if it is much larger than the entries. The compaction is
skipped when it fails, which changes nothing. -/
def openStore (fresh compacted : Salt) (contended skipped : Bool) (file : LogFile) :
    LogFile × Except String StateStore :=
  match recover fresh contended none file with
  | (file, .error message) => (file, .error message)
  | (file, .ok (store, committedLen)) =>
    if store.shouldCompact committedLen ∧ skipped = false then
      let (store, file) := store.compact compacted file
      (file, .ok store)
    else (file, .ok store)

end StateStore

end QuantovaChain.Store
