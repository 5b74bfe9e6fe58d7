import QuantovaChain.Library.Crc
import QuantovaChain.State.Trie

/-!
# The signing guards and their files

A node keeps a mark of the last height and view at which it signed, and of what it signed there. It
signs only above its mark, or at the mark the same value again.

A guard writes its mark to a new file, syncs it, renames it over the old one and syncs the
directory. A crash may fall at any point of this, and the writing may fail as well. A rename whose
directory was not synced is seen by whoever opens the file next, but a crash of the machine may undo
it. The guard takes a mark over only after the writing succeeded, and lets nothing be signed before
that, except for the value of a reservation, whose mark is in the file without the value.

A run is a sequence of calls, crashes and openings over one file. Over every run the positions at
which a guard lets something be signed do not go back, and at one position it lets one value
through.
-/

namespace QuantovaChain.Node

open State (Bytes Hash)

def zeroHash : Hash := Vector.replicate 32 0

/-- Where a vote is cast. -/
structure Position where
  height : U64
  view : U64
  deriving DecidableEq, Repr

namespace Position

/-- Positions are passed in the order of their heights, and then of their views. -/
def Before (first second : Position) : Prop :=
  first.height < second.height ∨ first.height = second.height ∧ first.view < second.view

instance (first second : Position) : Decidable (first.Before second) :=
  inferInstanceAs (Decidable (_ ∨ _))

theorem before_iff {first second : Position} :
    first.Before second ↔ first.height.val < second.height.val ∨
      first.height.val = second.height.val ∧ first.view.val < second.view.val := by
  rw [Before, Word.lt_def, Word.lt_def, Word.ext_iff]

theorem before_irrefl (position : Position) : ¬ position.Before position := by
  rw [before_iff]
  omega

theorem Before.trans {first second third : Position} (earlier : first.Before second)
    (later : second.Before third) : first.Before third := by
  rw [before_iff] at *
  omega

theorem Before.asymm {first second : Position} (earlier : first.Before second) :
    ¬ second.Before first := fun later => before_irrefl _ (earlier.trans later)

end Position

/-! ## Marks -/

/-- The last position signed at, and what was signed there. -/
structure Mark (α : Type) where
  position : Position
  value : α
  deriving DecidableEq, Repr

namespace Mark

variable {α : Type}

def permits [DecidableEq α] (mark : Option (Mark α)) (position : Position) (value : α) : Bool :=
  match mark with
  | none => true
  | some mark =>
    mark.position.Before position || (position = mark.position && mark.value = value)

/-- The mark says that a value was signed at a position, or is past the position. -/
def Covers (mark : Option (Mark α)) (position : Position) (value : α) : Prop :=
  ∃ held, mark = some held ∧
    (position.Before held.position ∨ position = held.position ∧ held.value = value)

theorem covers_self (position : Position) (value : α) :
    Covers (some ⟨position, value⟩) position value :=
  ⟨_, rfl, .inr ⟨rfl, rfl⟩⟩

variable {mark : Option (Mark α)} {position earlier : Position} {value signed : α}

theorem permits_iff [DecidableEq α] :
    permits mark position value = true ↔ ∀ held, mark = some held →
      held.position.Before position ∨ position = held.position ∧ held.value = value := by
  cases mark with
  | none => simp [permits]
  | some held => simp [permits]

/-- Everything is permitted above the height of the mark. -/
theorem permits_of_above [DecidableEq α]
    (above : ∀ held, mark = some held → held.position.height < position.height) :
    permits mark position value = true :=
  permits_iff.mpr fun held same => .inl (.inl (above held same))

/-- What is permitted is not before the mark. -/
theorem all_not_before [DecidableEq α] (permitted : permits mark position value = true) :
    (mark.all fun held => ¬ position.Before held.position) = true := by
  cases mark with
  | none => rfl
  | some held =>
    simp only [Option.all_some, decide_eq_true_eq]
    rcases permits_iff.mp permitted held rfl with after | ⟨rfl, -⟩
    · exact after.asymm
    · exact Position.before_irrefl _

/-- Nothing is permitted at a position but what was signed there. -/
theorem Covers.agrees [DecidableEq α] (covers : Covers mark position signed)
    (permitted : permits mark position value = true) : value = signed := by
  obtain ⟨held, rfl, before | ⟨rfl, same⟩⟩ := covers
  · rcases permits_iff.mp permitted held rfl with after | ⟨rfl, -⟩
    · exact absurd after before.asymm
    · exact absurd before (Position.before_irrefl _)
  · rcases permits_iff.mp permitted held rfl with after | ⟨-, again⟩
    · exact absurd after (Position.before_irrefl _)
    · exact again.symm.trans same

/-- Nothing is permitted before a position that was signed at. -/
theorem Covers.not_before [DecidableEq α] (covers : Covers mark earlier signed)
    (permitted : permits mark position value = true) : ¬ position.Before earlier := by
  intro back
  obtain ⟨held, rfl, place⟩ := covers
  have ahead : position.Before held.position := by
    rcases place with before | ⟨rfl, -⟩
    · exact back.trans before
    · exact back
  rcases permits_iff.mp permitted held rfl with after | ⟨rfl, -⟩
  · exact after.asymm ahead
  · exact Position.before_irrefl _ ahead

/-- A mark that a permitted value replaces still covers what it covered. -/
theorem Covers.advance [DecidableEq α] (covers : Covers mark earlier signed)
    (permitted : permits mark position value = true) :
    Covers (some ⟨position, value⟩) earlier signed := by
  refine ⟨_, rfl, ?_⟩
  obtain ⟨held, rfl, place⟩ := covers
  rcases permits_iff.mp permitted held rfl with after | ⟨rfl, again⟩
  · rcases place with before | ⟨rfl, -⟩
    · exact .inl (before.trans after)
    · exact .inl after
  · rcases place with before | ⟨rfl, same⟩
    · exact .inl before
    · exact .inr ⟨rfl, again.symm.trans same⟩

end Mark

/-! ## The guard of precommits -/

/-- A mark is written before it is taken over, so the file always holds the mark. Marks of an older
format hold no value. -/
structure SignGuard where
  mark : Option (Mark (Option Hash))
  deriving DecidableEq, Repr

namespace SignGuard

def permits (guard : SignGuard) (position : Position) (value : Hash) : Bool :=
  Mark.permits guard.mark position (some value)

end SignGuard

/-! ## Marks as bytes -/

/-- The file of a mark: height, view, value, and the checksum of these. -/
def markBytes (mark : Mark Hash) : Bytes :=
  Crc.sealed (mark.position.height.leBytes 8 ++ mark.position.view.leBytes 8 ++
    mark.value.toList)

def decodePosition (bytes : Bytes) : Option Position := do
  let height ← Word.ofLe? 64 (bytes.take 8)
  let view ← Word.ofLe? 64 ((bytes.drop 8).take 8)
  return ⟨height, view⟩

def decodeValue (bytes : Bytes) : Option Hash :=
  if sized : ((bytes.drop 16).take 32).length = 32 then
    some ⟨((bytes.drop 16).take 32).toArray, sized⟩
  else none

def decodePrevote (bytes : Bytes) : Option (Mark Hash) :=
  if bytes.length ≠ 52 then none
  else if ¬ Crc.Intact bytes then none
  else do
    let position ← decodePosition bytes
    let value ← decodeValue bytes
    return ⟨position, value⟩

/-- Files of twenty bytes are of the older format, which has no value. -/
def decodeMark (bytes : Bytes) : Option (Mark (Option Hash)) :=
  if bytes.length = 52 then
    if ¬ Crc.Intact bytes then none
    else do
      let position ← decodePosition bytes
      let value ← decodeValue bytes
      return ⟨position, some value⟩
  else if bytes.length = 20 then
    if ¬ Crc.Intact bytes then none
    else do
      let position ← decodePosition bytes
      return ⟨position, none⟩
  else none

theorem length_markBytes (mark : Mark Hash) : (markBytes mark).length = 52 := by
  simp [markBytes]

theorem decodePosition_markBytes (mark : Mark Hash) :
    decodePosition (markBytes mark) = some mark.position := by
  have height : (markBytes mark).take 8 = mark.position.height.leBytes 8 := by
    simp [markBytes, Crc.sealed]
  have view : ((markBytes mark).drop 8).take 8 = mark.position.view.leBytes 8 := by
    simp [markBytes, Crc.sealed]
  rw [decodePosition, height, view, (Word.ofLe?_eq_some rfl).mpr rfl,
    (Word.ofLe?_eq_some rfl).mpr rfl]
  rfl

theorem decodeValue_markBytes (mark : Mark Hash) :
    decodeValue (markBytes mark) = some mark.value := by
  have value : ((markBytes mark).drop 16).take 32 = mark.value.toList := by
    simp [markBytes, Crc.sealed, List.take_append, List.drop_append]
  simp [decodeValue, value, Vector.toList]

theorem decodePrevote_markBytes (mark : Mark Hash) :
    decodePrevote (markBytes mark) = some mark := by
  have intact : Crc.Intact (markBytes mark) := Crc.intact_sealed _
  simp [decodePrevote, length_markBytes, intact, decodePosition_markBytes, decodeValue_markBytes]

theorem decodeMark_markBytes (mark : Mark Hash) :
    decodeMark (markBytes mark) = some ⟨mark.position, some mark.value⟩ := by
  have intact : Crc.Intact (markBytes mark) := Crc.intact_sealed _
  simp [decodeMark, length_markBytes, intact, decodePosition_markBytes, decodeValue_markBytes]

/-! ## The file -/

/-- What becomes of writing a file. It may fail before the rename or after it, and both are errors.
-/
inductive Persisted
  | failed
  | unsynced
  | durable
  deriving DecidableEq

/-- A file that is replaced by renaming: the one that survives every crash, and those that were
renamed over it since, the newest first. -/
structure MarkFile where
  durable : Option Bytes
  renamed : List Bytes

namespace MarkFile

/-- What a crash may leave, the newest first. -/
def contents (file : MarkFile) : List (Option Bytes) := file.renamed.map some ++ [file.durable]

/-- What a process reads. -/
def current (file : MarkFile) : Option Bytes :=
  match file.renamed with
  | [] => file.durable
  | newest :: _ => some newest

def persist (file : MarkFile) (bytes : Bytes) : Persisted → MarkFile
  | .failed => file
  | .unsynced => { file with renamed := bytes :: file.renamed }
  | .durable => ⟨some bytes, []⟩

/-- A crash leaves one of the contents. -/
def crash (file : MarkFile) (choice : Nat) : MarkFile :=
  ⟨file.contents.getD choice file.durable, []⟩

variable {file : MarkFile} {content : Option Bytes} {bytes : Bytes} {outcome : Persisted}

theorem current_mem (file : MarkFile) : file.current ∈ file.contents := by
  unfold current contents
  cases file.renamed with
  | nil => simp
  | cons newest older => simp

theorem mem_contents_persist (member : content ∈ (file.persist bytes outcome).contents) :
    content = some bytes ∨ content ∈ file.contents := by
  cases outcome with
  | failed => exact .inr member
  | unsynced => exact List.mem_cons.mp member
  | durable => exact .inl (List.mem_singleton.mp member)

theorem mem_contents_crash {choice : Nat} (member : content ∈ (file.crash choice).contents) :
    content ∈ file.contents := by
  rw [List.mem_singleton.mp member]
  unfold crash
  rw [List.getD_eq_getElem?_getD]
  cases found : file.contents[choice]? with
  | none => simp [contents]
  | some kept => exact List.mem_of_getElem? found

end MarkFile

/-! ## Runs over a file -/

/-- The state after a call, and what the call lets be signed. -/
structure Called (Guard : Type) where
  guard : Guard
  file : MarkFile
  permitted : Option (Mark Hash)

/-- Writes a mark. The guard changes, and lets something be signed, only if that succeeds. -/
def Called.writing {Guard : Type} (guard after : Guard) (file : MarkFile) (mark : Mark Hash)
    (permitted : Option (Mark Hash)) (outcome : Persisted) : Called Guard :=
  if outcome = .durable then ⟨after, file.persist (markBytes mark) outcome, permitted⟩
  else ⟨guard, file.persist (markBytes mark) outcome, none⟩

/-- A kind of guard: how it starts from a file, and what its calls do. -/
structure GuardCode (Guard Call : Type) where
  openGuard : Option Bytes → Except String Guard
  call : Guard → MarkFile → Call → Persisted → Called Guard

inductive GuardEvent (Call : Type)
  | call (call : Call) (outcome : Persisted)
  | stop
  | crash (choice : Nat)
  | openGuard

/-- A guard, if its process runs, its file, and all that was let through so far, the newest first.
-/
structure GuardRun (Guard : Type) where
  guard : Option Guard
  file : MarkFile
  permitted : List (Mark Hash)

namespace GuardRun

variable {Guard Call : Type} (code : GuardCode Guard Call)

/-- One event. A process that runs holds the file, so that no other can open it. -/
def step (run : GuardRun Guard) : GuardEvent Call → GuardRun Guard
  | .call call outcome =>
    match run.guard with
    | none => run
    | some guard =>
      let called := code.call guard run.file call outcome
      ⟨some called.guard, called.file, called.permitted.toList ++ run.permitted⟩
  | .stop => { run with guard := none }
  | .crash choice => { run with guard := none, file := run.file.crash choice }
  | .openGuard =>
    match run.guard with
    | some _ => run
    | none => { run with guard := (code.openGuard run.file.current).toOption }

/-- The events from a file on which nothing was signed. -/
def runFrom (file : Option Bytes) (events : List (GuardEvent Call)) : GuardRun Guard :=
  events.foldl (step code) ⟨none, ⟨file, []⟩, []⟩

/-- A property of runs holds after every sequence of events if it holds at the start and is kept by
calls, by a crash or a stop, and by opening. -/
theorem from_induction {code} {P : GuardRun Guard → Prop} (file : Option Bytes)
    (events : List (GuardEvent Call)) (start : P ⟨none, ⟨file, []⟩, []⟩)
    (called : ∀ guard file permitted call outcome, P ⟨some guard, file, permitted⟩ →
      P ⟨some (code.call guard file call outcome).guard,
        (code.call guard file call outcome).file,
        (code.call guard file call outcome).permitted.toList ++ permitted⟩)
    (left : ∀ guard file permitted kept, P ⟨guard, file, permitted⟩ →
      (∀ content ∈ kept.contents, content ∈ file.contents) → P ⟨none, kept, permitted⟩)
    (opened : ∀ guard file permitted, P ⟨none, file, permitted⟩ →
      code.openGuard file.current = .ok guard → P ⟨some guard, file, permitted⟩) :
    P (runFrom code file events) := by
  refine List.foldlRecOn events (step code) start ?_
  rintro ⟨guard, file, permitted⟩ holds event -
  cases event with
  | call call outcome =>
    cases guard with
    | none => exact holds
    | some guard => exact called guard file permitted call outcome holds
  | stop => exact left guard file permitted file holds fun _ => id
  | crash choice => exact left guard file permitted _ holds fun _ => MarkFile.mem_contents_crash
  | openGuard =>
    cases guard with
    | some guard => exact holds
    | none =>
      simp only [step]
      cases result : code.openGuard file.current with
      | error message => exact holds
      | ok guard => exact opened guard file permitted holds result

end GuardRun

/-! ## The guard of precommits -/

inductive SignCall
  | trySign (position : Position) (value : Hash)
  | raiseTo (height : U64)

namespace SignGuard

def openGuard : Option Bytes → Except String SignGuard
  | none => .ok ⟨none⟩
  | some bytes =>
    match decodeMark bytes with
    | some mark => .ok ⟨some mark⟩
    | none => .error ("the sign watermark file is present but unreadable; refusing to sign so a " ++
        "corrupt watermark cannot silently re-enable signing at an already signed height")

theorem mark_of_open {content : Option Bytes} {guard : SignGuard}
    (opened : openGuard content = .ok guard) : content.bind decodeMark = guard.mark := by
  cases content with
  | none =>
    cases opened
    rfl
  | some bytes =>
    simp only [openGuard] at opened
    split at opened
    next mark decoded =>
      cases opened
      exact decoded
    next => cases opened

/-- `try_sign`, with its file. -/
def trySign (guard : SignGuard) (file : MarkFile) (position : Position) (value : Hash)
    (outcome : Persisted) : Called SignGuard :=
  if guard.permits position value then
    .writing guard ⟨some ⟨position, some value⟩⟩ file ⟨position, value⟩ (some ⟨position, value⟩)
      outcome
  else ⟨guard, file, none⟩

/-- `raise_to`, with its file. -/
def raiseTo (guard : SignGuard) (file : MarkFile) (height : U64) (outcome : Persisted) :
    Called SignGuard :=
  if guard.mark.any fun mark => height ≤ mark.position.height then ⟨guard, file, none⟩
  else
    let position := ⟨height, Word.top 64⟩
    .writing guard ⟨some ⟨position, some zeroHash⟩⟩ file ⟨position, zeroHash⟩ none outcome

def code : GuardCode SignGuard SignCall where
  openGuard := openGuard
  call guard file
    | .trySign position value => guard.trySign file position value
    | .raiseTo height => guard.raiseTo file height

/-- What a call does: nothing, or it writes a mark that the guard permits. -/
theorem call_cases (guard : SignGuard) (file : MarkFile) (call : SignCall)
    (outcome : Persisted) :
    code.call guard file call outcome = ⟨guard, file, none⟩ ∨
      ∃ mark permitted, Mark.permits guard.mark mark.position (some mark.value) = true ∧
        (∀ signed ∈ permitted, signed = mark) ∧
        code.call guard file call outcome =
          .writing guard ⟨some ⟨mark.position, some mark.value⟩⟩ file mark permitted outcome := by
  cases call with
  | trySign position value =>
    by_cases permitted : guard.permits position value
    · refine .inr ⟨⟨position, value⟩, some ⟨position, value⟩, permitted, ?_, if_pos permitted⟩
      exact fun _ same => (Option.some.inj same).symm
    · exact .inl (if_neg permitted)
  | raiseTo height =>
    by_cases reached : guard.mark.any fun mark => height ≤ mark.position.height
    · exact .inl (if_pos reached)
    · refine .inr ⟨⟨⟨height, Word.top 64⟩, zeroHash⟩, none, ?_, by rintro _ ⟨⟩, if_neg reached⟩
      refine Mark.permits_of_above fun held same => ?_
      rw [same] at reached
      simpa [Word.le_def, Word.lt_def] using reached

/-- A mark covers everything that was let through. -/
def Covered (mark : Option (Mark (Option Hash))) (history : List (Mark Hash)) : Prop :=
  ∀ signed ∈ history, Mark.Covers mark signed.position (some signed.value)

/-- The later of two was not let through at an earlier position, nor with another value at the same
one. -/
def Ordered (later earlier : Mark Hash) : Prop :=
  ¬ later.position.Before earlier.position ∧
    (later.position = earlier.position → later.value = earlier.value)

/-- The mark in memory and every content that a crash may leave cover what was let through. -/
structure Bound (run : GuardRun SignGuard) : Prop where
  file : ∀ content ∈ run.file.contents, Covered (content.bind decodeMark) run.permitted
  mark : ∀ guard, run.guard = some guard → Covered guard.mark run.permitted
  order : run.permitted.Pairwise Ordered

theorem Bound.writing {guard : SignGuard} {file : MarkFile} {history : List (Mark Hash)}
    (bound : Bound ⟨some guard, file, history⟩) {mark : Mark Hash} {permitted : Option (Mark Hash)}
    (fits : Mark.permits guard.mark mark.position (some mark.value) = true)
    (signs : ∀ signed ∈ permitted, signed = mark) (outcome : Persisted) :
    let called := Called.writing guard ⟨some ⟨mark.position, some mark.value⟩⟩ file mark permitted
      outcome
    Bound ⟨some called.guard, called.file, called.permitted.toList ++ history⟩ := by
  have current : Covered guard.mark history := bound.mark guard rfl
  have covered : Covered (some ⟨mark.position, some mark.value⟩) history :=
    fun signed member => (current signed member).advance fits
  by_cases durable : outcome = .durable
  · subst durable
    have covers : Covered (some ⟨mark.position, some mark.value⟩)
        (permitted.toList ++ history) := by
      intro signed member
      rcases List.mem_append.mp member with new | old
      · cases signs signed (Option.mem_toList.mp new)
        exact Mark.covers_self _ _
      · exact covered signed old
    simp only [Called.writing, if_true]
    refine ⟨?_, ?_, ?_⟩
    · intro content remains
      have same : content = some (markBytes mark) := List.mem_singleton.mp remains
      rw [same, Option.bind_some, decodeMark_markBytes]
      exact covers
    · rintro _ ⟨rfl⟩
      exact covers
    · refine List.pairwise_append.mpr ⟨?_, bound.order, ?_⟩
      · cases permitted <;> simp
      · intro signed new earlier old
        cases signs signed (Option.mem_toList.mp new)
        refine ⟨(current earlier old).not_before fits, fun same => ?_⟩
        rw [same] at fits
        exact Option.some.inj ((current earlier old).agrees fits)
  · simp only [Called.writing, if_neg durable]
    refine ⟨?_, bound.mark, bound.order⟩
    intro content remains
    rcases MarkFile.mem_contents_persist remains with rfl | old
    · rw [Option.bind_some, decodeMark_markBytes]
      exact covered
    · exact bound.file content old

theorem bound_from (file : Option Bytes) (events : List (GuardEvent SignCall)) :
    Bound (GuardRun.runFrom code file events) := by
  refine GuardRun.from_induction file events
    ⟨fun _ _ => List.forall_mem_nil _, by rintro _ ⟨⟩, .nil⟩ ?_ ?_ ?_
  · intro guard file permitted call outcome bound
    rcases call_cases guard file call outcome with same | ⟨mark, signs, fits, only, same⟩
    · rw [same]
      exact bound
    · rw [same]
      exact bound.writing fits only outcome
  · intro guard file permitted kept bound within
    exact ⟨fun content member => bound.file content (within content member),
      by rintro _ ⟨⟩, bound.order⟩
  · intro guard file permitted bound opened
    refine ⟨bound.file, ?_, bound.order⟩
    rintro _ ⟨rfl⟩
    have covered := bound.file _ file.current_mem
    rw [← mark_of_open opened]
    exact covered

end SignGuard

/-! ## The guard of prevotes and proposals -/

inductive PrevoteCall
  | tryPrevote (position : Position) (value : Hash)
  | reserve (position : Position)
  | raiseTo (height : U64)

/-- What a prevote guard holds in memory. -/
structure PrevoteGuard where
  mark : Option (Mark Hash)
  reserved : Bool

namespace PrevoteGuard

def openGuard : Option Bytes → Except String PrevoteGuard
  | none => .ok ⟨none, false⟩
  | some bytes =>
    match decodePrevote bytes with
    | some mark => .ok ⟨some mark, false⟩
    | none => .error ("the prevote watermark file is present but unreadable; refusing to " ++
        "prevote so a corrupt watermark cannot re-enable a conflicting prevote")

theorem eq_of_open {content : Option Bytes} {memory : PrevoteGuard}
    (opened : openGuard content = .ok memory) : memory = ⟨content.bind decodePrevote, false⟩ := by
  cases content with
  | none =>
    cases opened
    rfl
  | some bytes =>
    simp only [openGuard] at opened
    split at opened
    next mark decoded =>
      cases opened
      rw [Option.bind_some, decoded]
    next => cases opened

def tryPrevote (memory : PrevoteGuard) (file : MarkFile) (position : Position) (value : Hash)
    (outcome : Persisted) : Called PrevoteGuard :=
  if memory.reserved = true ∧ memory.mark = some ⟨position, zeroHash⟩ then
    ⟨⟨some ⟨position, value⟩, false⟩, file, some ⟨position, value⟩⟩
  else if Mark.permits memory.mark position value then
    if memory.mark.all fun mark => ¬ position.Before mark.position then
      .writing memory { memory with mark := some ⟨position, value⟩ } file ⟨position, value⟩
        (some ⟨position, value⟩) outcome
    else ⟨memory, file, some ⟨position, value⟩⟩
  else ⟨memory, file, none⟩

def reserve (memory : PrevoteGuard) (file : MarkFile) (position : Position)
    (outcome : Persisted) : Called PrevoteGuard :=
  if memory.mark.any fun mark => ¬ mark.position.Before position then ⟨memory, file, none⟩
  else .writing memory ⟨some ⟨position, zeroHash⟩, true⟩ file ⟨position, zeroHash⟩ none outcome

def raiseTo (memory : PrevoteGuard) (file : MarkFile) (height : U64) (outcome : Persisted) :
    Called PrevoteGuard :=
  if memory.mark.any fun mark => height ≤ mark.position.height then ⟨memory, file, none⟩
  else
    let mark := ⟨⟨height, Word.top 64⟩, zeroHash⟩
    .writing memory { memory with mark := some mark } file mark none outcome

def code : GuardCode PrevoteGuard PrevoteCall where
  openGuard := openGuard
  call memory file
    | .tryPrevote position value => memory.tryPrevote file position value
    | .reserve position => memory.reserve file position
    | .raiseTo height => memory.raiseTo file height

/-- A mark that is written over another: permitted by it, and past it if a reservation begins. -/
structure Follows (memory : PrevoteGuard) (mark : Mark Hash) (reserved : Bool) : Prop where
  fits : Mark.permits memory.mark mark.position mark.value = true
  past : reserved = memory.reserved ∨
    ∀ held, memory.mark = some held → held.position.Before mark.position

/-- What a call does: nothing, it gives the reserved position a value, or it writes a mark. -/
inductive Effect (memory : PrevoteGuard) (file : MarkFile) (outcome : Persisted) :
    Called PrevoteGuard → Prop
  | idle : Effect memory file outcome ⟨memory, file, none⟩
  | upgraded (position : Position) (value : Hash) (reserved : memory.reserved = true)
      (blank : memory.mark = some ⟨position, zeroHash⟩) :
      Effect memory file outcome ⟨⟨some ⟨position, value⟩, false⟩, file, some ⟨position, value⟩⟩
  | wrote (mark : Mark Hash) (reserved : Bool) (permitted : Option (Mark Hash))
      (follows : memory.Follows mark reserved) (signs : ∀ signed ∈ permitted, signed = mark) :
      Effect memory file outcome
        (.writing memory ⟨some mark, reserved⟩ file mark permitted outcome)

theorem call_effect (memory : PrevoteGuard) (file : MarkFile) (call : PrevoteCall)
    (outcome : Persisted) :
    Effect memory file outcome (code.call memory file call outcome) := by
  cases call with
  | tryPrevote position value =>
    simp only [code, tryPrevote]
    split
    next upgrade => exact .upgraded position value upgrade.1 upgrade.2
    next =>
      split
      next permitted =>
        rw [if_pos (Mark.all_not_before permitted)]
        exact .wrote ⟨position, value⟩ _ _ ⟨permitted, .inl rfl⟩
          fun _ same => (Option.some.inj same).symm
      next => exact .idle
  | reserve position =>
    simp only [code, reserve]
    split
    next => exact .idle
    next low =>
      have past : ∀ held, memory.mark = some held → held.position.Before position := by
        intro held same
        simpa [same] using low
      exact .wrote ⟨position, zeroHash⟩ true none
        ⟨Mark.permits_iff.mpr fun held same => .inl (past held same), .inr past⟩
        (by rintro _ ⟨⟩)
  | raiseTo height =>
    simp only [code, raiseTo]
    split
    next => exact .idle
    next low =>
      refine .wrote ⟨⟨height, Word.top 64⟩, zeroHash⟩ _ none ⟨?_, .inl rfl⟩
        (by rintro _ ⟨⟩)
      refine Mark.permits_of_above fun held same => ?_
      rw [same] at low
      simpa [Word.le_def, Word.lt_def] using low

/-- A content that a crash may leave holds back a value that was let through: it is past the
position of the value, or at it with the value or with none. -/
def Holds (mark : Option (Mark Hash)) (signed : Mark Hash) : Prop :=
  (∃ value, Mark.Covers mark signed.position value) ∧
    (signed.value ≠ zeroHash → Mark.Covers mark signed.position signed.value ∨
      Mark.Covers mark signed.position zeroHash)

/-- The mark in memory holds a value back, and if it does so without the value, there is no
reservation that another value could use up. -/
def Keeps (memory : PrevoteGuard) (signed : Mark Hash) : Prop :=
  (∃ value, Mark.Covers memory.mark signed.position value) ∧
    (signed.value ≠ zeroHash → Mark.Covers memory.mark signed.position signed.value ∨
      memory.reserved = false ∧ Mark.Covers memory.mark signed.position zeroHash)

/-- The later of two was not let through at an earlier position, nor with another value at the same
one, unless one of the values is blank. -/
def Ordered (later earlier : Mark Hash) : Prop :=
  ¬ later.position.Before earlier.position ∧
    (later.position = earlier.position → later.value ≠ zeroHash → earlier.value ≠ zeroHash →
      later.value = earlier.value)

structure Bound (run : GuardRun PrevoteGuard) : Prop where
  file : ∀ content ∈ run.file.contents, ∀ signed ∈ run.permitted,
    Holds (content.bind decodePrevote) signed
  memory : ∀ memory, run.guard = some memory → ∀ signed ∈ run.permitted, memory.Keeps signed
  noted : ∀ memory held, run.guard = some memory → memory.reserved = true →
    memory.mark = some held → ∀ content ∈ run.file.contents,
      Mark.Covers (content.bind decodePrevote) held.position held.value
  order : run.permitted.Pairwise Ordered

variable {memory : PrevoteGuard} {mark signed : Mark Hash} {reserved : Bool}

/-- A permitted mark that is written holds back what the memory keeps. -/
theorem Keeps.holds (keeps : memory.Keeps signed)
    (fits : Mark.permits memory.mark mark.position mark.value = true) : Holds (some mark) signed := by
  obtain ⟨⟨value, covers⟩, kept⟩ := keeps
  refine ⟨⟨value, covers.advance fits⟩, fun something => ?_⟩
  exact (kept something).imp (·.advance fits) (·.2.advance fits)

theorem Keeps.wrote (keeps : memory.Keeps signed) (follows : memory.Follows mark reserved) :
    Keeps ⟨some mark, reserved⟩ signed := by
  obtain ⟨⟨value, covers⟩, kept⟩ := keeps
  refine ⟨⟨value, covers.advance follows.fits⟩, fun something => ?_⟩
  rcases kept something with same | ⟨free, held, found, place⟩
  · exact .inl (same.advance follows.fits)
  · rcases follows.past with still | past
    · exact .inr ⟨still.trans free, Mark.Covers.advance ⟨held, found, place⟩ follows.fits⟩
    · refine .inl ⟨mark, rfl, .inl ?_⟩
      rcases place with before | ⟨same, -⟩
      · exact before.trans (past held found)
      · rw [same]
        exact past held found

theorem keeps_self (mark : Mark Hash) (reserved : Bool) : Keeps ⟨some mark, reserved⟩ mark :=
  ⟨⟨_, Mark.covers_self _ _⟩, fun _ => .inl (Mark.covers_self _ _)⟩

/-- A reservation that is not used up kept no value at its position. -/
theorem Keeps.upgraded {position : Position} (value : Hash) (keeps : memory.Keeps signed)
    (waits : memory.reserved = true) (blank : memory.mark = some ⟨position, zeroHash⟩) :
    Keeps ⟨some ⟨position, value⟩, false⟩ signed ∧ Ordered ⟨position, value⟩ signed := by
  obtain ⟨⟨_, held, found, place⟩, kept⟩ := keeps
  cases blank.symm.trans found
  have before : signed.value ≠ zeroHash → signed.position.Before position := by
    intro something
    rcases kept something with ⟨_, found, before | ⟨-, taken⟩⟩ | ⟨free, -⟩
    · cases blank.symm.trans found
      exact before
    · cases blank.symm.trans found
      exact absurd taken.symm something
    · exact absurd (free.symm.trans waits) Bool.false_ne_true
  refine ⟨⟨?_, fun something => .inl ⟨_, rfl, .inl (before something)⟩⟩, ?_, ?_⟩
  · rcases place with before | ⟨same, -⟩
    · exact ⟨value, _, rfl, .inl before⟩
    · exact ⟨value, _, rfl, .inr ⟨same, rfl⟩⟩
  · rcases place with before | ⟨same, -⟩
    · exact before.asymm
    · rw [same]
      exact Position.before_irrefl _
  · intro same _ something
    have ahead := before something
    rw [← same] at ahead
    exact absurd ahead (Position.before_irrefl _)

theorem Keeps.ordered (keeps : memory.Keeps signed)
    (fits : Mark.permits memory.mark mark.position mark.value = true) : Ordered mark signed := by
  obtain ⟨⟨value, covers⟩, kept⟩ := keeps
  refine ⟨covers.not_before fits, fun same something other => ?_⟩
  rw [same] at fits
  rcases kept other with covers | ⟨-, covers⟩
  · exact covers.agrees fits
  · exact absurd (covers.agrees fits) something

namespace Bound

variable {file : MarkFile} {history : List (Mark Hash)}

section

variable (bound : Bound ⟨some memory, file, history⟩)

include bound

theorem upgraded {position : Position} (value : Hash) (waits : memory.reserved = true)
    (blank : memory.mark = some ⟨position, zeroHash⟩) :
    Bound ⟨some ⟨some ⟨position, value⟩, false⟩, file, ⟨position, value⟩ :: history⟩ := by
  have step := fun signed member =>
    (bound.memory memory rfl signed member).upgraded value waits blank
  refine ⟨?_, ?_, ?_, ?_⟩
  · intro content remains signed member
    rcases List.mem_cons.mp member with rfl | old
    · have covers := bound.noted memory _ rfl waits blank content remains
      exact ⟨⟨_, covers⟩, fun _ => .inr covers⟩
    · exact bound.file content remains signed old
  · rintro _ ⟨rfl⟩ signed member
    rcases List.mem_cons.mp member with rfl | old
    · exact keeps_self _ _
    · exact (step signed old).1
  · rintro _ _ ⟨rfl⟩ used
    exact absurd used Bool.false_ne_true
  · exact .cons (fun signed old => (step signed old).2) bound.order

theorem written {permitted : Option (Mark Hash)} (follows : memory.Follows mark reserved)
    (signs : ∀ signed ∈ permitted, signed = mark) :
    Bound ⟨some ⟨some mark, reserved⟩, ⟨some (markBytes mark), []⟩,
      permitted.toList ++ history⟩ := by
  have keeps := bound.memory memory rfl
  have fresh : ∀ signed ∈ permitted.toList, signed = mark :=
    fun signed new => signs signed (Option.mem_toList.mp new)
  refine ⟨?_, ?_, ?_, ?_⟩
  · intro content remains signed member
    rw [List.mem_singleton.mp remains, Option.bind_some, decodePrevote_markBytes]
    rcases List.mem_append.mp member with new | old
    · rw [fresh signed new]
      exact ⟨⟨_, Mark.covers_self _ _⟩, fun _ => .inl (Mark.covers_self _ _)⟩
    · exact (keeps signed old).holds follows.fits
  · rintro _ ⟨rfl⟩ signed member
    rcases List.mem_append.mp member with new | old
    · rw [fresh signed new]
      exact keeps_self _ _
    · exact (keeps signed old).wrote follows
  · rintro _ _ ⟨rfl⟩ - ⟨rfl⟩ content remains
    rw [List.mem_singleton.mp remains, Option.bind_some, decodePrevote_markBytes]
    exact Mark.covers_self _ _
  · refine List.pairwise_append.mpr ⟨?_, bound.order, ?_⟩
    · cases permitted <;> simp
    · intro signed new earlier old
      rw [fresh signed new]
      exact (keeps earlier old).ordered follows.fits

/-- A mark whose writing failed may be in the file or not, and the memory stays as it was. -/
theorem unwritten (fits : Mark.permits memory.mark mark.position mark.value = true)
    (outcome : Persisted) :
    Bound ⟨some memory, file.persist (markBytes mark) outcome, history⟩ := by
  refine ⟨?_, bound.memory, ?_, bound.order⟩
  · intro content remains signed member
    rcases MarkFile.mem_contents_persist remains with rfl | old
    · rw [Option.bind_some, decodePrevote_markBytes]
      exact (bound.memory memory rfl signed member).holds fits
    · exact bound.file content old signed member
  · rintro _ held ⟨rfl⟩ waits found content remains
    rcases MarkFile.mem_contents_persist remains with rfl | old
    · rw [Option.bind_some, decodePrevote_markBytes]
      exact Mark.Covers.advance ⟨held, found, .inr ⟨rfl, rfl⟩⟩ fits
    · exact bound.noted memory held rfl waits found content old

theorem called {outcome : Persisted} {called : Called PrevoteGuard}
    (effect : Effect memory file outcome called) :
    Bound ⟨some called.guard, called.file, called.permitted.toList ++ history⟩ := by
  cases effect with
  | idle => exact bound
  | upgraded position value waits blank => exact bound.upgraded value waits blank
  | wrote mark reserved permitted follows signs =>
    unfold Called.writing
    split
    next durable =>
      subst durable
      exact bound.written follows signs
    next => exact bound.unwritten follows.fits outcome

end

end Bound

theorem bound_from (file : Option Bytes) (events : List (GuardEvent PrevoteCall)) :
    Bound (GuardRun.runFrom code file events) := by
  refine GuardRun.from_induction file events
    ⟨fun _ _ => List.forall_mem_nil _, by rintro _ ⟨⟩, by rintro _ _ ⟨⟩, .nil⟩ ?_ ?_ ?_
  · intro memory file permitted call outcome bound
    exact bound.called (call_effect memory file call outcome)
  · intro memory file permitted kept bound within
    exact ⟨fun content member => bound.file content (within content member),
      by rintro _ ⟨⟩, by rintro _ _ ⟨⟩, bound.order⟩
  · intro memory file permitted bound opened
    cases eq_of_open opened
    refine ⟨bound.file, ?_, ?_, bound.order⟩
    · rintro _ ⟨rfl⟩ signed member
      have holds := bound.file _ file.current_mem signed member
      exact ⟨holds.1, fun something => (holds.2 something).imp id fun blank => ⟨rfl, blank⟩⟩
    · rintro _ _ ⟨rfl⟩ waits
      exact absurd waits Bool.false_ne_true

end PrevoteGuard

/-! ## Both guards -/

theorem decodeMark_of_not_intact {bytes : Bytes} (broken : ¬ Crc.Intact bytes) :
    decodeMark bytes = none := by
  simp [decodeMark, broken]

theorem decodePrevote_of_not_intact {bytes : Bytes} (broken : ¬ Crc.Intact bytes) :
    decodePrevote bytes = none := by
  simp [decodePrevote, broken]

/-- Over every run of calls, failed writes, crashes and openings, what a guard lets through never
goes back and is one value at one position, blanks apart for the guard that can reserve. A file
without its checksum is not opened. By induction on the run, whatever the file may hold after a
crash covers what was let through. -/
theorem guards_never_reuse_a_mark :
    (∀ file events, (GuardRun.runFrom SignGuard.code file events).permitted.Pairwise
      fun later earlier => ¬ later.position.Before earlier.position ∧
        (later.position = earlier.position → later.value = earlier.value)) ∧
    (∀ file events, (GuardRun.runFrom PrevoteGuard.code file events).permitted.Pairwise
      fun later earlier => ¬ later.position.Before earlier.position ∧
        (later.position = earlier.position → later.value ≠ zeroHash → earlier.value ≠ zeroHash →
          later.value = earlier.value)) ∧
    ∀ bytes, ¬ Crc.Intact bytes → (SignGuard.openGuard (some bytes)).toOption = none ∧
      (PrevoteGuard.openGuard (some bytes)).toOption = none := by
  refine ⟨fun file events => (SignGuard.bound_from file events).order,
    fun file events => (PrevoteGuard.bound_from file events).order, fun bytes broken => ?_⟩
  rw [SignGuard.openGuard, PrevoteGuard.openGuard, decodeMark_of_not_intact broken,
    decodePrevote_of_not_intact broken]
  exact ⟨rfl, rfl⟩

/-- A reserved position is given a value, the machine crashes, and the guard that starts again
refuses another value there. -/
def reservedThenCrashed : List (GuardEvent PrevoteCall) :=
  let first : Hash := Vector.replicate 32 1
  let second : Hash := Vector.replicate 32 2
  [.openGuard, .call (.reserve ⟨5, 0⟩) .durable, .call (.tryPrevote ⟨5, 0⟩ first) .durable, .crash 0,
    .openGuard, .call (.tryPrevote ⟨5, 0⟩ second) .durable, .call (.tryPrevote ⟨5, 1⟩ second) .unsynced,
    .call (.tryPrevote ⟨5, 2⟩ second) .durable]

theorem guards_never_reuse_a_mark_reserved :
    (GuardRun.runFrom PrevoteGuard.code none reservedThenCrashed).permitted =
        [⟨⟨5, 2⟩, Vector.replicate 32 2⟩, ⟨⟨5, 0⟩, Vector.replicate 32 1⟩] ∧
      (GuardRun.runFrom PrevoteGuard.code none reservedThenCrashed).permitted.Pairwise
        (fun later earlier => ¬ later.position.Before earlier.position ∧
          (later.position = earlier.position → later.value ≠ zeroHash →
            earlier.value ≠ zeroHash → later.value = earlier.value)) ∧
      (SignGuard.openGuard (some [])).toOption = none :=
  ⟨by decide +kernel, guards_never_reuse_a_mark.2.1 none reservedThenCrashed,
    (guards_never_reuse_a_mark.2.2 [] (by decide)).1⟩

end QuantovaChain.Node
