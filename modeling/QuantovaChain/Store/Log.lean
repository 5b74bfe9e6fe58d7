import QuantovaChain.Codec
import QuantovaChain.Library.Crc
import QuantovaChain.Library.Frames

/-!
# Logs

A log file is a header with a salt, and after it payloads in frames: the length of the payload, the
payload, and a checksum over the salt and these. A log is opened by scanning its frames. The scan
ends at the first bytes that are not a frame. If these are the end of a write that was cut short,
the file is cut back to the last frame. If they are in the middle of the log, cutting would lose the
frames behind them, and the strict way of opening looks for such frames at every later place before
it cuts.
-/

namespace QuantovaChain.Store

open State (Bytes)

/-! ## The format -/

def maxResyncProbes : Nat := 2 ^ 24

def checksumWidth : Nat := 4

def lengthWidth : Nat := 8

def maxProbeBytes : Nat := 64 * 1024 * 1024

/-- The letters QTVLOG02. -/
def magic : Bytes := [0x51, 0x54, 0x56, 0x4C, 0x4F, 0x47, 0x30, 0x32]

def headerLen : Nat := 24

abbrev Salt := Vector UInt8 16

def header (salt : Salt) : Bytes := magic ++ salt.toList

def frame (salt : Salt) (payload : Bytes) : Bytes :=
  let framed := Codec.putBytes payload
  framed ++ Crc.stored (salt.toList ++ framed)

/-- The file of a log after payloads were appended to it. -/
def appendAll (salt : Salt) (file : Bytes) (payloads : List Bytes) : Bytes :=
  file ++ Frames.written (frame salt) payloads

/-- What stands at the front of some bytes: too few for a length, a length that does not fit, a
checksum that is wrong, or a frame, with its payload and the end of it. -/
inductive FrameRead
  | short
  | overrun
  | mismatch (frameEnd : Nat)
  | found (payload : Bytes) (frameEnd : Nat)
  deriving DecidableEq

def readFrame (salt : Salt) (bytes : Bytes) : FrameRead :=
  if bytes.length < lengthWidth then .short
  else
    let length := Word.natOfLe (bytes.take lengthWidth)
    let available := bytes.length - lengthWidth
    if length > available ∨ available - length < checksumWidth then .overrun
    else
      let payloadEnd := lengthWidth + length
      let stored := (bytes.drop payloadEnd).take checksumWidth
      if Word.natOfLe stored ≠ (Crc.checksum (salt.toList ++ bytes.take payloadEnd)).toNat then
        .mismatch (payloadEnd + checksumWidth)
      else .found ((bytes.drop lengthWidth).take length) (payloadEnd + checksumWidth)

/-- A frame starts at the front of the bytes. -/
def WellFormed (salt : Salt) (bytes : Bytes) : Prop :=
  ∃ payload frameEnd, readFrame salt bytes = .found payload frameEnd

instance (salt : Salt) (bytes : Bytes) : Decidable (WellFormed salt bytes) :=
  match read : readFrame salt bytes with
  | .found payload frameEnd => .isTrue ⟨payload, frameEnd, read⟩
  | .short => .isFalse fun ⟨_, _, found⟩ => by cases read.symm.trans found
  | .overrun => .isFalse fun ⟨_, _, found⟩ => by cases read.symm.trans found
  | .mismatch _ => .isFalse fun ⟨_, _, found⟩ => by cases read.symm.trans found

/-! ## Opening -/

def notALog : String := "not a log of this format"

/-- The salt of a file, and the file, which is given a new header if it has none. -/
def prepareHeader (fresh : Salt) (file : Bytes) : Bytes × Except String Salt :=
  if file.length < headerLen then (header fresh, .ok fresh)
  else if file.take magic.length ≠ magic then (file, .error notALog)
  else (file, .ok (Vector.ofFn fun place => file.getD (magic.length + place.val) 0))

inductive ScanStop
  | tornTail
  | corrupt
  deriving DecidableEq

/-- The payloads up to the first bytes that are not a frame, the end of the last of them, and what
stopped the scan. A frame is not empty, so that the length of the bytes bounds the rounds. -/
def scanRounds (salt : Salt) : Nat → Bytes → List Bytes × Nat × ScanStop
  | 0, _ => ([], 0, .tornTail)
  | rounds + 1, bytes =>
    match readFrame salt bytes with
    | .short => ([], 0, .tornTail)
    | .overrun => ([], 0, .tornTail)
    | .mismatch frameEnd =>
      ([], 0, if WellFormed salt (bytes.drop frameEnd) then .corrupt else .tornTail)
    | .found payload frameEnd =>
      let (frames, clean, stop) := scanRounds salt rounds (bytes.drop frameEnd)
      (payload :: frames, frameEnd + clean, stop)

def scan (salt : Salt) (bytes : Bytes) : List Bytes × Nat × ScanStop :=
  scanRounds salt (bytes.length + 1) bytes

def corruptMidStream : String :=
  "log has a corrupt frame mid-stream; refusing to silently discard the records after it, which " ++
  "would roll finalized state back. Recover the log manually"

/-- Opens a log: the file that is left, and the payloads of the log. -/
def Log.openLog (fresh : Salt) (file : Bytes) : Bytes × Except String (Salt × List Bytes) :=
  match prepareHeader fresh file with
  | (file, .error message) => (file, .error message)
  | (file, .ok salt) =>
    let bytes := file.drop headerLen
    let (frames, clean, stop) := scan salt bytes
    if clean < bytes.length then
      if stop = .corrupt then (file, .error corruptMidStream)
      else (file.take (headerLen + clean), .ok (salt, frames))
    else (file, .ok (salt, frames))

/-! ## Opening with a visitor -/

inductive Probe
  | found
  | missed (spent : Nat)
  | overBudget
  deriving DecidableEq

def frameIsWellFormed (salt : Salt) (bytes : Bytes) (budget : Nat) : Probe :=
  if bytes.length < lengthWidth then .missed 0
  else
    let length := Word.natOfLe (bytes.take lengthWidth)
    let available := bytes.length - lengthWidth
    if length > available ∨ available - length < checksumWidth then .missed 0
    else if length > budget then .overBudget
    else if WellFormed salt bytes then .found
    else .missed length

def corruptMiddle : String :=
  "a log frame is unreadable with intact frames behind it, so the log is corrupt in the middle " ++
  "rather than torn at the tail; refusing to open so the records after it are not discarded"

/-- Looks for a frame at every place of the bytes, as far as the numbers of places and of bytes to
check allow. -/
def probeFrom (salt : Salt) : Bytes → (probed budget : Nat) → Except String Bool
  | [], _, _ => .ok false
  | byte :: rest, probed, budget =>
    if (byte :: rest).length < lengthWidth then .ok false
    else if maxResyncProbes ≤ probed then .error corruptMiddle
    else
      match frameIsWellFormed salt (byte :: rest) budget with
      | .found => .ok true
      | .missed spent => probeFrom salt rest (probed + 1) (budget - spent)
      | .overBudget => .error corruptMiddle

def aWellFormedFrameFollows (salt : Salt) (bytes : Bytes) : Except String Bool :=
  probeFrom salt bytes 0 maxProbeBytes

def undecodable : String :=
  "a checksum clean log frame does not decode; refusing to open so the records after it are not " ++
  "discarded"

/-- A visitor of payloads. It is given its state, the payload, and where the payload starts and its
frame ends, and says whether the payload decodes. -/
abbrev Visitor (σ : Type) := σ → Bytes → Nat → Nat → σ × Bool

/-- What to do about bytes that are not a frame, and about a payload that does not decode. -/
structure Strictness where
  frames : Bool
  decode : Bool

/-- The state of the visitor after the scan, and the end of the last frame. -/
def scanLoop {σ : Type} (strict : Strictness) (visit : Visitor σ) (salt : Salt) :
    Nat → (position : Nat) → σ → Bytes → Except String (σ × Nat)
  | 0, position, state, _ => .ok (state, position)
  | rounds + 1, position, state, bytes =>
    match readFrame salt bytes with
    | .short => .ok (state, position)
    | .overrun => unreadable position state bytes
    | .mismatch _ => unreadable position state bytes
    | .found payload frameEnd =>
      let (state, decodes) :=
        visit state payload (position + lengthWidth) (position + frameEnd)
      if decodes then
        scanLoop strict visit salt rounds (position + frameEnd) state (bytes.drop frameEnd)
      else if strict.decode then .error undecodable
      else .ok (state, position)
where
  /-- The scan ends here, unless it is strict and there are frames behind. -/
  unreadable (position : Nat) (state : σ) (bytes : Bytes) : Except String (σ × Nat) :=
    if strict.frames then do
      if ← aWellFormedFrameFollows salt (bytes.drop lengthWidth) then throw corruptMiddle
      return (state, position)
    else return (state, position)

def scanOpenParts {σ : Type} (strict : Strictness) (truncateTail : Bool) (fresh : Salt)
    (visit : Visitor σ) (start : σ) (file : Bytes) : Bytes × Except String (Salt × σ) :=
  match prepareHeader fresh file with
  | (file, .error message) => (file, .error message)
  | (file, .ok salt) =>
    let bytes := file.drop headerLen
    match scanLoop strict visit salt (bytes.length + 1) headerLen start bytes with
    | .error message => (file, .error message)
    | .ok (state, clean) =>
      (if truncateTail ∧ clean < file.length then file.take clean else file, .ok (salt, state))

def openScanned {σ : Type} : Salt → Visitor σ → σ → Bytes → Bytes × Except String (Salt × σ) :=
  scanOpenParts ⟨false, false⟩ true

def openScannedStrict {σ : Type} :
    Salt → Visitor σ → σ → Bytes → Bytes × Except String (Salt × σ) :=
  scanOpenParts ⟨true, true⟩ true

def openScannedKeepingTailStrict {σ : Type} :
    Salt → Visitor σ → σ → Bytes → Bytes × Except String (Salt × σ) :=
  scanOpenParts ⟨false, true⟩ false

/-! ## Reading what was written -/

section Reading

variable {salt : Salt} {payload rest : Bytes}

@[simp] theorem length_header (salt : Salt) : (header salt).length = headerLen := by
  simp [header, magic, headerLen]

theorem prepareHeader_header (fresh salt : Salt) (rest : Bytes) :
    prepareHeader fresh (header salt ++ rest) = (header salt ++ rest, .ok salt) := by
  have long : ¬ (header salt ++ rest).length < headerLen := by simp
  have marked : ¬ (header salt ++ rest).take magic.length ≠ magic := by simp [header]
  rw [prepareHeader, if_neg long, if_neg marked]
  congr 2
  ext place inside
  rw [Vector.getElem_ofFn, header, List.append_assoc, List.getD_append_right _ _ _ _ (by simp)]
  simp [List.getElem?_append, inside]

theorem length_putBytes (payload : Bytes) :
    (Codec.putBytes payload).length = lengthWidth + payload.length := by
  simp [Codec.putBytes, Codec.putU64, lengthWidth]

theorem length_frame (salt : Salt) (payload : Bytes) :
    (frame salt payload).length = lengthWidth + payload.length + checksumWidth := by
  simp only [frame, List.length_append, length_putBytes, Crc.length_stored, checksumWidth]

/-- The front of a frame spells the length of the payload. -/
theorem natOfLe_putBytes (small : payload.length < 2 ^ 64) (rest : Bytes) :
    Word.natOfLe ((Codec.putBytes payload ++ rest).take lengthWidth) = payload.length := by
  have front : (Codec.putBytes payload ++ rest).take lengthWidth =
      (Word.clamp 64 payload.length).leBytes 8 := by
    simp [Codec.putBytes, Codec.putU64, lengthWidth]
  rw [front, Word.leBytes_eq, Word.natOfLe_leDigits, Word.val_clamp]
  omega

theorem readFrame_frame (salt : Salt) (small : payload.length < 2 ^ 64) (rest : Bytes) :
    readFrame salt (frame salt payload ++ rest) =
      .found payload (frame salt payload).length := by
  have framed : frame salt payload ++ rest = Codec.putBytes payload ++
      (Crc.stored (salt.toList ++ Codec.putBytes payload) ++ rest) := List.append_assoc _ _ _
  have spelled := natOfLe_putBytes small (Crc.stored (salt.toList ++ Codec.putBytes payload) ++ rest)
  have total : (frame salt payload ++ rest).length =
      lengthWidth + payload.length + checksumWidth + rest.length := by
    rw [List.length_append, length_frame]
  rw [← framed] at spelled
  have covered : (frame salt payload ++ rest).take (lengthWidth + payload.length) =
      Codec.putBytes payload := by
    rw [framed, ← length_putBytes payload, List.take_left]
  have stored : ((frame salt payload ++ rest).drop (lengthWidth + payload.length)).take
      checksumWidth = Crc.stored (salt.toList ++ Codec.putBytes payload) := by
    rw [framed, ← length_putBytes payload, List.drop_left]
    exact List.take_left' (Crc.length_stored _)
  have middle : ((frame salt payload ++ rest).drop lengthWidth).take payload.length = payload := by
    rw [framed, Codec.putBytes, List.append_assoc, List.drop_left' (by simp [Codec.putU64, lengthWidth]),
      List.take_left]
  unfold readFrame
  rw [if_neg (by omega)]
  simp only [spelled]
  rw [if_neg (by omega), if_neg, middle, length_frame]
  rw [stored, covered, not_not]
  exact (Crc.natOfLe_eq_checksum (Crc.length_stored _)).mpr rfl

theorem length_lt_of_short {bytes : Bytes} (short : readFrame salt bytes = .short) :
    bytes.length < lengthWidth := by
  by_contra long
  unfold readFrame at short
  rw [if_neg long] at short
  simp only at short
  split at short
  next => cases short
  next => split at short <;> cases short

/-- What is left of a frame is not a frame: it is too short for the length that it spells. -/
theorem readFrame_torn {left missing : Bytes} (small : payload.length < 2 ^ 64)
    (filled : missing ≠ []) (shape : left ++ missing = frame salt payload) :
    readFrame salt left = .short ∨ readFrame salt left = .overrun := by
  have lengths : left.length + missing.length = lengthWidth + payload.length + checksumWidth := by
    rw [← length_frame salt payload, ← shape, List.length_append]
  have positive := List.length_pos_iff.mpr filled
  unfold readFrame
  split
  next => exact .inl rfl
  next long =>
    have spelled : Word.natOfLe (left.take lengthWidth) = payload.length := by
      have front := natOfLe_putBytes small (Crc.stored (salt.toList ++ Codec.putBytes payload))
      rw [show Codec.putBytes payload ++ Crc.stored (salt.toList ++ Codec.putBytes payload) =
        left ++ missing from shape.symm,
        List.take_append_of_le_length (Nat.not_lt.mp long)] at front
      exact front
    simp only [spelled]
    rw [if_pos (by omega)]
    exact .inr rfl

end Reading

theorem wellFormed_frame {salt : Salt} {payload : Bytes} (small : payload.length < 2 ^ 64)
    (rest : Bytes) : WellFormed salt (frame salt payload ++ rest) :=
  ⟨_, _, readFrame_frame salt small rest⟩

/-- The front of the bytes is where a scan for frames ends as at a torn tail. -/
def Ends (salt : Salt) (bytes : Bytes) : Prop :=
  readFrame salt bytes = .short ∨ readFrame salt bytes = .overrun

theorem ends_nil (salt : Salt) : Ends salt [] := .inl rfl

variable {bytes tail : Bytes} {payloads : List Bytes}

theorem ends_torn (salt : Salt) {α : Type} {encode : α → Bytes} {items : List α}
    (small : ∀ item ∈ items, (encode item).length < 2 ^ 64) (cut : Nat) :
    Ends salt (Frames.torn (fun item => frame salt (encode item)) items cut) := by
  rcases Frames.torn_shape (fun item => frame salt (encode item)) items cut with
    empty | ⟨item, missing, member, filled, shape⟩
  · rw [empty]
    exact ends_nil salt
  · exact readFrame_torn (small item member) filled shape

theorem length_le_length_written (salt : Salt) (payloads : List Bytes) :
    payloads.length ≤ (Frames.written (frame salt) payloads).length := by
  induction payloads with
  | nil => exact Nat.le_refl _
  | cons payload rest hypothesis =>
    rw [Frames.written_cons, List.length_append, length_frame, List.length_cons]
    simp only [lengthWidth]
    omega

/-- A scan has a round for every frame, and one more. -/
theorem rounds_left (salt : Salt) (payloads : List Bytes) (tail : Bytes) :
    ∃ spare, (Frames.written (frame salt) payloads ++ tail).length + 1 =
      payloads.length + (spare + 1) := by
  have enough := length_le_length_written salt payloads
  rw [List.length_append]
  exact ⟨(Frames.written (frame salt) payloads).length + tail.length - payloads.length, by omega⟩

/-! ## Scanning what was written -/

section

variable (small : ∀ payload ∈ payloads, payload.length < 2 ^ 64)

include small

theorem scanRounds_written {salt : Salt} (ends : Ends salt tail) (rounds : Nat) :
    scanRounds salt (payloads.length + rounds + 1)
        (Frames.written (frame salt) payloads ++ tail) =
      (payloads, (Frames.written (frame salt) payloads).length, .tornTail) := by
  induction payloads with
  | nil =>
    rcases ends with short | overrun
    · simp [scanRounds, short]
    · simp [scanRounds, overrun]
  | cons payload rest hypothesis =>
    have read := readFrame_frame salt (small payload List.mem_cons_self)
      (Frames.written (frame salt) rest ++ tail)
    have later := hypothesis (List.forall_mem_cons.mp small).2
    rw [List.length_cons, show rest.length + 1 + rounds + 1 = (rest.length + rounds + 1) + 1 by omega,
      scanRounds, Frames.written_cons, List.append_assoc, read]
    simp only [List.drop_left, later, List.length_append]

theorem scan_written {salt : Salt} (ends : Ends salt tail) :
    scan salt (Frames.written (frame salt) payloads ++ tail) =
      (payloads, (Frames.written (frame salt) payloads).length, .tornTail) := by
  obtain ⟨spare, rounds⟩ := rounds_left salt payloads tail
  rw [scan, rounds, ← Nat.add_assoc]
  exact scanRounds_written small ends spare

/-- A log with whole frames and a torn tail is opened with the payloads of the frames, and loses the
tail. -/
theorem open_written (fresh : Salt) {salt : Salt} (ends : Ends salt tail) :
    Log.openLog fresh (header salt ++ (Frames.written (frame salt) payloads ++ tail)) =
      (header salt ++ Frames.written (frame salt) payloads, .ok (salt, payloads)) := by
  rw [Log.openLog, prepareHeader_header]
  simp only [List.drop_left' (length_header salt), scan_written small ends, List.length_append]
  split
  · rw [if_neg (by decide)]
    rw [← List.append_assoc, List.take_left' (by simp)]
  next whole =>
    have empty : tail = [] := List.eq_nil_of_length_eq_zero (by omega)
    rw [empty, List.append_nil]

end

/-! ## Visiting what was written -/

section Visiting

variable {σ : Type} (strict : Strictness) (visit : Visitor σ) (salt : Salt)

/-- The state of a visitor after payloads whose first frame is at a position. -/
def visited : Nat → σ → List Bytes → σ
  | _, state, [] => state
  | position, state, payload :: rest =>
    let frameEnd := position + (frame salt payload).length
    visited frameEnd (visit state payload (position + lengthWidth) frameEnd).1 rest

/-- A visitor accepts payloads, whatever its state. -/
def Accepts (payloads : List Bytes) : Prop :=
  ∀ payload ∈ payloads, ∀ state start frameEnd, (visit state payload start frameEnd).2 = true

variable {strict visit salt}

variable {payloads : List Bytes}

theorem scanLoop_written (accepts : Accepts visit payloads)
    (small : ∀ payload ∈ payloads, payload.length < 2 ^ 64) (tail : Bytes) (rounds position : Nat)
    (state : σ) :
    scanLoop strict visit salt (payloads.length + rounds) position state
        (Frames.written (frame salt) payloads ++ tail) =
      scanLoop strict visit salt rounds
        (position + (Frames.written (frame salt) payloads).length)
        (visited visit salt position state payloads) tail := by
  induction payloads generalizing position state with
  | nil => simp [visited]
  | cons payload rest hypothesis =>
    have read := readFrame_frame salt (small payload List.mem_cons_self)
      (Frames.written (frame salt) rest ++ tail)
    have decodes := accepts payload List.mem_cons_self state (position + lengthWidth)
      (position + (frame salt payload).length)
    have later := hypothesis
      (List.forall_mem_cons.mp accepts).2
      (List.forall_mem_cons.mp small).2
    rw [List.length_cons, show rest.length + 1 + rounds = (rest.length + rounds) + 1 by omega,
      scanLoop, Frames.written_cons, List.append_assoc, read]
    simp only [decodes, if_true, List.drop_left, later, visited, List.length_append]
    rw [Nat.add_assoc]

/-- A strict scan that fails behind some frames fails in front of them, whatever the visitor
accepts. -/
theorem scanLoop_error
    (small : ∀ payload ∈ payloads, payload.length < 2 ^ 64) {tail : Bytes} {rounds : Nat}
    (fails : ∀ position state, ∃ message,
      scanLoop ⟨true, true⟩ visit salt rounds position state tail = .error message)
    (position : Nat) (state : σ) :
    ∃ message, scanLoop ⟨true, true⟩ visit salt (payloads.length + rounds) position state
      (Frames.written (frame salt) payloads ++ tail) = .error message := by
  induction payloads generalizing position state with
  | nil => simpa using fails position state
  | cons payload rest hypothesis =>
    have read := readFrame_frame salt (small payload List.mem_cons_self)
      (Frames.written (frame salt) rest ++ tail)
    rw [List.length_cons, show rest.length + 1 + rounds = (rest.length + rounds) + 1 by omega,
      scanLoop, Frames.written_cons, List.append_assoc, read]
    simp only [List.drop_left]
    split
    next =>
      exact hypothesis (List.forall_mem_cons.mp small).2
        _ _
    next => exact ⟨_, rfl⟩

/-- A log is opened with a visitor of its payloads and keeps what is torn. -/
theorem openScannedKeepingTailStrict_written (fresh : Salt) (start : σ)
    {tail : Bytes} (accepts : Accepts visit payloads)
    (small : ∀ payload ∈ payloads, payload.length < 2 ^ 64) (ends : Ends salt tail) :
    let file := header salt ++ (Frames.written (frame salt) payloads ++ tail)
    openScannedKeepingTailStrict fresh visit start file =
      (file, .ok (salt, visited visit salt headerLen start payloads)) := by
  intro file
  obtain ⟨spare, rounds⟩ := rounds_left salt payloads tail
  have stops : ∀ position state, scanLoop ⟨false, true⟩ visit salt (spare + 1) position state tail =
      .ok (state, position) := by
    intro position state
    rcases ends with short | overrun
    · rw [scanLoop, short]
    · rw [scanLoop, overrun]
      rfl
  rw [openScannedKeepingTailStrict, scanOpenParts, prepareHeader_header]
  simp only [List.drop_left' (length_header salt), rounds, scanLoop_written accepts small, stops]
  rfl

end Visiting

/-! ## Looking for frames behind a torn one -/

/-- The bytes that a probe has to check: the length that the front spells, if it fits. -/
def spelledLength (bytes : Bytes) : Nat :=
  let length := Word.natOfLe (bytes.take lengthWidth)
  let available := bytes.length - lengthWidth
  if bytes.length < lengthWidth ∨ length > available ∨ available - length < checksumWidth then 0
  else length

def probeCost : Bytes → Nat
  | [] => 0
  | byte :: rest => spelledLength (byte :: rest) + probeCost rest

/-- The places to look at, and the bytes to check at them, are within the limits. -/
def Affordable (bytes : Bytes) : Prop :=
  bytes.length - 7 ≤ maxResyncProbes ∧ probeCost bytes ≤ maxProbeBytes

instance (bytes : Bytes) : Decidable (Affordable bytes) := inferInstanceAs (Decidable (_ ∧ _))

theorem frameIsWellFormed_of_not {salt : Salt} (absent : ¬ WellFormed salt bytes) (budget : Nat) :
    frameIsWellFormed salt bytes budget =
      if spelledLength bytes ≤ budget then .missed (spelledLength bytes) else .overBudget := by
  unfold frameIsWellFormed spelledLength
  by_cases short : bytes.length < lengthWidth
  · simp [short]
  · by_cases overrun : Word.natOfLe (bytes.take lengthWidth) > bytes.length - lengthWidth ∨
      bytes.length - lengthWidth - Word.natOfLe (bytes.take lengthWidth) < checksumWidth
    · simp [short, overrun]
    · simp only [short, overrun, if_false, false_or, absent]
      split
      next dear => rw [if_neg (by omega)]
      next within => rw [if_pos (by omega)]

theorem probeCost_of_short (short : bytes.length < lengthWidth) : probeCost bytes = 0 := by
  induction bytes with
  | nil => rfl
  | cons byte rest hypothesis =>
    have shorter : rest.length < lengthWidth := Nat.lt_of_succ_lt short
    rw [probeCost, hypothesis shorter, spelledLength, if_pos (.inl short)]

/-- Without a frame to find, the probing finds none if it is affordable, and gives up otherwise. -/
theorem probeFrom_of_none {salt : Salt} {probed : Nat}
    (absent : ∀ place, ¬ WellFormed salt (bytes.drop place)) (early : probed ≤ maxResyncProbes)
    (budget : Nat) :
    probeFrom salt bytes probed budget =
      if probed + (bytes.length - 7) ≤ maxResyncProbes ∧ probeCost bytes ≤ budget then .ok false
      else .error corruptMiddle := by
  induction bytes generalizing probed budget with
  | nil => simp [probeFrom, probeCost, early]
  | cons byte rest hypothesis =>
    have later : ∀ place, ¬ WellFormed salt (rest.drop place) := fun place => absent (place + 1)
    have here : ¬ WellFormed salt (byte :: rest) := absent 0
    by_cases short : (byte :: rest).length < lengthWidth
    · have nothing : (byte :: rest).length - 7 = 0 := by
        simp only [lengthWidth] at short
        omega
      rw [probeFrom, if_pos short, probeCost_of_short short, nothing, if_pos ⟨early, Nat.zero_le _⟩]
    · have places : (byte :: rest).length - 7 = rest.length - 7 + 1 := by
        simp only [lengthWidth, List.length_cons] at short ⊢
        omega
      rw [probeFrom, if_neg short, places, probeCost]
      by_cases last : maxResyncProbes ≤ probed
      · rw [if_pos last, if_neg (by omega)]
      · rw [if_neg last, frameIsWellFormed_of_not here]
        by_cases fits : spelledLength (byte :: rest) ≤ budget
        · simp only [if_pos fits]
          rw [hypothesis later (by omega)]
          exact if_congr (by omega) rfl rfl
        · simp only [if_neg fits]
          rw [if_neg (by omega)]

theorem aWellFormedFrameFollows_of_none {salt : Salt}
    (absent : ∀ place, ¬ WellFormed salt (bytes.drop place)) :
    aWellFormedFrameFollows salt bytes =
      if Affordable bytes then .ok false else .error corruptMiddle := by
  have probed := probeFrom_of_none absent (Nat.zero_le _) maxProbeBytes
  rw [Nat.zero_add] at probed
  exact probed

/-- A frame that is there is found, or is too long to check. -/
theorem frameIsWellFormed_ne_missed {salt : Salt} (found : WellFormed salt bytes)
    (budget spent : Nat) : frameIsWellFormed salt bytes budget ≠ .missed spent := by
  obtain ⟨payload, frameEnd, read⟩ := found
  have found : WellFormed salt bytes := ⟨payload, frameEnd, read⟩
  unfold readFrame at read
  unfold frameIsWellFormed
  by_cases short : bytes.length < lengthWidth
  · rw [if_pos short] at read
    cases read
  · rw [if_neg short] at read ⊢
    by_cases overrun : Word.natOfLe (bytes.take lengthWidth) > bytes.length - lengthWidth ∨
        bytes.length - lengthWidth - Word.natOfLe (bytes.take lengthWidth) < checksumWidth
    · rw [if_pos overrun] at read
      cases read
    · simp only [overrun, if_false, found, if_true]
      split <;> nofun

/-- With a frame to find, the probing does not end without having found one. -/
theorem probeFrom_ne_false {salt : Salt} {place : Nat}
    (found : WellFormed salt (bytes.drop place)) (probed budget : Nat) :
    probeFrom salt bytes probed budget ≠ .ok false := by
  induction bytes generalizing place probed budget with
  | nil =>
    rw [List.drop_nil] at found
    obtain ⟨_, _, read⟩ := found
    cases read
  | cons byte rest hypothesis =>
    have long : ¬ (byte :: rest).length < lengthWidth := by
      intro short
      obtain ⟨_, _, read⟩ := found
      rw [readFrame, if_pos (by rw [List.length_drop]; omega)] at read
      cases read
    rw [probeFrom, if_neg long]
    split
    next => nofun
    next =>
      split
      next => nofun
      next spent missed =>
        cases place with
        | zero => exact absurd missed (frameIsWellFormed_ne_missed found _ _)
        | succ place => exact hypothesis found _ _
      next => nofun

end QuantovaChain.Store
