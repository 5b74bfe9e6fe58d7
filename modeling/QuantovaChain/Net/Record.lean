import QuantovaChain.Library.Word
import QuantovaChain.State.Trie

/-!
# Records

A channel carries records. A record is sealed with a number that counts the records of its
direction: the number is in the nonce and is authenticated with the record. It is written as the
length of what was sealed, the ciphertext and the tag. The sealer counts on before it seals, so that
a record that was not written completely still uses up its number, and after such a record it seals
nothing more. The opener counts on only when a record opens.

The cipher is not part of the repository. What is used of it is that it seals every record that is
short enough, and that it opens what it sealed.
-/

namespace QuantovaChain.Net

open State (Bytes)

/-! ## The cipher -/

abbrev RecordKey := Vector UInt8 32

abbrev Nonce := Vector UInt8 12

abbrev Tag := Vector UInt8 16

def tagBytes : Nat := 16

def maxRecordPlaintext : Nat := 2 ^ 20

def lengthPrefix : Nat := 4

/-- An authenticated cipher. -/
class Aead where
  sealRecord : RecordKey → Nonce → Bytes → Bytes → Option (Bytes × Tag)
  openRecord : RecordKey → Nonce → Bytes → Bytes → Tag → Option Bytes
  seals : ∀ key nonce aad plaintext, plaintext.length ≤ maxRecordPlaintext →
    ∃ ciphertext tag, sealRecord key nonce aad plaintext = some (ciphertext, tag) ∧
      ciphertext.length = plaintext.length
  opens : ∀ {key nonce aad plaintext ciphertext tag},
    sealRecord key nonce aad plaintext = some (ciphertext, tag) →
      openRecord key nonce aad ciphertext tag = some plaintext

inductive IoError
  | unexpectedEof
  | wouldBlock
  | timedOut
  | other
  deriving DecidableEq, Repr

inductive ChannelError
  | io (error : IoError)
  | handshake (reason : String)
  | authentication
  | unexpectedPeer
  | record
  | messageTooLarge
  | badFragment
  deriving DecidableEq, Repr

/-- A number in eight bytes, the most significant first. -/
def sequenceBytes (sequence : Nat) : Bytes := (Word.leDigits sequence 8).reverse

def recordNonce (iv : Nonce) (sequence : Nat) : Nonce :=
  Vector.ofFn fun place =>
    if place.val < 4 then iv.get place
    else iv.get place ^^^ (sequenceBytes sequence).getD (place.val - 4) 0

/-- What the cipher is given to open. -/
structure Attempt where
  nonce : Nonce
  aad : Bytes
  ciphertext : Bytes
  tag : Tag
  deriving DecidableEq

/-- What the cipher sealed. -/
structure SealedRecord extends Attempt where
  plaintext : Bytes
  deriving DecidableEq

/-! ## Sealing -/

/-- What becomes of a frame that is written: all of it, a part, or all of it but the stream reports
a failure. -/
inductive WriteOutcome
  | written
  | broken (count : Nat) (error : IoError)
  | unflushed (error : IoError)
  deriving DecidableEq

/-- A sealer. What it sealed is noted. -/
structure Sealer where
  key : RecordKey
  iv : Nonce
  sequence : Nat
  torn : Bool
  sealed : List SealedRecord

def Sealer.new (key : RecordKey) (iv : Nonce) : Sealer := ⟨key, iv, 0, false, []⟩

def sealerTorn : String :=
  "a previous record was only part written, so this stream can no longer be framed"

def frameBytes (ciphertext : Bytes) (tag : Tag) : Bytes :=
  (Word.leDigits (ciphertext.length + tagBytes) lengthPrefix).reverse ++ (ciphertext ++ tag.toList)

variable [Aead]

/-- Seals one record. The outcome of writing it is given by its number. The result is what is on the
stream then. -/
def Sealer.sealRecord (writes : Nat → WriteOutcome) (sealer : Sealer) (plaintext : Bytes) :
    Sealer × Except ChannelError Unit × Bytes :=
  if sealer.torn then (sealer, .error (.handshake sealerTorn), [])
  else if plaintext.length > maxRecordPlaintext then
    (sealer, .error (.handshake "record plaintext exceeds the size bound"), [])
  else if sealer.sequence = 2 ^ 64 - 1 then
    (sealer, .error (.handshake "record sequence exhausted"), [])
  else
    let nonce := recordNonce sealer.iv sealer.sequence
    let aad := sequenceBytes sealer.sequence
    match Aead.sealRecord sealer.key nonce aad plaintext with
    | none =>
      ({ sealer with sequence := sealer.sequence + 1 },
        .error (.handshake "record plaintext exceeds the aead bound"), [])
    | some (ciphertext, tag) =>
      let frame := frameBytes ciphertext tag
      let sealed := sealer.sealed ++ [⟨⟨nonce, aad, ciphertext, tag⟩, plaintext⟩]
      let after := { sealer with sequence := sealer.sequence + 1, sealed }
      match writes sealer.sequence with
      | .written => (after, .ok (), frame)
      | .broken count error => ({ after with torn := true }, .error (.io error), frame.take count)
      | .unflushed error => ({ after with torn := true }, .error (.io error), frame)

/-! ## Reading -/

/-- What a stream answers to reads: some bytes, of which a read takes what it has room for, an
interruption, or a failure. No bytes are the end of the stream. -/
inductive ReadEvent
  | chunk (bytes : Bytes)
  | interrupted
  | failed (error : IoError)
  deriving DecidableEq

/-- Reads until there are as many bytes as wanted. What a failure means may depend on whether it is
the first thing that happens. -/
def readFull (wanted : Nat) (failure : Bool → IoError → ChannelError) :
    List ReadEvent → Bytes → Except ChannelError Bytes × List ReadEvent
  | [], filled =>
    if wanted ≤ filled.length then (.ok filled, []) else (.error (.io .unexpectedEof), [])
  | event :: rest, filled =>
    if wanted ≤ filled.length then (.ok filled, event :: rest)
    else match event with
      | .chunk bytes =>
        if bytes.isEmpty then (.error (.io .unexpectedEof), rest)
        else if bytes.length ≤ wanted - filled.length then
          readFull wanted failure rest (filled ++ bytes)
        else
          (.ok (filled ++ bytes.take (wanted - filled.length)),
            .chunk (bytes.drop (wanted - filled.length)) :: rest)
      | .interrupted => readFull wanted failure rest filled
      | .failed error => (.error (failure filled.isEmpty error), rest)

/-- A failure before the first byte of a frame is reported, any other makes the frame unreadable. -/
def fill (wanted : Nat) (midFrame : Bool) (events : List ReadEvent) :
    Except ChannelError Bytes × List ReadEvent :=
  readFull wanted (fun empty error => if empty && !midFrame then .io error else .record) events []

/-! ## Opening -/

/-- An opener. What it tried to open is noted. -/
structure Opener where
  key : RecordKey
  iv : Nonce
  sequence : Nat
  tried : List Attempt

def Opener.new (key : RecordKey) (iv : Nonce) : Opener := ⟨key, iv, 0, []⟩

/-- Reads the ciphertext and the tag of a record. -/
def readRecord (events : List ReadEvent) : Except ChannelError (Bytes × Tag) × List ReadEvent :=
  match fill lengthPrefix false events with
  | (.error error, events) => (.error error, events)
  | (.ok lengthBytes, events) =>
    let length := Word.natOfLe lengthBytes.reverse
    if length < tagBytes ∨ maxRecordPlaintext + tagBytes < length then
      (.error (.handshake "record length is out of range"), events)
    else match fill length true events with
      | (.error error, events) => (.error error, events)
      | (.ok body, events) =>
        let cut := length - tagBytes
        (.ok (body.take cut, Vector.ofFn fun place => body.getD (cut + place.val) 0), events)

def Opener.attempt (opener : Opener) (ciphertext : Bytes) (tag : Tag) : Attempt :=
  ⟨recordNonce opener.iv opener.sequence, sequenceBytes opener.sequence, ciphertext, tag⟩

/-- The answer of the cipher. -/
def Attempt.answer (key : RecordKey) (attempt : Attempt) : Option Bytes :=
  Aead.openRecord key attempt.nonce attempt.aad attempt.ciphertext attempt.tag

def Opener.openRecord (opener : Opener) (events : List ReadEvent) :
    Opener × Except ChannelError Bytes × List ReadEvent :=
  match readRecord events with
  | (.error error, events) => (opener, .error error, events)
  | (.ok (ciphertext, tag), events) =>
    let attempt := opener.attempt ciphertext tag
    let opener := { opener with tried := opener.tried ++ [attempt] }
    match attempt.answer opener.key with
    | some plaintext => ({ opener with sequence := opener.sequence + 1 }, .ok plaintext, events)
    | none => (opener, .error .record, events)

/-! ## Numbers and nonces -/

omit [Aead] in
theorem sequenceBytes_inj {first second : Nat} (firstSmall : first < 2 ^ 64)
    (secondSmall : second < 2 ^ 64) (same : sequenceBytes first = sequenceBytes second) :
    first = second := by
  have digits := congrArg Word.natOfLe (List.reverse_injective same)
  rw [Word.natOfLe_leDigits, Word.natOfLe_leDigits] at digits
  have firstMod : first % 256 ^ 8 = first := Nat.mod_eq_of_lt firstSmall
  have secondMod : second % 256 ^ 8 = second := Nat.mod_eq_of_lt secondSmall
  rwa [firstMod, secondMod] at digits

omit [Aead] in
@[simp] theorem length_sequenceBytes (sequence : Nat) : (sequenceBytes sequence).length = 8 := by
  simp [sequenceBytes, Word.leDigits]

omit [Aead] in
/-- Two numbers never give one nonce. -/
theorem recordNonce_inj {iv : Nonce} {first second : Nat} (firstSmall : first < 2 ^ 64)
    (secondSmall : second < 2 ^ 64) (same : recordNonce iv first = recordNonce iv second) :
    first = second := by
  refine sequenceBytes_inj firstSmall secondSmall (List.ext_getElem (by simp) ?_)
  intro place inside other
  have small : place + 4 < 12 := by
    rw [length_sequenceBytes] at inside
    omega
  have byte := congrArg (fun nonce : Nonce => nonce[place + 4]) same
  simp only [recordNonce, Vector.getElem_ofFn, if_neg (Nat.not_lt.mpr (Nat.le_add_left 4 place)),
    Nat.add_sub_cancel, List.getD_eq_getElem _ _ inside, List.getD_eq_getElem _ _ other,
    UInt8.xor_right_inj] at byte
  exact byte

/-! ## What was sealed -/

def SealedRecord.frame (record : SealedRecord) : Bytes := frameBytes record.ciphertext record.tag

namespace Sealer

/-- The records are sealed under their numbers. -/
structure Counted (sealer : Sealer) : Prop where
  count : sealer.sealed.length = sealer.sequence
  small : sealer.sequence < 2 ^ 64
  nonce : ∀ place (inside : place < sealer.sealed.length),
    sealer.sealed[place].nonce = recordNonce sealer.iv place
  aad : ∀ place (inside : place < sealer.sealed.length),
    sealer.sealed[place].aad = sequenceBytes place
  opens : ∀ sealed ∈ sealer.sealed, sealed.answer sealer.key = some sealed.plaintext
  length : ∀ sealed ∈ sealer.sealed, sealed.ciphertext.length ≤ maxRecordPlaintext

theorem counted_new (key : RecordKey) (iv : Nonce) : (new key iv).Counted :=
  ⟨rfl, Nat.two_pow_pos 64, fun _ inside => absurd inside (Nat.not_lt_zero _),
    fun _ inside => absurd inside (Nat.not_lt_zero _), fun _ listed => absurd listed List.not_mem_nil,
    fun _ listed => absurd listed List.not_mem_nil⟩

/-- The sealer will not seal any more. -/
def Stuck (sealer : Sealer) : Prop := sealer.torn = true ∨ sealer.sequence = 2 ^ 64 - 1

/-- One more record was sealed. -/
structure Grown (before after : Sealer) (record : SealedRecord) : Prop where
  sealed : after.sealed = before.sealed ++ [record]
  sequence : after.sequence = before.sequence + 1
  key : after.key = before.key
  iv : after.iv = before.iv
  nonce : record.nonce = recordNonce before.iv before.sequence
  aad : record.aad = sequenceBytes before.sequence
  opens : record.answer before.key = some record.plaintext
  length : record.ciphertext.length ≤ maxRecordPlaintext
  room : before.sequence + 1 < 2 ^ 64

theorem Counted.grown {before after : Sealer} {record : SealedRecord} (counted : before.Counted)
    (grown : Grown before after record) : after.Counted where
  count := by rw [grown.sealed, List.length_append, counted.count, grown.sequence]; rfl
  small := grown.sequence ▸ grown.room
  nonce place inside := by
    simp only [grown.sealed, grown.iv, List.getElem_append]
    split
    next within => exact counted.nonce place within
    next behind =>
      have last : place = before.sequence := by
        rw [grown.sealed, List.length_append, counted.count, List.length_singleton] at inside
        rw [counted.count] at behind
        omega
      rw [List.getElem_singleton, grown.nonce, last]
  aad place inside := by
    simp only [grown.sealed, List.getElem_append]
    split
    next within => exact counted.aad place within
    next behind =>
      have last : place = before.sequence := by
        rw [grown.sealed, List.length_append, counted.count, List.length_singleton] at inside
        rw [counted.count] at behind
        omega
      rw [List.getElem_singleton, grown.aad, last]
  opens sealed listed := by
    rw [grown.sealed] at listed
    rw [grown.key]
    rcases List.mem_append.mp listed with member | member
    · exact counted.opens sealed member
    · rw [List.mem_singleton.mp member]
      exact grown.opens
  length sealed listed := by
    rw [grown.sealed] at listed
    rcases List.mem_append.mp listed with member | member
    · exact counted.length sealed member
    · rw [List.mem_singleton.mp member]
      exact grown.length

/-- A record that is short enough is sealed, unless the sealer is stuck. If it was not written
completely, the sealer is stuck. -/
theorem seal_spec (writes : Nat → WriteOutcome) {sealer : Sealer} (counted : sealer.Counted)
    {plaintext : Bytes} (short : plaintext.length ≤ maxRecordPlaintext) :
    (sealer.Stuck ∧ ∃ error, sealer.sealRecord writes plaintext = (sealer, .error error, [])) ∨
      ¬ sealer.Stuck ∧ ∃ after result bytes record,
        sealer.sealRecord writes plaintext = (after, result, bytes) ∧
        Grown sealer after record ∧ record.plaintext = plaintext ∧
        (result = .ok () ∧ bytes = record.frame ∨
          (∃ error, result = .error error) ∧ after.Stuck) := by
  unfold Sealer.sealRecord
  by_cases torn : sealer.torn = true
  · rw [if_pos torn]
    exact .inl ⟨.inl torn, _, rfl⟩
  rw [if_neg torn, if_neg (Nat.not_lt.mpr short)]
  by_cases exhausted : sealer.sequence = 2 ^ 64 - 1
  · rw [if_pos exhausted]
    exact .inl ⟨.inr exhausted, _, rfl⟩
  rw [if_neg exhausted]
  obtain ⟨ciphertext, tag, sealed, length⟩ := Aead.seals sealer.key
    (recordNonce sealer.iv sealer.sequence) (sequenceBytes sealer.sequence) plaintext short
  have room : sealer.sequence + 1 < 2 ^ 64 := by
    have small := counted.small
    omega
  have grown : ∀ torn, Grown sealer
      ⟨sealer.key, sealer.iv, sealer.sequence + 1, torn, sealer.sealed ++
        [⟨⟨recordNonce sealer.iv sealer.sequence, sequenceBytes sealer.sequence, ciphertext, tag⟩,
          plaintext⟩]⟩
      ⟨⟨recordNonce sealer.iv sealer.sequence, sequenceBytes sealer.sequence, ciphertext, tag⟩,
        plaintext⟩ :=
    fun torn => ⟨rfl, rfl, rfl, rfl, rfl, rfl, Aead.opens sealed, length ▸ short, room⟩
  simp only [sealed]
  refine .inr ⟨not_or.mpr ⟨torn, exhausted⟩, ?_⟩
  cases writes sealer.sequence with
  | written => exact ⟨_, _, _, _, rfl, grown _, rfl, .inl ⟨rfl, rfl⟩⟩
  | broken count error => exact ⟨_, _, _, _, rfl, grown true, rfl, .inr ⟨⟨_, rfl⟩, .inl rfl⟩⟩
  | unflushed error => exact ⟨_, _, _, _, rfl, grown true, rfl, .inr ⟨⟨_, rfl⟩, .inl rfl⟩⟩

/-- The nonces of what was sealed are all different. -/
theorem Counted.nodup {sealer : Sealer} (counted : sealer.Counted) :
    (sealer.sealed.map fun sealed => sealed.nonce).Nodup := by
  rw [List.Nodup, List.pairwise_map, List.pairwise_iff_getElem]
  intro first second inFirst inSecond before same
  rw [counted.nonce first inFirst, counted.nonce second inSecond] at same
  have small := counted.small
  have count := counted.count
  have equal := recordNonce_inj (by omega) (by omega) same
  omega

end Sealer

/-! ## Reading what was written -/

/-- A stream that gives some bytes, in whatever pieces, and does not fail. -/
def Delivers : List ReadEvent → Bytes → Prop
  | [], bytes => bytes = []
  | .chunk piece :: rest, bytes => piece ≠ [] ∧ ∃ more, bytes = piece ++ more ∧ Delivers rest more
  | .interrupted :: rest, bytes => Delivers rest bytes
  | .failed _ :: _, _ => False

variable {events : List ReadEvent} {rest : Bytes}

omit [Aead] in
/-- From such a stream the first bytes are read. -/
theorem readFull_delivers (wanted : Nat) (failure : Bool → IoError → ChannelError)
    (filled : Bytes) {first : Bytes} (delivers : Delivers events (first ++ rest))
    (length : filled.length + first.length = wanted) :
    ∃ left, readFull wanted failure events filled = (.ok (filled ++ first), left) ∧
      Delivers left rest := by
  induction events generalizing filled first with
  | nil =>
    obtain ⟨rfl, rfl⟩ := List.append_eq_nil_iff.mp delivers
    rw [List.length_nil, Nat.add_zero] at length
    exact ⟨[], by rw [readFull, if_pos (Nat.le_of_eq length.symm), List.append_nil], rfl⟩
  | cons event events hypothesis =>
    by_cases done : wanted ≤ filled.length
    · have empty : first = [] := List.eq_nil_of_length_eq_zero (by omega)
      subst empty
      exact ⟨event :: events, by unfold readFull; rw [if_pos done, List.append_nil], delivers⟩
    unfold readFull
    rw [if_neg done]
    cases event with
    | chunk piece =>
      obtain ⟨notNil, more, cut, delivers⟩ := delivers
      have notEmpty : ¬ piece.isEmpty = true := by simpa using notNil
      simp only [if_neg notEmpty]
      by_cases fits : piece.length ≤ wanted - filled.length
      · obtain ⟨later, firstEq, moreEq⟩ : ∃ later, first = piece ++ later ∧ more = later ++ rest := by
          rcases List.append_eq_append_iff.mp cut with ⟨middle, pieceEq, restEq⟩ |
              ⟨middle, firstEq, moreEq⟩
          · have empty : middle = [] := by
              refine List.eq_nil_of_length_eq_zero ?_
              rw [pieceEq, List.length_append] at fits
              omega
            subst empty
            exact ⟨[], by simpa using pieceEq.symm, by simpa using restEq.symm⟩
          · exact ⟨middle, firstEq, moreEq⟩
        subst firstEq moreEq
        rw [if_pos fits]
        have onward := hypothesis (filled ++ piece) delivers
          (by simp only [List.length_append] at length ⊢; omega)
        rwa [List.append_assoc] at onward
      · rw [if_neg fits]
        obtain ⟨later, pieceEq, restEq⟩ : ∃ later, piece = first ++ later ∧ rest = later ++ more := by
          rcases List.append_eq_append_iff.mp cut with ⟨middle, pieceEq, restEq⟩ |
              ⟨middle, firstEq, moreEq⟩
          · exact ⟨middle, pieceEq, restEq⟩
          · rw [firstEq, List.length_append] at length
            omega
        have count : wanted - filled.length = first.length := by omega
        subst pieceEq restEq
        have remains : later ≠ [] := by
          rintro rfl
          rw [List.append_nil] at fits
          omega
        exact ⟨.chunk later :: events, by rw [count, List.take_left, List.drop_left],
          remains, more, rfl, delivers⟩
    | interrupted => exact hypothesis filled delivers length
    | failed error => exact delivers.elim

omit [Aead] in
theorem fill_delivers {wanted : Nat} (midFrame : Bool)
    {first : Bytes} (delivers : Delivers events (first ++ rest))
    (length : first.length = wanted) :
    ∃ left, fill wanted midFrame events = (.ok first, left) ∧ Delivers left rest :=
  readFull_delivers wanted _ [] delivers (by rw [List.length_nil, Nat.zero_add, length])

omit [Aead] in
theorem natOfLe_length {length : Nat} (small : length < 2 ^ 32) :
    Word.natOfLe (Word.leDigits length lengthPrefix).reverse.reverse = length := by
  rw [List.reverse_reverse, Word.natOfLe_leDigits]
  exact Nat.mod_eq_of_lt small

omit [Aead] in
/-- A frame is read back. -/
theorem readRecord_delivers {ciphertext : Bytes} {tag : Tag}
    (short : ciphertext.length ≤ maxRecordPlaintext)
    (delivers : Delivers events (frameBytes ciphertext tag ++ rest)) :
    ∃ left, readRecord events = (.ok (ciphertext, tag), left) ∧ Delivers left rest := by
  unfold maxRecordPlaintext at short
  rw [frameBytes, List.append_assoc] at delivers
  obtain ⟨behind, read, delivers⟩ := fill_delivers false delivers
    (show _ = lengthPrefix by simp [Word.leDigits])
  have length := @natOfLe_length (ciphertext.length + tagBytes) (by unfold tagBytes; omega)
  obtain ⟨left, body, delivers⟩ := fill_delivers true delivers
    (show _ = ciphertext.length + tagBytes by simp [tagBytes])
  have tagEq : (Vector.ofFn fun place : Fin 16 =>
      (ciphertext ++ tag.toList).getD (ciphertext.length + place.val) 0) = tag := by
    refine Vector.ext fun place inside => ?_
    rw [Vector.getElem_ofFn, List.getD_append_right _ _ _ _ (Nat.le_add_right _ _),
      Nat.add_sub_cancel_left, List.getD_eq_getElem _ _ (by simpa using inside),
      Vector.getElem_toList]
  refine ⟨left, ?_, delivers⟩
  rw [readRecord, read]
  simp only
  rw [length, if_neg (by unfold tagBytes maxRecordPlaintext; omega), body]
  simp only [Nat.add_sub_cancel, List.take_left, tagEq]

/-! ## Opening what was sealed -/

/-- What opening a record does to the opener. It counts on when the cipher accepted what it was
given under the number of the opener. -/
structure Opened (before after : Opener) (result : Except ChannelError Bytes) : Prop where
  key : after.key = before.key
  iv : after.iv = before.iv
  tried : before.tried <+: after.tried
  failed : ∀ error, result = .error error → after.sequence = before.sequence
  opened : ∀ plaintext, result = .ok plaintext → after.sequence = before.sequence + 1 ∧
    ∃ attempt ∈ after.tried, attempt.aad = sequenceBytes before.sequence ∧
      attempt.answer before.key = some plaintext

theorem Opener.open_spec (opener : Opener) (events : List ReadEvent) :
    Opened opener (opener.openRecord events).1 (opener.openRecord events).2.1 := by
  unfold Opener.openRecord
  split
  next error left read =>
    exact ⟨rfl, rfl, List.prefix_rfl, fun _ _ => rfl, nofun⟩
  next ciphertext tag left read =>
    simp only
    cases answer : (opener.attempt ciphertext tag).answer opener.key with
    | none =>
      exact ⟨rfl, rfl, List.prefix_append _ _, fun _ _ => rfl, nofun⟩
    | some plaintext =>
      refine ⟨rfl, rfl, List.prefix_append _ _, nofun, ?_⟩
      rintro _ ⟨⟩
      exact ⟨rfl, _, List.mem_append_right _ List.mem_cons_self, rfl, answer⟩

/-- Whatever the cipher accepts was sealed. -/
def Unforged (key : RecordKey) (tried : List Attempt) (sealed : List SealedRecord) : Prop :=
  ∀ attempt ∈ tried, ∀ plaintext, attempt.answer key = some plaintext →
    ∃ record ∈ sealed, record.toAttempt = attempt

/-- The record that opens under a number is the one that was sealed under it. -/
theorem Sealer.Counted.opened {sealer : Sealer} (counted : sealer.Counted) {attempt : Attempt}
    {plaintext : Bytes} {sequence : Nat} (few : sequence ≤ sealer.sealed.length)
    (aad : attempt.aad = sequenceBytes sequence)
    (answer : attempt.answer sealer.key = some plaintext)
    (sealed : ∃ record ∈ sealer.sealed, record.toAttempt = attempt) :
    (sealer.sealed.map SealedRecord.plaintext)[sequence]? = some plaintext := by
  obtain ⟨record, listed, rfl⟩ := sealed
  obtain ⟨place, inside, rfl⟩ := List.mem_iff_getElem.mp listed
  have small := counted.small
  have count := counted.count
  have same : place = sequence := by
    rw [counted.aad place inside] at aad
    exact sequenceBytes_inj (by omega) (by omega) aad
  subst same
  rw [counted.opens _ listed, Option.some.injEq] at answer
  rw [List.getElem?_map, List.getElem?_eq_getElem inside, Option.map_some, answer]

end QuantovaChain.Net
