import QuantovaChain.Net.Record

/-!
# Channels

A channel sends messages in records. A message that is too long for one record is cut into
fragments, each of which says whether another one follows. The receiver joins fragments until the
last one. What it has of a message stays when a record cannot be read.

Whatever is done to the stream between the two, the messages that are received are the first of
those that were sent.
-/

namespace QuantovaChain.Net

open State (Bytes)

/-! ## Sending -/

def maxMessage : Nat := 16 * 1024 * 1024

def fragmentFinal : UInt8 := 0

def fragmentMore : UInt8 := 1

def fragmentPayload : Nat := maxRecordPlaintext - 1

def fragmentRounds : Nat → Bytes → List Bytes
  | 0, rest => [fragmentFinal :: rest]
  | rounds + 1, rest =>
    if rest.length ≤ fragmentPayload then [fragmentFinal :: rest]
    else (fragmentMore :: rest.take fragmentPayload) ::
      fragmentRounds rounds (rest.drop fragmentPayload)

/-- The records of a message. A fragment that another one follows is not empty, so that the length
of the message bounds the rounds. -/
def fragments (message : Bytes) : List Bytes := fragmentRounds message.length message

section Channel

variable [Aead]

/-- Seals records until one fails. -/
def sealAll (writes : Nat → WriteOutcome) :
    Sealer → List Bytes → Sealer × Except ChannelError Unit × Bytes
  | sealer, [] => (sealer, .ok (), [])
  | sealer, record :: rest =>
    match sealer.sealRecord writes record with
    | (sealer, .error error, bytes) => (sealer, .error error, bytes)
    | (sealer, .ok (), bytes) =>
      let (sealer, result, more) := sealAll writes sealer rest
      (sealer, result, bytes ++ more)

def send (writes : Nat → WriteOutcome) (sealer : Sealer) (message : Bytes) :
    Sealer × Except ChannelError Unit × Bytes :=
  if message.length > maxMessage then (sealer, .error .messageTooLarge, [])
  else sealAll writes sealer (fragments message)

/-- The sealer after messages were sent one after another, the results, and what is on the stream.
-/
def sendAll (writes : Nat → WriteOutcome) :
    Sealer → List Bytes → Sealer × List (Except ChannelError Unit) × Bytes
  | sealer, [] => (sealer, [], [])
  | sealer, message :: rest =>
    let (sealer, result, bytes) := send writes sealer message
    let (sealer, results, more) := sendAll writes sealer rest
    (sealer, result :: results, bytes ++ more)

/-! ## Receiving -/

structure Receiver where
  opener : Opener
  partialMessage : Bytes

def Receiver.new (key : RecordKey) (iv : Nonce) : Receiver := ⟨.new key iv, []⟩

/-- What a record adds to the fragments so far, and the result of `recv` if it ends there. -/
def acceptRecord (soFar : Bytes) : Bytes → Bytes × Option (Except ChannelError Bytes)
  | [] => (soFar, some (.error .badFragment))
  | flag :: payload =>
    if soFar.length + payload.length > maxMessage then ([], some (.error .messageTooLarge))
    else if flag = fragmentFinal then ([], some (.ok (soFar ++ payload)))
    else if flag = fragmentMore ∧ payload ≠ [] then (soFar ++ payload, none)
    else ([], some (.error .badFragment))

def recvRounds : Nat → Receiver → List ReadEvent →
    Receiver × Except ChannelError Bytes × List ReadEvent
  | 0, receiver, events => (receiver, .error .record, events)
  | rounds + 1, receiver, events =>
    match receiver.opener.openRecord events with
    | (opener, .error error, events) => ({ receiver with opener }, .error error, events)
    | (opener, .ok record, events) =>
      match acceptRecord receiver.partialMessage record with
      | (soFar, some result) => (⟨opener, soFar⟩, result, events)
      | (soFar, none) => recvRounds rounds ⟨opener, soFar⟩ events

/-- The bytes that a stream can still give. -/
def stock (events : List ReadEvent) : Nat :=
  (events.map fun event => match event with
    | .chunk bytes => bytes.length
    | _ => 0).sum

/-- A record takes bytes from the stream, so that what it can give bounds the rounds. -/
def recv (receiver : Receiver) (events : List ReadEvent) :
    Receiver × Except ChannelError Bytes × List ReadEvent :=
  recvRounds (stock events + 1) receiver events

/-- Some calls one after another, whatever they return. -/
def recvAll : Nat → Receiver → List ReadEvent →
    Receiver × List (Except ChannelError Bytes) × List ReadEvent
  | 0, receiver, events => (receiver, [], events)
  | calls + 1, receiver, events =>
    let once := recv receiver events
    let later := recvAll calls once.1 once.2.2
    (later.1, once.2.1 :: later.2.1, later.2.2)

def delivered (results : List (Except ChannelError Bytes)) : List Bytes :=
  results.filterMap Except.toOption

/-! ## Fragments -/

variable {rest soFar : Bytes} {events : List ReadEvent} {records done : List Bytes} {count : Nat}
  {opener : Opener}

omit [Aead] in
/-- The number of rounds does not matter if there are enough. -/
theorem fragmentRounds_enough {rounds others : Nat} (enough : rest.length ≤ rounds)
    (enoughOthers : rest.length ≤ others) :
    fragmentRounds rounds rest = fragmentRounds others rest := by
  induction rounds generalizing others rest with
  | zero =>
    have short : rest.length ≤ fragmentPayload := Nat.le_trans enough (Nat.zero_le _)
    cases others with
    | zero => rfl
    | succ others => rw [fragmentRounds, fragmentRounds, if_pos short]
  | succ rounds hypothesis =>
    by_cases short : rest.length ≤ fragmentPayload
    · cases others with
      | zero => rw [fragmentRounds, fragmentRounds, if_pos short]
      | succ others => rw [fragmentRounds, fragmentRounds, if_pos short, if_pos short]
    · have shorter : (rest.drop fragmentPayload).length + 1 ≤ rest.length := by
        rw [List.length_drop]
        unfold fragmentPayload maxRecordPlaintext at short ⊢
        omega
      cases others with
      | zero => omega
      | succ others =>
        rw [fragmentRounds, fragmentRounds, if_neg short, if_neg short,
          @hypothesis _ others (by omega) (by omega)]

omit [Aead] in
theorem fragments_short (short : rest.length ≤ fragmentPayload) :
    fragments rest = [fragmentFinal :: rest] := by
  unfold fragments
  cases rest.length with
  | zero => rfl
  | succ rounds => rw [fragmentRounds, if_pos short]

omit [Aead] in
theorem fragments_long (long : ¬ rest.length ≤ fragmentPayload) : fragments rest =
      (fragmentMore :: rest.take fragmentPayload) :: fragments (rest.drop fragmentPayload) := by
  have enough : rest.length ≤ rest.length + 1 := Nat.le_succ _
  have shorter : (rest.drop fragmentPayload).length ≤ rest.length := by
    rw [List.length_drop]
    exact Nat.sub_le _ _
  rw [fragments, fragmentRounds_enough (Nat.le_refl _) enough, fragmentRounds, if_neg long,
    fragmentRounds_enough shorter (Nat.le_refl _)]
  rfl

omit [Aead] in
/-- The fragments of a message, by recursion over what is left of it. -/
theorem fragments_induction {motive : Bytes → Prop}
    (short : ∀ rest, rest.length ≤ fragmentPayload → motive rest)
    (long : ∀ rest, ¬ rest.length ≤ fragmentPayload → motive (rest.drop fragmentPayload) →
      motive rest) (message : Bytes) : motive message := by
  induction count : message.length using Nat.strongRecOn generalizing message with
  | _ count hypothesis =>
    by_cases fits : message.length ≤ fragmentPayload
    · exact short message fits
    · refine long message fits (hypothesis _ ?_ _ rfl)
      rw [List.length_drop, ← count]
      unfold fragmentPayload maxRecordPlaintext at fits ⊢
      omega

omit [Aead] in
theorem fragments_fit (message : Bytes) :
    ∀ record ∈ fragments message, record.length ≤ maxRecordPlaintext := by
  induction message using fragments_induction with
  | short rest fits =>
    intro record listed
    rw [fragments_short fits, List.mem_singleton] at listed
    rw [listed, List.length_cons]
    unfold fragmentPayload maxRecordPlaintext at *
    omega
  | long rest fits hypothesis =>
    intro record listed
    rw [fragments_long fits] at listed
    rcases List.mem_cons.mp listed with rfl | later
    · rw [List.length_cons, List.length_take]
      unfold fragmentPayload maxRecordPlaintext
      omega
    · exact hypothesis record later

/-! ## What is sealed of messages -/

/-- Sealing records: those that are sealed are the first of them, and all of them unless the sealer
is stuck. If all is well, their frames are on the stream. -/
structure Sealing (before after : Sealer) (records : List Bytes) (sealed : List SealedRecord) :
    Prop where
  counted : after.Counted
  key : after.key = before.key
  iv : after.iv = before.iv
  grows : after.sealed = before.sealed ++ sealed
  first : sealed.map SealedRecord.plaintext <+: records
  all : ¬ after.Stuck → sealed.map SealedRecord.plaintext = records
  still : before.Stuck → after = before

theorem sealAll_spec (writes : Nat → WriteOutcome) {sealer : Sealer} (counted : sealer.Counted)
    (fit : ∀ record ∈ records, record.length ≤ maxRecordPlaintext) :
    ∃ after result bytes sealed, sealAll writes sealer records = (after, result, bytes) ∧
      Sealing sealer after records sealed ∧
      (result = .ok () → sealed.map SealedRecord.plaintext = records ∧
        bytes = sealed.flatMap SealedRecord.frame) := by
  induction records generalizing sealer with
  | nil =>
    exact ⟨sealer, .ok (), [], [], rfl,
      ⟨counted, rfl, rfl, by simp, by simp, fun _ => rfl, fun _ => rfl⟩, fun _ => ⟨rfl, rfl⟩⟩
  | cons record rest hypothesis =>
    rcases Sealer.seal_spec writes counted (fit record List.mem_cons_self) with
      ⟨stuck, error, refused⟩ | ⟨free, middle, result, bytes, sealed, done, grown, plaintext, outcome⟩
    · refine ⟨sealer, .error error, [], [], by rw [sealAll, refused],
        ⟨counted, rfl, rfl, by simp, by simp, fun free => absurd stuck free, fun _ => rfl⟩,
        fun ok => by cases ok⟩
    · rcases outcome with ⟨rfl, bytesEq⟩ | ⟨⟨error, rfl⟩, stuck⟩
      · obtain ⟨after, result, more, sealedRest, ran, sealing, complete⟩ :=
          hypothesis (counted.grown grown) (List.forall_mem_cons.mp fit).2
        refine ⟨after, result, bytes ++ more, sealed :: sealedRest, by
          rw [sealAll, done]; simp only [ran], ⟨sealing.counted, sealing.key.trans grown.key,
            sealing.iv.trans grown.iv, ?_, ?_, fun free => ?_, fun stuck => absurd stuck free⟩,
          fun ok => ?_⟩
        · rw [sealing.grows, grown.sealed, List.append_assoc, List.singleton_append]
        · rw [List.map_cons, plaintext]
          exact List.cons_prefix_cons.mpr ⟨rfl, sealing.first⟩
        · rw [List.map_cons, plaintext, sealing.all free]
        · obtain ⟨all, moreEq⟩ := complete ok
          rw [List.map_cons, plaintext, all, List.flatMap_cons, bytesEq, moreEq]
          exact ⟨rfl, rfl⟩
      · refine ⟨middle, .error error, bytes, [sealed], by rw [sealAll, done],
          ⟨counted.grown grown, grown.key, grown.iv, grown.sealed, ?_, fun free => absurd stuck free,
            fun stuck => absurd stuck free⟩, fun ok => by cases ok⟩
        rw [List.map_singleton, plaintext]
        exact List.cons_prefix_cons.mpr ⟨rfl, List.nil_prefix⟩

theorem Sealing.nothing {before after : Sealer} {sealed : List SealedRecord}
    (sealing : Sealing before after records sealed) (stuck : before.Stuck) : sealed = [] := by
  have same := sealing.grows
  rw [sealing.still stuck] at same
  exact List.append_cancel_left (same.symm.trans (List.append_nil _).symm)

theorem Sealing.append {first second third : Sealer} {others : List Bytes}
    {sealed more : List SealedRecord} (early : Sealing first second records sealed)
    (late : Sealing second third others more) :
    Sealing first third (records ++ others) (sealed ++ more) where
  counted := late.counted
  key := late.key.trans early.key
  iv := late.iv.trans early.iv
  grows := by rw [late.grows, early.grows, List.append_assoc]
  first := by
    rw [List.map_append]
    by_cases stuck : second.Stuck
    · rw [late.nothing stuck, List.map_nil, List.append_nil]
      exact early.first.trans (List.prefix_append _ _)
    · rw [early.all stuck]
      exact (List.prefix_append_right_inj _).mpr late.first
  all free := by
    have before : ¬ second.Stuck := fun stuck => free (late.still stuck ▸ stuck)
    rw [List.map_append, early.all before, late.all free]
  still stuck := by
    have same := early.still stuck
    rw [late.still (same ▸ stuck), same]

theorem send_spec (writes : Nat → WriteOutcome) {sealer : Sealer} (counted : sealer.Counted)
    {message : Bytes} (fits : message.length ≤ maxMessage) :
    ∃ after result bytes sealed, send writes sealer message = (after, result, bytes) ∧
      Sealing sealer after (fragments message) sealed ∧
      (result = .ok () → sealed.map SealedRecord.plaintext = fragments message ∧
        bytes = sealed.flatMap SealedRecord.frame) := by
  rw [send, if_neg (Nat.not_lt.mpr fits)]
  exact sealAll_spec writes counted (fragments_fit message)

theorem sendAll_spec (writes : Nat → WriteOutcome) {sealer : Sealer} (counted : sealer.Counted)
    {messages : List Bytes} (fit : ∀ message ∈ messages, message.length ≤ maxMessage) :
    ∃ after results bytes sealed, sendAll writes sealer messages = (after, results, bytes) ∧
      Sealing sealer after (messages.flatMap fragments) sealed ∧
      ((∀ result ∈ results, result = .ok ()) →
        sealed.map SealedRecord.plaintext = messages.flatMap fragments ∧
          bytes = sealed.flatMap SealedRecord.frame) := by
  induction messages generalizing sealer with
  | nil =>
    exact ⟨sealer, [], [], [], rfl, ⟨counted, rfl, rfl, by simp, by simp, fun _ => rfl, fun _ => rfl⟩,
      fun _ => ⟨rfl, rfl⟩⟩
  | cons message rest hypothesis =>
    obtain ⟨middle, result, bytes, sealed, sent, early, complete⟩ :=
      send_spec writes counted (fit message List.mem_cons_self)
    obtain ⟨after, results, more, others, ran, late, completeRest⟩ :=
      hypothesis early.counted (List.forall_mem_cons.mp fit).2
    refine ⟨after, result :: results, bytes ++ more, sealed ++ others, ?_, early.append late, ?_⟩
    · simp only [sendAll, sent, ran]
    · intro ok
      obtain ⟨all, bytesEq⟩ := complete (ok result List.mem_cons_self)
      obtain ⟨allRest, moreEq⟩ :=
        completeRest (List.forall_mem_cons.mp ok).2
      rw [List.map_append, List.flatMap_append, all, allRest, bytesEq, moreEq]
      exact ⟨rfl, rfl⟩

/-! ## What is received -/

/-- After some records of messages: the messages that were delivered, and what was joined so far of
the next one. -/
def Position (messages : List Bytes) (count : Nat) (done : List Bytes) (soFar : Bytes) : Prop :=
  (messages = done ∧ soFar = [] ∧ (messages.flatMap fragments).drop count = []) ∨
    ∃ tail rest, messages = done ++ (soFar ++ tail) :: rest ∧
      (messages.flatMap fragments).drop count = fragments tail ++ rest.flatMap fragments

omit [Aead] in
/-- The position at the beginning of a message. -/
theorem position_between {messages : List Bytes} (rest : List Bytes)
    (whole : messages = done ++ rest)
    (left : (messages.flatMap fragments).drop count = rest.flatMap fragments) :
    Position messages count done [] := by
  cases rest with
  | nil => exact .inl ⟨by rw [whole, List.append_nil], rfl, left⟩
  | cons message rest => exact .inr ⟨message, rest, whole, left⟩

omit [Aead] in
theorem position_start (messages : List Bytes) : Position messages 0 [] [] :=
  position_between messages rfl rfl

omit [Aead] in
theorem Position.first {messages : List Bytes}
    (position : Position messages count done soFar) : done <+: messages := by
  rcases position with ⟨rfl, -⟩ | ⟨tail, rest, rfl, -⟩
  · exact List.prefix_rfl
  · exact List.prefix_append _ _

omit [Aead] in
/-- The next record of the messages ends one of them, or goes on with it. -/
theorem Position.accept {messages : List Bytes} {record : Bytes}
    (position : Position messages count done soFar)
    (fit : ∀ message ∈ messages, message.length ≤ maxMessage)
    (next : (messages.flatMap fragments)[count]? = some record) :
    (∃ message, acceptRecord soFar record = ([], some (.ok message)) ∧
        Position messages (count + 1) (done ++ [message]) []) ∨
      ∃ longer, acceptRecord soFar record = (longer, none) ∧
        Position messages (count + 1) done longer := by
  obtain ⟨inside, rfl⟩ := List.getElem?_eq_some_iff.mp next
  have cut := List.drop_eq_getElem_cons inside
  rcases position with ⟨-, -, left⟩ | ⟨tail, rest, whole, left⟩
  · rw [left] at cut
    cases cut
  have small := fit (soFar ++ tail) (by simp [whole])
  rw [List.length_append] at small
  by_cases short : tail.length ≤ fragmentPayload
  · rw [left, fragments_short short, List.singleton_append] at cut
    obtain ⟨recordEq, restEq⟩ := List.cons.inj cut
    refine .inl ⟨soFar ++ tail, ?_, position_between rest (by simp [whole]) restEq.symm⟩
    rw [← recordEq, acceptRecord, if_neg (Nat.not_lt.mpr small), if_pos rfl]
  · rw [left, fragments_long short, List.cons_append] at cut
    obtain ⟨recordEq, restEq⟩ := List.cons.inj cut
    refine .inr ⟨soFar ++ tail.take fragmentPayload, ?_, .inr ⟨tail.drop fragmentPayload, rest, ?_,
      restEq.symm⟩⟩
    · have filled : tail.take fragmentPayload ≠ [] := by
        intro empty
        have zero := congrArg List.length empty
        rw [List.length_take, List.length_nil] at zero
        unfold fragmentPayload maxRecordPlaintext at short zero
        omega
      have fits : soFar.length + (tail.take fragmentPayload).length ≤ maxMessage := by
        rw [List.length_take]
        omega
      rw [← recordEq, acceptRecord, if_neg (Nat.not_lt.mpr fits), if_neg (by decide),
        if_pos ⟨rfl, filled⟩]
    · rw [whole, List.append_assoc, List.take_append_drop]

/-- The receiver is at a position among the records that were sealed. -/
structure Tracks (sealer : Sealer) (messages : List Bytes) (receiver : Receiver)
    (done : List Bytes) : Prop where
  key : receiver.opener.key = sealer.key
  few : receiver.opener.sequence ≤ sealer.sealed.length
  position : Position messages receiver.opener.sequence done receiver.partialMessage

theorem recvRounds_tried (rounds : Nat) (receiver : Receiver) (events : List ReadEvent) :
    receiver.opener.tried <+: (recvRounds rounds receiver events).1.opener.tried := by
  induction rounds generalizing receiver events with
  | zero => exact List.prefix_rfl
  | succ rounds hypothesis =>
    have opened := (receiver.opener.open_spec events).tried
    rcases read : receiver.opener.openRecord events with ⟨opener, result, left⟩
    rw [read] at opened
    cases result with
    | error error =>
      simp only [recvRounds, read]
      exact opened
    | ok record =>
      simp only [recvRounds, read]
      split
      · exact opened
      · next longer accepted => exact opened.trans (hypothesis ⟨opener, longer⟩ left)

theorem recvAll_tried (calls : Nat) (receiver : Receiver) (events : List ReadEvent) :
    receiver.opener.tried <+: (recvAll calls receiver events).1.opener.tried := by
  induction calls generalizing receiver events with
  | zero => exact List.prefix_rfl
  | succ calls hypothesis =>
    exact (recvRounds_tried _ receiver events).trans
      (hypothesis (recv receiver events).1 (recv receiver events).2.2)

section Prefix

variable {sealer : Sealer} {messages : List Bytes} (counted : sealer.Counted)
  (fit : ∀ message ∈ messages, message.length ≤ maxMessage)
  (first : sealer.sealed.map SealedRecord.plaintext <+: messages.flatMap fragments)

include counted fit first

variable {receiver : Receiver} {done : List Bytes}

omit fit in
/-- A record that opens is the next one of the messages. -/
theorem Tracks.opened
    (tracks : Tracks sealer messages receiver done) {opener : Opener} {record : Bytes}
    (opened : Opened receiver.opener opener (.ok record))
    (unforged : Unforged sealer.key opener.tried sealer.sealed) :
    opener.sequence = receiver.opener.sequence + 1 ∧ opener.sequence ≤ sealer.sealed.length ∧
      (messages.flatMap fragments)[receiver.opener.sequence]? = some record := by
  obtain ⟨next, attempt, listed, aad, answer⟩ := opened.opened record rfl
  rw [tracks.key] at answer
  have found := counted.opened tracks.few aad answer (unforged attempt listed record answer)
  obtain ⟨inside, -⟩ := List.getElem?_eq_some_iff.mp found
  rw [List.length_map] at inside
  obtain ⟨more, whole⟩ := first
  refine ⟨next, next ▸ inside, ?_⟩
  rw [← whole, List.getElem?_append_left (by rwa [List.length_map]), found]

theorem Tracks.recvRounds
    (tracks : Tracks sealer messages receiver done) {rounds : Nat} {events : List ReadEvent}
    (unforged : Unforged sealer.key (Net.recvRounds rounds receiver events).1.opener.tried
      sealer.sealed) :
    Tracks sealer messages (Net.recvRounds rounds receiver events).1
      (done ++ (Net.recvRounds rounds receiver events).2.1.toOption.toList) := by
  induction rounds generalizing receiver events with
  | zero => exact (List.append_nil done).symm ▸ tracks
  | succ rounds hypothesis =>
    have opened := receiver.opener.open_spec events
    rcases read : receiver.opener.openRecord events with ⟨opener, result, left⟩
    rw [read] at opened
    simp only [Net.recvRounds, read] at unforged ⊢
    cases result with
    | error error =>
      have same := opened.failed error rfl
      exact (List.append_nil done).symm ▸
        ⟨opened.key.trans tracks.key, same ▸ tracks.few, same ▸ tracks.position⟩
    | ok record =>
      have key := opened.key.trans tracks.key
      simp only at unforged opened ⊢
      have tried : Unforged sealer.key opener.tried sealer.sealed := by
        refine fun attempt listed => unforged attempt ?_
        split
        · exact listed
        · next longer accepted => exact (recvRounds_tried _ ⟨opener, longer⟩ left).subset listed
      obtain ⟨next, few, found⟩ := tracks.opened counted first opened tried
      rcases tracks.position.accept fit found with ⟨message, accepted, position⟩ |
          ⟨longer, accepted, position⟩
      · rw [accepted]
        exact ⟨key, few, next ▸ position⟩
      · rw [accepted] at unforged ⊢
        exact hypothesis ⟨key, few, next ▸ position⟩ unforged

theorem Tracks.recvAll
    (tracks : Tracks sealer messages receiver done) {calls : Nat} {events : List ReadEvent}
    (unforged : Unforged sealer.key (Net.recvAll calls receiver events).1.opener.tried
      sealer.sealed) :
    Tracks sealer messages (Net.recvAll calls receiver events).1
      (done ++ delivered (Net.recvAll calls receiver events).2.1) := by
  induction calls generalizing receiver events done with
  | zero => exact (List.append_nil done).symm ▸ tracks
  | succ calls hypothesis =>
    have once : Unforged sealer.key (recv receiver events).1.opener.tried sealer.sealed :=
      fun attempt listed => unforged attempt
        ((recvAll_tried calls (recv receiver events).1 (recv receiver events).2.2).subset listed)
    have after := hypothesis (tracks.recvRounds counted fit first once) unforged
    rw [List.append_assoc] at after
    have joined : ∀ (result : Except ChannelError Bytes) results,
        result.toOption.toList ++ delivered results = delivered (result :: results) := by
      intro result results
      cases result <;> rfl
    rwa [joined] at after

end Prefix

/-! ## A stream that is not modified -/

/-- The opener is in step with what the sealer sealed. -/
structure InStep (sealer : Sealer) (opener : Opener) (left : List SealedRecord) : Prop where
  key : opener.key = sealer.key
  iv : opener.iv = sealer.iv
  left : sealer.sealed.drop opener.sequence = left

theorem InStep.openRecord {sealer : Sealer} (counted : sealer.Counted)
    {record : SealedRecord} {later : List SealedRecord}
    (inStep : InStep sealer opener (record :: later))
    (delivers : Delivers events (record.frame ++ rest)) :
    ∃ after left, opener.openRecord events = (after, .ok record.plaintext, left) ∧
      InStep sealer after later ∧ Delivers left rest := by
  have inside : opener.sequence < sealer.sealed.length := by
    refine Nat.lt_of_not_le fun behind => ?_
    have cut := inStep.left
    rw [List.drop_eq_nil_of_le behind] at cut
    cases cut
  have cut := List.drop_eq_getElem_cons inside
  rw [inStep.left] at cut
  obtain ⟨recordEq, laterEq⟩ := List.cons.inj cut
  have listed : record ∈ sealer.sealed := recordEq ▸ List.getElem_mem inside
  obtain ⟨left, read, delivers⟩ := readRecord_delivers (counted.length record listed) delivers
  have same : opener.attempt record.ciphertext record.tag = record.toAttempt := by
    have nonce := counted.nonce _ inside
    have aad := counted.aad _ inside
    rw [← recordEq] at nonce aad
    rw [Opener.attempt, inStep.iv, ← nonce, ← aad]
  have answer : record.answer opener.key = some record.plaintext :=
    inStep.key ▸ counted.opens record listed
  refine ⟨⟨opener.key, opener.iv, opener.sequence + 1, opener.tried ++ [record.toAttempt]⟩, left, ?_,
    ⟨inStep.key, inStep.iv, laterEq.symm⟩, delivers⟩
  rw [Opener.openRecord, read]
  simp only [same, answer]

theorem recvRounds_delivers {sealer : Sealer} (counted : sealer.Counted) {tail : Bytes}
    (fits : soFar.length + tail.length ≤ maxMessage)
    {now later : List SealedRecord} (plaintexts : now.map SealedRecord.plaintext = fragments tail)
    (inStep : InStep sealer opener (now ++ later))
    (delivers : Delivers events (now.flatMap SealedRecord.frame ++ rest)) {rounds : Nat}
    (enough : now.length ≤ rounds) :
    ∃ after left, recvRounds rounds ⟨opener, soFar⟩ events = (⟨after, []⟩, .ok (soFar ++ tail), left) ∧
      InStep sealer after later ∧ Delivers left rest := by
  induction tail using fragments_induction generalizing soFar opener now events rounds with
  | short tail short =>
    rw [fragments_short short] at plaintexts
    obtain ⟨record, rfl, plaintext⟩ := List.map_eq_singleton_iff.mp plaintexts
    rw [List.flatMap_singleton] at delivers
    obtain ⟨after, left, opened, inStep, delivers⟩ := inStep.openRecord counted delivers
    refine ⟨after, left, ?_, inStep, delivers⟩
    obtain ⟨rounds, rfl⟩ := Nat.exists_eq_add_of_le' enough
    rw [List.length_singleton, recvRounds, opened, plaintext]
    simp only [acceptRecord, if_neg (Nat.not_lt.mpr fits), if_true]
  | long tail long hypothesis =>
    rw [fragments_long long] at plaintexts
    obtain ⟨record, more, rfl, plaintext, plaintexts⟩ := List.map_eq_cons_iff.mp plaintexts
    rw [List.flatMap_cons, List.append_assoc] at delivers
    obtain ⟨middle, left, opened, inStep, delivers⟩ := inStep.openRecord counted delivers
    rw [List.length_cons] at enough
    obtain ⟨rounds, rfl⟩ := Nat.exists_eq_add_of_le' (Nat.le_trans (Nat.le_add_left 1 _) enough)
    have lengths : (tail.take fragmentPayload).length + (tail.drop fragmentPayload).length =
        tail.length := by
      rw [← List.length_append, List.take_append_drop]
    have filled : tail.take fragmentPayload ≠ [] := by
      intro empty
      have zero := congrArg List.length empty
      rw [List.length_take, List.length_nil] at zero
      unfold fragmentPayload maxRecordPlaintext at long zero
      omega
    have room : (soFar ++ tail.take fragmentPayload).length + (tail.drop fragmentPayload).length ≤
        maxMessage := by
      rw [List.length_append]
      omega
    obtain ⟨after, left, received, inStep, delivers⟩ :=
      hypothesis room plaintexts inStep delivers (Nat.le_of_succ_le_succ enough)
    refine ⟨after, left, ?_, inStep, delivers⟩
    rw [List.append_assoc, List.take_append_drop] at received
    rw [recvRounds, opened, plaintext]
    simp only [acceptRecord, if_neg (show ¬ soFar.length + (tail.take fragmentPayload).length >
      maxMessage by omega)]
    rw [if_neg (by decide), if_pos ⟨trivial, filled⟩]
    exact received

omit [Aead] in
theorem stock_delivers {bytes : Bytes} (delivers : Delivers events bytes) :
    stock events = bytes.length := by
  induction events generalizing bytes with
  | nil => rw [delivers]; rfl
  | cons event rest hypothesis =>
    cases event with
    | chunk piece =>
      obtain ⟨-, more, rfl, delivers⟩ := delivers
      rw [List.length_append, ← hypothesis delivers]
      rfl
    | interrupted =>
      rw [← hypothesis delivers]
      exact Nat.zero_add _
    | failed error => exact delivers.elim

omit [Aead] in
theorem length_le_frames (sealed : List SealedRecord) :
    sealed.length ≤ (sealed.flatMap SealedRecord.frame).length := by
  induction sealed with
  | nil => exact Nat.zero_le _
  | cons record rest hypothesis =>
    have frame : record.frame.length = lengthPrefix + (record.ciphertext.length + 16) := by
      simp [SealedRecord.frame, frameBytes, Word.leDigits]
    rw [List.length_cons, List.flatMap_cons, List.length_append, frame]
    omega

theorem recvAll_delivers {sealer : Sealer} (counted : sealer.Counted) {messages : List Bytes}
    (fit : ∀ message ∈ messages, message.length ≤ maxMessage)
    {left : List SealedRecord}
    (plaintexts : left.map SealedRecord.plaintext = messages.flatMap fragments)
    (inStep : InStep sealer opener left)
    (delivers : Delivers events (left.flatMap SealedRecord.frame)) :
    (recvAll messages.length ⟨opener, []⟩ events).2.1 = messages.map .ok := by
  induction messages generalizing opener left events with
  | nil => rfl
  | cons message rest hypothesis =>
    rw [List.flatMap_cons] at plaintexts
    obtain ⟨now, later, rfl, plaintextsNow, plaintextsLater⟩ := List.map_eq_append_iff.mp plaintexts
    have enough : now.length ≤ stock events + 1 := by
      rw [stock_delivers delivers, List.flatMap_append, List.length_append]
      have filled := length_le_frames now
      omega
    rw [List.flatMap_append] at delivers
    have room : ([] : Bytes).length + message.length ≤ maxMessage := by
      rw [List.length_nil, Nat.zero_add]
      exact fit message List.mem_cons_self
    obtain ⟨after, behind, received, inStep, delivers⟩ := recvRounds_delivers counted
      room plaintextsNow inStep delivers
      enough
    have onward := hypothesis (List.forall_mem_cons.mp fit).2
      plaintextsLater inStep delivers
    rw [List.length_cons, recvAll, recv, received, List.map_cons, onward]
    rfl

/-! ## The channel -/

/-- Whatever is done to the stream, the messages that are received, also after errors, are the first
of those that were sent; if nothing is done to it, they are all of them; and no nonce is used twice.
The receiver keeps its place among the fragments: what opens at a number is the record sealed there.
-/
theorem channel_delivers_first (key : RecordKey) (iv : Nonce) (writes : Nat → WriteOutcome)
    (messages : List Bytes) (fit : ∀ message ∈ messages, message.length ≤ maxMessage) :
    let sent := sendAll writes (Sealer.new key iv) messages
    (∀ (events : List ReadEvent) (calls : Nat),
      let received := recvAll calls (Receiver.new key iv) events
      Unforged key received.1.opener.tried sent.1.sealed → delivered received.2.1 <+: messages) ∧
    ((∀ result ∈ sent.2.1, result = .ok ()) → ∀ events, Delivers events sent.2.2 →
      (recvAll messages.length (Receiver.new key iv) events).2.1 = messages.map .ok) ∧
    (sent.1.sealed.map fun sealed => sealed.nonce).Nodup := by
  intro sent
  obtain ⟨sealer, results, bytes, sealed, ran, sealing, complete⟩ :=
    sendAll_spec writes (Sealer.counted_new key iv) fit
  have sentEq : sent = (sealer, results, bytes) := ran
  have sealedEq : sealer.sealed = sealed := sealing.grows
  rw [sentEq]
  refine ⟨fun events calls unforged => ?_, fun ok events delivers => ?_, sealing.counted.nodup⟩
  · have tracks : Tracks sealer messages (Receiver.new key iv) [] :=
      ⟨sealing.key.symm, Nat.zero_le _, position_start messages⟩
    have first : sealer.sealed.map SealedRecord.plaintext <+: messages.flatMap fragments :=
      sealedEq ▸ sealing.first
    have unforged : Unforged sealer.key
        (recvAll calls (Receiver.new key iv) events).1.opener.tried sealer.sealed := by
      rw [sealing.key]
      exact unforged
    exact (tracks.recvAll sealing.counted fit first unforged).position.first
  · obtain ⟨plaintexts, bytesEq⟩ := complete ok
    refine recvAll_delivers sealing.counted fit plaintexts ⟨sealing.key.symm, sealing.iv.symm, ?_⟩
      (bytesEq ▸ delivers)
    exact sealedEq

/-! ## What a receiver can be made to hold -/

omit [Aead] in
theorem acceptRecord_bounded (few : soFar.length ≤ maxMessage) (record : Bytes) :
    (acceptRecord soFar record).1.length ≤ maxMessage := by
  cases record with
  | nil => exact few
  | cons flag payload => grind [acceptRecord]

theorem recvRounds_bounded (rounds : Nat) {receiver : Receiver}
    (few : receiver.partialMessage.length ≤ maxMessage) :
    (recvRounds rounds receiver events).1.partialMessage.length ≤ maxMessage := by
  induction rounds generalizing receiver events with
  | zero => exact few
  | succ rounds hypothesis =>
    rcases read : receiver.opener.openRecord events with ⟨opener, error | record, left⟩
    · simpa only [recvRounds, read]
    have after := acceptRecord_bounded few record
    simp only [recvRounds, read]
    split
    next accepted => rwa [accepted] at after
    next accepted =>
      rw [accepted] at after
      exact hypothesis after

/-- Over any number of calls, and whatever the stream gives, a receiver never joins more bytes than
a message may have. One call keeps the bound, and the rest is induction on the calls. -/
theorem receiver_bounded (calls : Nat) (key : RecordKey) (iv : Nonce) (events : List ReadEvent) :
    (recvAll calls (.new key iv) events).1.partialMessage.length ≤ maxMessage := by
  have few : (Receiver.new key iv).partialMessage.length ≤ maxMessage := Nat.zero_le _
  generalize Receiver.new key iv = receiver at few
  induction calls generalizing receiver events with
  | zero => exact few
  | succ calls hypothesis => exact hypothesis _ _ (recvRounds_bounded _ few)

end Channel

/-- A cipher that hides nothing. -/
@[reducible] def echoAead : Aead where
  sealRecord _ _ _ plaintext := some (plaintext, Vector.replicate 16 0)
  openRecord _ _ _ ciphertext _ := some ciphertext
  seals _ _ _ plaintext _ := ⟨plaintext, _, rfl, rfl⟩
  opens sealed := by
    obtain ⟨rfl, rfl⟩ := Prod.mk.inj (Option.some.inj sealed)
    rfl

/-- Two messages, the second of which is not flushed. -/
def twoSent : Sealer × List (Except ChannelError Unit) × Bytes :=
  @sendAll echoAead (fun sequence => if sequence = 1 then .unflushed .timedOut else .written)
    (.new (.replicate 32 0) (.replicate 12 0)) [[1], [2]]

/-- They are read in two pieces, after a timeout. -/
def threeReads : Receiver × List (Except ChannelError Bytes) × List ReadEvent :=
  @recvAll echoAead 3 (.new (.replicate 32 0) (.replicate 12 0))
    [.failed .timedOut, .chunk (twoSent.2.2.take 30), .interrupted, .chunk (twoSent.2.2.drop 30)]

theorem channel_delivers_first_two : threeReads.2.1 = [.error (.io .timedOut), .ok [1], .ok [2]] ∧
    delivered threeReads.2.1 <+: [[1], [2]] := by
  have sealed : ∀ attempt ∈ threeReads.1.opener.tried, ∃ record ∈ twoSent.1.sealed,
      record.toAttempt = attempt := by decide +kernel
  refine ⟨by decide +kernel, ?_⟩
  exact (@channel_delivers_first echoAead _ _ _ [[1], [2]] (by decide)).1 _ _
    fun attempt listed _ _ => sealed attempt listed

end QuantovaChain.Net
