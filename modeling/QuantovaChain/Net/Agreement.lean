import QuantovaChain.Net.Handshake

/-!
# Agreement

Any number of parties run the handshake against streams that answer anything, so that whoever
controls the network can deliver, drop, change and replay what they send, and mix the messages of
different runs. What is assumed is that a signature under the key of an honest party verifies only
for what a run of that party signed, that no two transcripts have the same hash, and that no two
responders draw the same challenge. Then two parties that complete the handshake agree on what they
exchanged.
-/

namespace QuantovaChain.Net

open State (Bytes Hash)
open Exchange

section Suite

variable [HandshakeSuite]

/-! ## Reasoning about a party -/

section Logic

variable {α β : Type}

/-- What a party returns, and its session then. -/
def Exchange.result (program : Exchange α) (session : Session) :
    Except ChannelError α × Session :=
  StateT.run (ExceptT.run program) session

/-- What a program does to the notes, whatever its stream answers: if it returns, `post` holds of
the value and the notes, and if it fails, `broken` holds of the notes. -/
def Ensures (program : Exchange α) (notes : Notes) (post : α → Notes → Prop)
    (broken : Notes → Prop) : Prop :=
  ∀ session : Session, session.notes = notes →
    match program.result session with
    | (.ok value, session) => post value session.notes
    | (.error _, session) => broken session.notes

variable {notes : Notes} {post : α → Notes → Prop} {broken : Notes → Prop}

theorem result_bind (program : Exchange β) (next : β → Exchange α) (session : Session) :
    (program >>= next).result session =
      match program.result session with
      | (.ok value, session) => (next value).result session
      | (.error error, session) => (.error error, session) := by
  unfold Exchange.result
  rw [ExceptT.run_bind, StateT.run_bind]
  rcases StateT.run (ExceptT.run program) session with ⟨result, later⟩
  cases result with
  | error error => rfl
  | ok value => rfl

theorem ensures_bind {program : Exchange β} {next : β → Exchange α}
    (first : Ensures program notes (fun value notes => Ensures (next value) notes post broken)
      broken) : Ensures (program >>= next) notes post broken := by
  intro session same
  have ran := first session same
  rw [result_bind]
  generalize program.result session = ended at ran ⊢
  obtain ⟨result, later⟩ := ended
  cases result with
  | error error => exact ran
  | ok value => exact ran later rfl

theorem ensures_pure {value : α} (holds : post value notes) :
    Ensures (pure value) notes post broken := by
  rintro session rfl
  exact holds

theorem ensures_throw {error : ChannelError} (fails : broken notes) :
    Ensures (throw error : Exchange α) notes post broken := by
  rintro session rfl
  exact fails

theorem ensures_readArray {count : Nat} {next : Vector UInt8 count → Exchange α}
    (holds : ∀ value, Ensures (next value) notes post broken) (fails : broken notes) :
    Ensures (readArray count >>= next) notes post broken := by
  apply ensures_bind
  rintro session rfl
  unfold readArray perform Exchange.result
  simp only [ExceptT.run_mk, StateT.run]
  rcases readExact count session.incoming with ⟨result, incoming⟩
  cases result with
  | error error => exact fails
  | ok bytes => exact holds _

theorem ensures_fillRandom {next : Random → Exchange α}
    (holds : ∀ value, Ensures (next value) notes post broken) (fails : broken notes) :
    Ensures (fillRandom >>= next) notes post broken := by
  apply ensures_bind
  rintro session rfl
  unfold fillRandom perform Exchange.result
  simp only [ExceptT.run_mk, StateT.run]
  rcases session.randoms with _ | ⟨_ | random, randoms⟩
  · exact fails
  · exact fails
  · exact holds random

theorem ensures_writeAll {bytes : Bytes} {next : Unit → Exchange α}
    (holds : Ensures (next ()) notes post broken) (fails : broken notes) :
    Ensures (writeAll bytes >>= next) notes post broken := by
  apply ensures_bind
  rintro session rfl
  unfold writeAll perform Exchange.result
  simp only [ExceptT.run_mk, StateT.run]
  rcases session.writes with _ | ⟨_ | done, writes⟩
  · exact fails
  · exact fails
  · exact holds

theorem ensures_note {change : Notes → Notes} {next : Unit → Exchange α}
    (holds : Ensures (next ()) (change notes) post broken) :
    Ensures (note change >>= next) notes post broken := by
  apply ensures_bind
  rintro session rfl
  exact holds

theorem ensures_hash {transcript : Transcript} {next : Hash → Exchange α}
    (holds : Ensures (next (Platform.sha3 transcript.buffer))
      { notes with hashed := notes.hashed ++ [transcript.buffer] } post broken) :
    Ensures (hash transcript >>= next) notes post broken :=
  ensures_bind (ensures_note (ensures_pure holds))

theorem ensures_sign {identity : Identity} {message : Hash} {context : Bytes}
    {next : Signature → Exchange α}
    (holds : ∀ value, Ensures (next value)
      { notes with signed := notes.signed ++ [⟨message, context⟩] } post broken)
    (fails : broken notes) : Ensures (sign identity message context >>= next) notes post broken := by
  refine ensures_bind (ensures_fillRandom (fun randomizer => ?_) fails)
  cases HandshakeSuite.mlDsaSign identity.secret message.toList context randomizer with
  | none => exact ensures_throw fails
  | some signature => exact ensures_note (ensures_pure (holds signature))

theorem ensures_reject {wrong : Bool} {error : ChannelError} {next : Unit → Exchange α}
    (holds : wrong = false → Ensures (next ()) notes post broken) (fails : broken notes) :
    Ensures (reject wrong error >>= next) notes post broken := by
  apply ensures_bind
  cases wrong with
  | true => exact ensures_throw fails
  | false => exact ensures_pure (holds rfl)

/-- A signature is accepted and noted, or the program fails. -/
theorem ensures_verify {key : PublicKey} {message : Hash} {signature : Signature} {context : Bytes}
    {error : ChannelError} {next : Unit → Exchange α}
    (accepts : Ensures (next ())
      { notes with accepted := notes.accepted ++ [⟨⟨message, context⟩, key, signature⟩] } post broken)
    (fails : broken notes) :
    Ensures (verify key message signature context >>= fun ok => reject (!ok) error >>= next)
      notes post broken := by
  apply ensures_bind
  unfold verify
  split
  · exact ensures_note (ensures_pure (ensures_bind (ensures_pure accepts)))
  · exact ensures_pure (ensures_reject nofun fails)

/-- A program that keeps its promise does so on every session. -/
theorem Ensures.returned {program : Exchange α} (ensures : Ensures program notes post broken)
    {session : Session} (same : session.notes = notes) {value : α}
    (returned : (program.result session).1 = .ok value) :
    post value (program.result session).2.notes := by
  have ran := ensures session same
  rcases ended : program.result session with ⟨result, later⟩
  rw [ended] at ran returned
  simp only at returned
  subst returned
  exact ran

/-- What holds of the notes of both endings holds of the notes. -/
theorem Ensures.always {program : Exchange α} (ensures : Ensures program notes post broken)
    (weaker : ∀ value notes, post value notes → broken notes) {session : Session}
    (same : session.notes = notes) : broken (program.result session).2.notes := by
  have ran := ensures session same
  rcases ended : program.result session with ⟨result, later⟩
  rw [ended] at ran
  cases result with
  | error error => exact ran
  | ok value => exact weaker value _ ran

end Logic

/-! ## What a party does -/

/-- What the initiator signs: the hello, and the transcript of its agreement. -/
def InitiatorSigned (identity : Identity) (notes : Notes) : Prop :=
  ∀ signed ∈ notes.signed, signed.context = initiatorHelloContext ∨
    signed.context = initiatorContext ∧ ∃ agreement,
      notes.agreement = some agreement ∧ agreement.initiatorPublic = identity.publicKey ∧
        signed.message = Platform.sha3 agreement.transcript.buffer ∧
        agreement.transcript.buffer ∈ notes.hashed

/-- What is true of a channel that the initiator returns. -/
structure InitiatorReturned (identity : Identity) (expected : Option PeerId) (channel : Channel)
    (notes : Notes) : Prop where
  signed : InitiatorSigned identity notes
  verified : ∃ offer signature, notes.offer = some offer ∧
    offer.initiatorPublic = identity.publicKey ∧
    channel.peer = PeerId.fromPublic offer.responderPublic ∧
    offer.transcript.buffer ∈ notes.hashed ∧
    ⟨⟨Platform.sha3 offer.transcript.buffer, responderContext⟩, offer.responderPublic, signature⟩ ∈
      notes.accepted
  keys : ∃ agreement secret kemRandom, notes.agreement = some agreement ∧
    HandshakeSuite.encaps agreement.encapsKey kemRandom = some (secret, agreement.ciphertext) ∧
    channel = Channel.new .initiator (PeerId.fromPublic agreement.responderPublic)
      (derive secret (Platform.sha3 agreement.transcript.buffer))
  pinned : ∀ pin ∈ expected, channel.peer = pin

theorem initiate_spec (identity : Identity) (expected : Option PeerId) :
    Ensures (initiate identity expected) Notes.nothing
      (fun channel notes => InitiatorReturned identity expected channel notes)
      (InitiatorSigned identity) := by
  have nothing : ∀ {notes : Notes}, notes.signed = [] → InitiatorSigned identity notes := by
    intro notes blank signed listed
    rw [blank] at listed
    cases listed
  have hello : ∀ {notes : Notes} {message : Hash}, notes.signed = [⟨message, initiatorHelloContext⟩] →
      InitiatorSigned identity notes := by
    intro notes message only signed listed
    rw [only, List.mem_singleton] at listed
    exact .inl (listed ▸ rfl)
  refine ensures_readArray (fun challenge => ?_) (nothing rfl)
  refine ensures_fillRandom (fun clientRandom => ?_) (nothing rfl)
  refine ensures_hash ?_
  refine ensures_sign (fun proof => ?_) (nothing rfl)
  refine ensures_writeAll ?_ (hello rfl)
  refine ensures_readArray (fun responderPublic => ?_) (hello rfl)
  refine ensures_readArray (fun encapsKey => ?_) (hello rfl)
  refine ensures_readArray (fun serverRandom => ?_) (hello rfl)
  refine ensures_readArray (fun signature => ?_) (hello rfl)
  refine ensures_note ?_
  refine ensures_hash ?_
  refine ensures_verify ?_ (hello rfl)
  refine ensures_reject (fun pinned => ?_) (hello rfl)
  refine ensures_fillRandom (fun kemRandom => ?_) (hello rfl)
  split
  · exact ensures_throw (hello rfl)
  next secret ciphertext encapsulated =>
  refine ensures_note ?_
  refine ensures_hash ?_
  refine ensures_sign (fun final => ?_) (hello rfl)
  have both : ∀ {notes : Notes} {message : Hash} {agreement : Agreement},
      notes.signed = [⟨message, initiatorHelloContext⟩,
        ⟨Platform.sha3 agreement.transcript.buffer, initiatorContext⟩] →
      notes.agreement = some agreement → agreement.initiatorPublic = identity.publicKey →
      agreement.transcript.buffer ∈ notes.hashed → InitiatorSigned identity notes := by
    intro notes message agreement two agreed own hashed signed listed
    rw [two, List.mem_cons, List.mem_singleton] at listed
    rcases listed with rfl | rfl
    · exact .inl rfl
    · exact .inr ⟨rfl, agreement, agreed, own, rfl, hashed⟩
  refine ensures_writeAll (ensures_pure ⟨both rfl rfl rfl (by simp), ?_, ?_, ?_⟩)
    (both rfl rfl rfl (by simp))
  · exact ⟨_, signature, rfl, rfl, rfl, by simp, List.mem_singleton.mpr rfl⟩
  · exact ⟨_, secret, kemRandom, rfl, encapsulated, rfl⟩
  · rintro pin ⟨⟩
    simpa [Channel.new] using pinned

/-- What the responder signs: the transcript of its offer, with the challenge that it drew. -/
def ResponderSigned (identity : Identity) (notes : Notes) : Prop :=
  (∀ offer, notes.offer = some offer → notes.challenge = some offer.challenge) ∧
    ∀ signed ∈ notes.signed, signed.context = responderContext ∧ ∃ offer,
      notes.offer = some offer ∧ offer.responderPublic = identity.publicKey ∧
        signed.message = Platform.sha3 offer.transcript.buffer ∧
        offer.transcript.buffer ∈ notes.hashed

/-- What is true of a channel that the responder returns. -/
structure ResponderReturned (identity : Identity) (expected : Option PeerId)
    (known : Option (List PeerId)) (channel : Channel) (notes : Notes) : Prop where
  signed : ResponderSigned identity notes
  verified : ∃ agreement signature kemSeed kemZ decapsKey, notes.agreement = some agreement ∧
    agreement.responderPublic = identity.publicKey ∧
    agreement.transcript.buffer ∈ notes.hashed ∧
    ⟨⟨Platform.sha3 agreement.transcript.buffer, initiatorContext⟩, agreement.initiatorPublic,
      signature⟩ ∈ notes.accepted ∧
    HandshakeSuite.kemKeygen kemSeed kemZ = (agreement.encapsKey, decapsKey) ∧
    channel = Channel.new .responder (PeerId.fromPublic agreement.initiatorPublic)
      (derive (HandshakeSuite.decaps decapsKey agreement.ciphertext)
        (Platform.sha3 agreement.transcript.buffer))
  pinned : ∀ pin ∈ expected, channel.peer = pin
  member : ∀ set ∈ known, channel.peer ∈ set

theorem respondKnown_spec (identity : Identity) (expected : Option PeerId)
    (known : Option (List PeerId)) (inflight : Nat) :
    Ensures (respondKnown identity expected known inflight) Notes.nothing
      (fun channel notes => ResponderReturned identity expected known channel notes)
      (ResponderSigned identity) := by
  have unsigned : ∀ {notes : Notes}, notes.signed = [] →
      (∀ offer, notes.offer = some offer → notes.challenge = some offer.challenge) →
      ResponderSigned identity notes := by
    intro notes blank drawn
    refine ⟨drawn, fun signed listed => ?_⟩
    rw [blank] at listed
    cases listed
  refine ensures_reject (fun _ => ?_) (unsigned rfl nofun)
  refine ensures_fillRandom (fun challenge => ?_) (unsigned rfl nofun)
  refine ensures_note ?_
  refine ensures_writeAll ?_ (unsigned rfl nofun)
  refine ensures_readArray (fun initiatorPublic => ?_) (unsigned rfl nofun)
  refine ensures_readArray (fun clientRandom => ?_) (unsigned rfl nofun)
  refine ensures_readArray (fun proof => ?_) (unsigned rfl nofun)
  refine ensures_reject (fun pinned => ?_) (unsigned rfl nofun)
  refine ensures_reject (fun member => ?_) (unsigned rfl nofun)
  refine ensures_hash ?_
  refine ensures_verify ?_ (unsigned rfl nofun)
  refine ensures_fillRandom (fun kemSeed => ?_) (unsigned rfl nofun)
  refine ensures_fillRandom (fun kemZ => ?_) (unsigned rfl nofun)
  refine ensures_fillRandom (fun serverRandom => ?_) (unsigned rfl nofun)
  refine ensures_note ?_
  refine ensures_hash ?_
  refine ensures_sign (fun signature => ?_) (unsigned rfl (by rintro _ ⟨⟩; rfl))
  have signed : ∀ {notes : Notes} {offer : Offer},
      notes.signed = [⟨Platform.sha3 offer.transcript.buffer, responderContext⟩] →
      notes.offer = some offer → notes.challenge = some offer.challenge →
      offer.responderPublic = identity.publicKey → offer.transcript.buffer ∈ notes.hashed →
      ResponderSigned identity notes := by
    intro notes offer only offered drawn own hashed
    refine ⟨fun other same => ?_, fun signed listed => ?_⟩
    · rw [offered] at same
      cases same
      exact drawn
    · rw [only, List.mem_singleton] at listed
      subst listed
      exact ⟨rfl, offer, offered, own, rfl, hashed⟩
  refine ensures_writeAll ?_ (signed rfl rfl rfl rfl (by simp))
  refine ensures_readArray (fun ciphertext => ?_) (signed rfl rfl rfl rfl (by simp))
  refine ensures_readArray (fun final => ?_) (signed rfl rfl rfl rfl (by simp))
  refine ensures_note ?_
  refine ensures_hash ?_
  refine ensures_verify ?_ (signed rfl rfl rfl rfl (by simp))
  refine ensures_pure ⟨signed rfl rfl rfl rfl (by simp), ?_, ?_, ?_⟩
  · exact ⟨_, final, kemSeed, kemZ, _, rfl, rfl, by simp, by simp, rfl, rfl⟩
  · rintro pin ⟨⟩
    simpa [Channel.new] using pinned
  · rintro set ⟨⟩
    simpa [Channel.new] using member

/-! ## Transcripts tell their fields apart -/

omit [HandshakeSuite] in
theorem absorb_inj {transcript other : Transcript} {count : Nat} {field field' : Vector UInt8 count}
    (same : (transcript.absorb field.toList).buffer = (other.absorb field'.toList).buffer) :
    transcript.buffer = other.buffer ∧ field = field' := by
  obtain ⟨before, last⟩ := List.append_inj' same (by simp)
  exact ⟨before, Vector.toList_inj.mp last⟩

theorem Hello.transcript_inj {hello other : Hello}
    (same : hello.transcript.buffer = other.transcript.buffer) : hello = other := by
  obtain ⟨same, randoms⟩ := absorb_inj same
  obtain ⟨same, keys⟩ := absorb_inj same
  obtain ⟨_, challenges⟩ := absorb_inj same
  cases hello
  cases other
  simp_all

theorem Offer.transcript_inj {offer other : Offer}
    (same : offer.transcript.buffer = other.transcript.buffer) : offer = other := by
  obtain ⟨same, randoms⟩ := absorb_inj same
  obtain ⟨same, encapsKeys⟩ := absorb_inj same
  obtain ⟨same, keys⟩ := absorb_inj same
  have hellos := Hello.transcript_inj same
  cases offer
  cases other
  simp_all

theorem Agreement.transcript_inj {agreement other : Agreement}
    (same : agreement.transcript.buffer = other.transcript.buffer) : agreement = other := by
  obtain ⟨same, ciphertexts⟩ := absorb_inj same
  have offers := Offer.transcript_inj same
  cases agreement
  cases other
  simp_all

omit [HandshakeSuite] in
theorem contexts_differ : initiatorHelloContext ≠ initiatorContext ∧
    initiatorHelloContext ≠ responderContext ∧ initiatorContext ≠ responderContext := by
  decide

/-! ## Many parties -/

/-- The part that a party plays, and which peers it wants. -/
inductive Part
  | initiator (expected : Option PeerId)
  | responder (expected : Option PeerId) (known : Option (List PeerId)) (inflight : Nat)

/-- A run of the handshake: who runs it, and what its stream and its source of randoms answer. -/
structure Run where
  identity : Identity
  part : Part
  incoming : List ReadEvent
  writes : List (Except IoError Unit)
  randoms : List (Except IoError Random)

namespace Run

def program (run : Run) : Exchange Channel :=
  match run.part with
  | .initiator expected => initiate run.identity expected
  | .responder expected known inflight => respondKnown run.identity expected known inflight

def ended (run : Run) : Except ChannelError Channel × Session :=
  run.program.result ⟨run.incoming, run.writes, run.randoms, [], Notes.nothing⟩

def notes (run : Run) : Notes := run.ended.2.notes

def Returns (run : Run) (channel : Channel) : Prop := run.ended.1 = .ok channel

def Initiates (run : Run) : Prop := ∃ expected, run.part = .initiator expected

def Responds (run : Run) : Prop :=
  ∃ expected known inflight, run.part = .responder expected known inflight

def expected (run : Run) : Option PeerId :=
  match run.part with
  | .initiator expected => expected
  | .responder expected _ _ => expected

def known (run : Run) : Option (List PeerId) :=
  match run.part with
  | .initiator _ => none
  | .responder _ known _ => known

/-- The two runs have the same challenge, keys and randoms. -/
def Matches (responder initiator : Run) : Prop :=
  ∃ offer, responder.notes.offer = some offer ∧ initiator.notes.offer = some offer

end Run

namespace Run

variable {run : Run} {channel : Channel}

theorem initiator_signed (initiates : run.Initiates) : InitiatorSigned run.identity run.notes := by
  obtain ⟨expected, part⟩ := initiates
  unfold notes ended program
  rw [part]
  exact (initiate_spec run.identity expected).always (fun _ _ returned => returned.signed) rfl

theorem initiator_returned (initiates : run.Initiates) (returns : run.Returns channel) :
    InitiatorReturned run.identity run.expected channel run.notes := by
  obtain ⟨expected, part⟩ := initiates
  unfold Returns ended program at returns
  unfold Run.expected notes ended program
  rw [part] at returns ⊢
  exact (initiate_spec run.identity expected).returned rfl returns

theorem responder_signed (responds : run.Responds) : ResponderSigned run.identity run.notes := by
  obtain ⟨expected, known, inflight, part⟩ := responds
  unfold notes ended program
  rw [part]
  exact (respondKnown_spec run.identity expected known inflight).always
    (fun _ _ returned => returned.signed) rfl

theorem responder_returned (responds : run.Responds) (returns : run.Returns channel) :
    ResponderReturned run.identity run.expected run.known channel run.notes := by
  obtain ⟨expected, known, inflight, part⟩ := responds
  unfold Returns ended program at returns
  unfold Run.expected Run.known notes ended program
  rw [part] at returns ⊢
  exact (respondKnown_spec run.identity expected known inflight).returned rfl returns

theorem initiates_or_responds (run : Run) : run.Initiates ∨ run.Responds := by
  rcases part : run.part with expected | ⟨expected, known, inflight⟩
  · exact .inl ⟨expected, part⟩
  · exact .inr ⟨expected, known, inflight, part⟩

end Run

/-- What is assumed of the primitives in a family of runs. -/
structure Sound {ι : Type} (runs : ι → Run) (honest : PublicKey → Prop) : Prop where
  /-- What verifies under the key of an honest party was signed in a run of that party. -/
  unforgeable : ∀ i, ∀ accepted ∈ (runs i).notes.accepted, honest accepted.key →
    ∃ j, (runs j).identity.publicKey = accepted.key ∧ accepted.toSigned ∈ (runs j).notes.signed
  /-- The transcripts of the runs do not collide. -/
  injective : ∀ i j, ∀ left ∈ (runs i).notes.hashed, ∀ right ∈ (runs j).notes.hashed,
    Platform.sha3 left = Platform.sha3 right → left = right
  /-- No two runs draw one challenge. -/
  fresh : ∀ i j challenge, (runs i).notes.challenge = some challenge →
    (runs j).notes.challenge = some challenge → i = j

/-- Whoever made the encapsulation key of an agreement gets out of its ciphertext what was put in. -/
def Agreement.Decapsulates (agreement : Agreement) : Prop :=
  ∀ kemSeed kemZ kemRandom decapsKey secret,
    HandshakeSuite.kemKeygen kemSeed kemZ = (agreement.encapsKey, decapsKey) →
    HandshakeSuite.encaps agreement.encapsKey kemRandom = some (secret, agreement.ciphertext) →
    HandshakeSuite.decaps decapsKey agreement.ciphertext = secret

section Agree

variable {ι : Type} {runs : ι → Run} {honest : PublicKey → Prop} (sound : Sound runs honest)
include sound

/-- The signature at the end of the handshake is that of an initiator with the same fields. -/
theorem Sound.initiator_of_accepted {i : ι} {agreement : Agreement} {signature : Signature}
    (hashed : agreement.transcript.buffer ∈ (runs i).notes.hashed)
    (accepted : ⟨⟨Platform.sha3 agreement.transcript.buffer, initiatorContext⟩,
      agreement.initiatorPublic, signature⟩ ∈ (runs i).notes.accepted)
    (trusted : honest agreement.initiatorPublic) :
    ∃ j, (runs j).Initiates ∧ (runs j).identity.publicKey = agreement.initiatorPublic ∧
      (runs j).notes.agreement = some agreement := by
  obtain ⟨j, signer, listed⟩ := sound.unforgeable i _ accepted trusted
  refine ⟨j, ?_⟩
  rcases (runs j).initiates_or_responds with initiates | responds
  · refine ⟨initiates, signer, ?_⟩
    rcases Run.initiator_signed initiates _ listed with hello | ⟨_, other, agreed, _, same, theirs⟩
    · exact absurd hello.symm contexts_differ.1
    · rw [agreed, ← Agreement.transcript_inj (sound.injective i j _ hashed _ theirs same)]
  · exact absurd ((Run.responder_signed responds).2 _ listed).1 contexts_differ.2.2

/-- The signature on an offer is that of a responder with the same offer. -/
theorem Sound.responder_of_accepted {j : ι} {offer : Offer} {signature : Signature}
    (hashed : offer.transcript.buffer ∈ (runs j).notes.hashed)
    (accepted : ⟨⟨Platform.sha3 offer.transcript.buffer, responderContext⟩, offer.responderPublic,
      signature⟩ ∈ (runs j).notes.accepted)
    (trusted : honest offer.responderPublic) :
    ∃ i, (runs i).Responds ∧ (runs i).identity.publicKey = offer.responderPublic ∧
      (runs i).notes.offer = some offer := by
  obtain ⟨i, signer, listed⟩ := sound.unforgeable j _ accepted trusted
  refine ⟨i, ?_⟩
  rcases (runs i).initiates_or_responds with initiates | responds
  · rcases Run.initiator_signed initiates _ listed with hello | ⟨final, _⟩
    · exact absurd hello.symm contexts_differ.2.1
    · exact absurd final.symm contexts_differ.2.2
  · obtain ⟨_, other, offered, _, same, theirs⟩ := (Run.responder_signed responds).2 _ listed
    refine ⟨responds, signer, ?_⟩
    rw [offered, ← Offer.transcript_inj (sound.injective j i _ hashed _ theirs same)]

/-- One initiator is matched by at most one responder. -/
theorem Sound.matches_once {i i' j : ι} (responds : (runs i).Responds) (responds' : (runs i').Responds)
    (first : (runs i).Matches (runs j)) (second : (runs i').Matches (runs j)) : i = i' := by
  obtain ⟨offer, offered, same⟩ := first
  obtain ⟨offer', offered', same'⟩ := second
  have equal : offer = offer' := Option.some.inj (same.symm.trans same')
  subst equal
  exact sound.fresh i i' offer.challenge ((Run.responder_signed responds).1 offer offered)
    ((Run.responder_signed responds').1 offer offered')

/-- Agreement. If a responder returns a channel with an honest peer, then that peer ran an initiator
with the same fields, and the channel that this initiator returns, if it does and the ciphertext of
the two decapsulates, has the same keys. If an initiator returns a channel with an honest peer, then
that peer ran a responder with the same offer. No two responders match one initiator. The peer of a
channel is the one that was pinned, and in the set that was given. A signature that is accepted was
made by an honest run over the same transcript, which holds the fields. -/
theorem handshake_agreement :
    (∀ i channel, (runs i).Responds → (runs i).Returns channel → honest channel.peer.publicKey →
      ∃ j agreement keys, (runs j).Initiates ∧
        (runs j).identity.publicKey = channel.peer.publicKey ∧
        agreement.initiatorPublic = channel.peer.publicKey ∧
        agreement.responderPublic = (runs i).identity.publicKey ∧
        (runs i).notes.agreement = some agreement ∧ (runs j).notes.agreement = some agreement ∧
        channel = Channel.new .responder channel.peer keys ∧
        ∀ other, agreement.Decapsulates → (runs j).Returns other →
          other = Channel.new .initiator (PeerId.fromPublic (runs i).identity.publicKey) keys) ∧
    (∀ j channel, (runs j).Initiates → (runs j).Returns channel → honest channel.peer.publicKey →
      ∃ i, (runs i).Responds ∧ (runs i).identity.publicKey = channel.peer.publicKey ∧
        (runs i).Matches (runs j)) ∧
    (∀ i i' j, (runs i).Responds → (runs i').Responds → (runs j).Initiates →
      (runs i).Matches (runs j) → (runs i').Matches (runs j) → i = i') ∧
    ∀ i channel, (runs i).Returns channel →
      (∀ pin ∈ (runs i).expected, channel.peer = pin) ∧
        ∀ set ∈ (runs i).known, channel.peer ∈ set := by
  refine ⟨?_, ?_, ?_, ?_⟩
  · intro i channel responds returns trusted
    obtain ⟨agreement, signature, kemSeed, kemZ, decapsKey, agreed, own, hashed, accepted, keypair,
      rfl⟩ := (Run.responder_returned responds returns).verified
    obtain ⟨j, initiates, signer, same⟩ := sound.initiator_of_accepted hashed accepted trusted
    refine ⟨j, agreement, _, initiates, signer, rfl, own, agreed, same, rfl, ?_⟩
    intro other decapsulates returned
    obtain ⟨agreement', secret, kemRandom, same', encapsulated, rfl⟩ :=
      (Run.initiator_returned initiates returned).keys
    obtain rfl : agreement = agreement' := Option.some.inj (same.symm.trans same')
    rw [decapsulates kemSeed kemZ kemRandom _ _ keypair encapsulated, own]
  · intro j channel initiates returns trusted
    obtain ⟨offer, signature, offered, _, peer, hashed, accepted⟩ :=
      (Run.initiator_returned initiates returns).verified
    rw [peer] at trusted ⊢
    obtain ⟨i, responds, signer, same⟩ := sound.responder_of_accepted hashed accepted trusted
    exact ⟨i, responds, signer, offer, same, offered⟩
  · intro i i' j responds responds' _ first second
    exact sound.matches_once responds responds' first second
  · intro i channel returns
    rcases (runs i).initiates_or_responds with initiates | responds
    · refine ⟨(Run.initiator_returned initiates returns).pinned, ?_⟩
      obtain ⟨expected, part⟩ := initiates
      unfold Run.known
      rw [part]
      nofun
    · have returned := Run.responder_returned responds returns
      exact ⟨returned.pinned, returned.member⟩

end Agree

end Suite

/-- Keys and signatures of one byte, and a hash that tells transcripts apart by their lengths. -/
@[reducible] def byteSuite : HandshakeSuite :=
  { Platform.blank with
    sha3 := fun input => Vector.replicate 32 input.length.toUInt8
    mlDsaPublicKeyBytes := 1
    mlDsaSignatureBytes := 1
    mlDsaVerify := fun key _ signature _ => key == signature
    encapsKeyBytes := 1
    ciphertextBytes := 1
    SecretKey := UInt8
    DecapsKey := Unit
    shake256 := fun input count => List.replicate count input.length.toUInt8
    mlDsaSign := fun secret _ _ _ => some (Vector.replicate 1 secret)
    kemKeygen := fun _ _ => (Vector.replicate 1 9, ())
    encaps := fun _ _ => some (Vector.replicate 32 5, Vector.replicate 1 6)
    decaps := fun _ _ => Vector.replicate 32 5 }

/-- The initiator 7, which expects the responder 8, and that responder, which knows 7. Each gets
what the other sends. -/
def twoRuns : Bool → @Run byteSuite :=
  letI := byteSuite
  let challenge : Bytes := List.replicate 32 1
  let clientRandom : Bytes := List.replicate 32 2
  let serverRandom : Bytes := List.replicate 32 3
  let randoms := [1, 2, 3, 4].map fun byte => Except.ok (Vector.replicate 32 byte)
  fun
  | true =>
    { identity := ⟨Vector.replicate 1 7, (7 : UInt8)⟩
      part := .initiator (some (PeerId.fromPublic (Vector.replicate 1 8)))
      incoming := [.chunk challenge, .chunk ([8, 9] ++ serverRandom), .chunk [8]]
      writes := [.ok (), .ok ()]
      randoms := .ok (Vector.replicate 32 2) :: randoms }
  | false =>
    { identity := ⟨Vector.replicate 1 8, (8 : UInt8)⟩
      part := .responder none (some [PeerId.fromPublic (Vector.replicate 1 7)]) 0
      incoming := [.chunk ([7] ++ clientRandom), .interrupted, .chunk [7], .chunk [6, 7]]
      writes := [.ok (), .ok ()]
      randoms := randoms.take 3 ++ [.ok (Vector.replicate 32 3), .ok (Vector.replicate 32 4)] }

theorem twoRuns_sound : @Sound byteSuite Bool twoRuns fun _ => True := by
  let := byteSuite
  refine ⟨by decide +kernel, by decide +kernel, ?_⟩
  have quiet : (twoRuns true).notes.challenge = none := by decide +kernel
  rintro (_ | _) (_ | _) challenge first second
  · rfl
  · exact absurd (quiet.symm.trans second) (by rintro ⟨⟩)
  · exact absurd (quiet.symm.trans first) (by rintro ⟨⟩)
  · rfl

/-- The two runs return channels to each other: the responder's peer 7 ran an initiator with the
same fields, and the keys of the two channels are the same, crossed. -/
theorem handshake_agreement_two :
    letI := byteSuite
    ∃ channel agreement keys, (twoRuns false).Returns channel ∧
      agreement.initiatorPublic = channel.peer.publicKey ∧
      (twoRuns false).notes.agreement = some agreement ∧
      (twoRuns true).notes.agreement = some agreement ∧
      channel = Channel.new .responder channel.peer keys ∧
      (twoRuns true).Returns
        (Channel.new .initiator (PeerId.fromPublic (twoRuns false).identity.publicKey) keys) := by
  let := byteSuite
  have returns : ∀ i, ∃ channel, (twoRuns i).Returns channel := by
    intro i
    have ran : (twoRuns i).ended.1.isOk = true := by
      revert i
      decide +kernel
    unfold Run.Returns
    cases ended : (twoRuns i).ended.1 with
    | error error =>
      rw [ended] at ran
      cases ran
    | ok channel => exact ⟨channel, rfl⟩
  obtain ⟨channel, returned⟩ := returns false
  obtain ⟨other, returned'⟩ := returns true
  obtain ⟨j, agreement, keys, ⟨_, initiates⟩, _, own, _, agreed, agreed', made, same⟩ :=
    (handshake_agreement twoRuns_sound).1 false channel ⟨_, _, _, rfl⟩ returned trivial
  cases j with
  | false => cases initiates
  | true =>
    have decapsulates : agreement.Decapsulates := by
      intro _ _ _ _ _ _ encapsulated
      exact congrArg Prod.fst (Option.some.inj encapsulated)
    exact ⟨channel, agreement, keys, returned, own, agreed, agreed', made,
      same other decapsulates returned' ▸ returned'⟩

end QuantovaChain.Net
