import QuantovaChain.Net.Record
import QuantovaChain.Platform

/-!
# The handshake

Two peers make a channel in four messages. The responder sends a challenge. The initiator answers
with its key, a random and a proof that it knows the challenge. The responder sends its key, a key
for encapsulation and a random, signed with all that came before. The initiator sends a ciphertext,
signed with all that came before, and both derive the keys of the channel from what was
encapsulated.

A party is run against a stream that may answer anything. What it hashes, signs and verifies is
noted.
-/

namespace QuantovaChain.Net

open State (Bytes Hash)
open Idfmt (ascii)

/-! ## Primitives -/

/-- What the handshake uses of other crates, besides what the chain uses. -/
class HandshakeSuite extends Platform where
  encapsKeyBytes : Nat
  ciphertextBytes : Nat
  SecretKey : Type
  DecapsKey : Type
  shake256 : Bytes → Nat → Bytes
  mlDsaSign : SecretKey → (message context : Bytes) → Vector UInt8 32 →
    Option (Vector UInt8 mlDsaSignatureBytes)
  kemKeygen : Vector UInt8 32 → Vector UInt8 32 → Vector UInt8 encapsKeyBytes × DecapsKey
  encaps : Vector UInt8 encapsKeyBytes → Vector UInt8 32 →
    Option (Vector UInt8 32 × Vector UInt8 ciphertextBytes)
  decaps : DecapsKey → Vector UInt8 ciphertextBytes → Vector UInt8 32

abbrev Random := Vector UInt8 32

variable [HandshakeSuite]

abbrev PublicKey := Vector UInt8 Platform.mlDsaPublicKeyBytes

abbrev Signature := Vector UInt8 Platform.mlDsaSignatureBytes

abbrev EncapsKey := Vector UInt8 HandshakeSuite.encapsKeyBytes

abbrev Ciphertext := Vector UInt8 HandshakeSuite.ciphertextBytes

def initiatorContext : Bytes := ascii "qtv-net initiator"

def responderContext : Bytes := ascii "qtv-net responder"

def initiatorHelloContext : Bytes := ascii "qtv-net initiator hello"

structure Identity where
  publicKey : PublicKey
  secret : HandshakeSuite.SecretKey

structure PeerId where
  publicKey : PublicKey
  fingerprint : Hash
  deriving DecidableEq

def PeerId.fromPublic (key : PublicKey) : PeerId := ⟨key, Platform.sha3 key.toList⟩

/-! ## Transcripts -/

structure Transcript where
  buffer : Bytes

def transcriptLabel : Bytes := ascii "qtv-net/handshake/v1"

def Transcript.new : Transcript := ⟨transcriptLabel⟩

def Transcript.absorb (transcript : Transcript) (field : Bytes) : Transcript :=
  ⟨transcript.buffer ++ field⟩

/-- The fields up to the hello of the initiator. -/
structure Hello where
  challenge : Random
  initiatorPublic : PublicKey
  clientRandom : Random
  deriving DecidableEq

/-- The fields up to the answer of the responder. -/
structure Offer extends Hello where
  responderPublic : PublicKey
  encapsKey : EncapsKey
  serverRandom : Random
  deriving DecidableEq

/-- All fields. -/
structure Agreement extends Offer where
  ciphertext : Ciphertext
  deriving DecidableEq

def Hello.transcript (hello : Hello) : Transcript :=
  ((Transcript.new.absorb hello.challenge.toList).absorb hello.initiatorPublic.toList).absorb
    hello.clientRandom.toList

def Offer.transcript (offer : Offer) : Transcript :=
  ((offer.toHello.transcript.absorb offer.responderPublic.toList).absorb
    offer.encapsKey.toList).absorb offer.serverRandom.toList

def Agreement.transcript (agreement : Agreement) : Transcript :=
  agreement.toOffer.transcript.absorb agreement.ciphertext.toList

/-! ## Keys -/

structure DirKey where
  key : RecordKey
  iv : Nonce
  deriving DecidableEq

structure SessionKeys where
  initiatorToResponder : DirKey
  responderToInitiator : DirKey
  exporter : Vector UInt8 32
  deriving DecidableEq

/-- The bytes of a stream from a place on. -/
def slice (stream : Bytes) (start count : Nat) : Vector UInt8 count :=
  Vector.ofFn fun place => stream.getD (start + place.val) 0

def keyScheduleLabel : Bytes := ascii "qtv-net/key-schedule/v1"

def derive (sharedSecret : Vector UInt8 32) (transcriptHash : Hash) : SessionKeys :=
  let stream := HandshakeSuite.shake256
    (keyScheduleLabel ++ sharedSecret.toList ++ transcriptHash.toList) (2 * 32 + 2 * 12 + 32)
  { initiatorToResponder := ⟨slice stream 0 32, slice stream 64 12⟩
    responderToInitiator := ⟨slice stream 32 32, slice stream 76 12⟩
    exporter := slice stream 88 32 }

inductive ChannelRole
  | initiator
  | responder
  deriving DecidableEq

/-- A channel, by the keys with which it seals and opens. -/
structure Channel where
  peer : PeerId
  binding : Vector UInt8 32
  sealer : DirKey
  opener : DirKey
  deriving DecidableEq

def Channel.new (role : ChannelRole) (peer : PeerId) (keys : SessionKeys) : Channel :=
  match role with
  | .initiator => ⟨peer, keys.exporter, keys.initiatorToResponder, keys.responderToInitiator⟩
  | .responder => ⟨peer, keys.exporter, keys.responderToInitiator, keys.initiatorToResponder⟩

/-! ## A party and its stream -/

/-- A signature that was made. -/
structure Signed where
  message : Hash
  context : Bytes
  deriving DecidableEq

/-- A signature that verified. -/
structure Accepted extends Signed where
  key : PublicKey
  signature : Signature
  deriving DecidableEq

/-- What a party did: the challenge that it drew, the transcripts that it hashed, what it signed and
what it verified, and the fields of its transcripts. -/
structure Notes where
  challenge : Option Random
  hashed : List Bytes
  signed : List Signed
  accepted : List Accepted
  offer : Option Offer
  agreement : Option Agreement

def Notes.nothing : Notes := ⟨none, [], [], [], none, none⟩

/-- The outside of a party: what the stream answers to reads and writes, and the source of randoms.
-/
structure Session where
  incoming : List ReadEvent
  writes : List (Except IoError Unit)
  randoms : List (Except IoError Random)
  sent : List Bytes
  notes : Notes

abbrev Exchange := ExceptT ChannelError (StateM Session)

namespace Exchange

def perform {α : Type} (act : Session → Except ChannelError α × Session) : Exchange α :=
  ExceptT.mk act

def readExact (wanted : Nat) (events : List ReadEvent) :
    Except ChannelError Bytes × List ReadEvent :=
  readFull wanted (fun _ error => .io error) events []

def readArray (count : Nat) : Exchange (Vector UInt8 count) :=
  perform fun session =>
    match readExact count session.incoming with
    | (.error error, incoming) => (.error error, { session with incoming })
    | (.ok bytes, incoming) => (.ok (slice bytes 0 count), { session with incoming })

/-- A source that is used up fails. -/
def fillRandom : Exchange Random :=
  perform fun session =>
    match session.randoms with
    | [] => (.error (.io .other), session)
    | .error error :: randoms => (.error (.io error), { session with randoms })
    | .ok random :: randoms => (.ok random, { session with randoms })

/-- Writes all of a message and flushes. -/
def writeAll (bytes : Bytes) : Exchange Unit :=
  perform fun session =>
    match session.writes with
    | [] => (.error (.io .other), session)
    | .error error :: writes => (.error (.io error), { session with writes })
    | .ok () :: writes => (.ok (), { session with writes, sent := session.sent ++ [bytes] })

/-- Changes the notes only. -/
def note (change : Notes → Notes) : Exchange Unit :=
  perform fun session => (.ok (), { session with notes := change session.notes })

def hash (transcript : Transcript) : Exchange Hash := do
  note fun notes => { notes with hashed := notes.hashed ++ [transcript.buffer] }
  return Platform.sha3 transcript.buffer

def sign (identity : Identity) (message : Hash) (context : Bytes) : Exchange Signature := do
  let randomizer ← fillRandom
  match HandshakeSuite.mlDsaSign identity.secret message.toList context randomizer with
  | none => throw (.handshake "signature context exceeds the length bound")
  | some signature =>
    note fun notes => { notes with signed := notes.signed ++ [⟨message, context⟩] }
    return signature

def verify (key : PublicKey) (message : Hash) (signature : Signature) (context : Bytes) :
    Exchange Bool := do
  if Platform.mlDsaVerify key.toList message.toList signature.toList context then
    note fun notes =>
      { notes with accepted := notes.accepted ++ [⟨⟨message, context⟩, key, signature⟩] }
    return true
  else return false

/-- Ends the handshake if something is wrong. -/
def reject (wrong : Bool) (error : ChannelError) : Exchange Unit :=
  if wrong then throw error else return ()

end Exchange

/-! ## The two roles -/

open Exchange

def initiate (identity : Identity) (expected : Option PeerId) : Exchange Channel := do
  let challenge ← readArray 32
  let clientRandom ← fillRandom
  let hello : Hello := ⟨challenge, identity.publicKey, clientRandom⟩
  let helloBound ← hash hello.transcript
  let helloProof ← sign identity helloBound initiatorHelloContext
  writeAll (identity.publicKey.toList ++ clientRandom.toList ++ helloProof.toList)
  let responderPublic ← readArray Platform.mlDsaPublicKeyBytes
  let encapsKey ← readArray HandshakeSuite.encapsKeyBytes
  let serverRandom ← readArray 32
  let responderSignature ← readArray Platform.mlDsaSignatureBytes
  let offer : Offer := ⟨hello, responderPublic, encapsKey, serverRandom⟩
  note fun notes => { notes with offer := some offer }
  let serverBound ← hash offer.transcript
  let verified ← verify responderPublic serverBound responderSignature responderContext
  reject (!verified) .authentication
  let peer := PeerId.fromPublic responderPublic
  reject (expected.any fun pin => peer ≠ pin) .unexpectedPeer
  let kemRandom ← fillRandom
  match HandshakeSuite.encaps encapsKey kemRandom with
  | none => throw (.handshake "non canonical encapsulation key")
  | some (sharedSecret, ciphertext) =>
    let agreement : Agreement := ⟨offer, ciphertext⟩
    note fun notes => { notes with agreement := some agreement }
    let finalBound ← hash agreement.transcript
    let initiatorSignature ← sign identity finalBound initiatorContext
    writeAll (ciphertext.toList ++ initiatorSignature.toList)
    return Channel.new .initiator peer (derive sharedSecret finalBound)

def maxUnpinnedInflight : Nat := 64

def maxKnownSetInflight : Nat := 128

/-- The responder. The number of handshakes in flight is that of its kind. -/
def respondKnown (identity : Identity) (expected : Option PeerId) (known : Option (List PeerId))
    (inflight : Nat) : Exchange Channel := do
  let cap := if known.isSome then maxKnownSetInflight else maxUnpinnedInflight
  reject (cap ≤ inflight) (.handshake "too many unauthenticated handshakes in flight")
  let challenge ← fillRandom
  note fun notes => { notes with challenge := some challenge }
  writeAll challenge.toList
  let initiatorPublic ← readArray Platform.mlDsaPublicKeyBytes
  let clientRandom ← readArray 32
  let helloProof ← readArray Platform.mlDsaSignatureBytes
  let peer := PeerId.fromPublic initiatorPublic
  reject (expected.any fun pin => peer ≠ pin) .unexpectedPeer
  reject (known.any fun set => !set.contains peer) .unexpectedPeer
  let hello : Hello := ⟨challenge, initiatorPublic, clientRandom⟩
  let helloBound ← hash hello.transcript
  let helloVerified ← verify initiatorPublic helloBound helloProof initiatorHelloContext
  reject (!helloVerified) .authentication
  let kemSeed ← fillRandom
  let kemZ ← fillRandom
  let keypair := HandshakeSuite.kemKeygen kemSeed kemZ
  let serverRandom ← fillRandom
  let offer : Offer := ⟨hello, identity.publicKey, keypair.1, serverRandom⟩
  note fun notes => { notes with offer := some offer }
  let serverBound ← hash offer.transcript
  let responderSignature ← sign identity serverBound responderContext
  writeAll (identity.publicKey.toList ++ keypair.1.toList ++ serverRandom.toList ++
    responderSignature.toList)
  let ciphertext ← readArray HandshakeSuite.ciphertextBytes
  let initiatorSignature ← readArray Platform.mlDsaSignatureBytes
  let agreement : Agreement := ⟨offer, ciphertext⟩
  note fun notes => { notes with agreement := some agreement }
  let finalBound ← hash agreement.transcript
  let verified ← verify initiatorPublic finalBound initiatorSignature initiatorContext
  reject (!verified) .authentication
  return Channel.new .responder peer (derive (HandshakeSuite.decaps keypair.2 ciphertext) finalBound)

end QuantovaChain.Net
