import QuantovaChain.ChainBlock
import QuantovaChain.Net.Erasure

/-!
# Wire messages

The messages that nodes exchange and their encoding. A list stands after its count, and a count that
the remaining bytes cannot hold is refused before anything is read: every kind of element has a
least size, computed by hand.
-/

namespace QuantovaChain.Wire

open State (Bytes Hash)
open Idfmt (Text)
open Governance (Id)
open Codec Codec.Decoder Reading
open Chain (Header putRoot getRoot)
open Net (Commitment Shard ShardProof putUsize)
open Tx (Wrapper)

/-- The sizes of signatures, keys and hash paths, which other crates fix. The least sizes of the
format are computed from the bounds here. -/
class Sizes extends Platform where
  nodeBytes : Nat
  preimageBytes : Nat
  node_least : 32 ≤ nodeBytes
  node_word : nodeBytes < 2 ^ 64
  preimage_least : 32 ≤ preimageBytes
  preimage_word : preimageBytes < 2 ^ 64
  signature_least : 3309 ≤ mlDsaSignatureBytes
  signature_word : mlDsaSignatureBytes < 2 ^ 64
  key_least : 1952 ≤ mlDsaPublicKeyBytes
  key_word : mlDsaPublicKeyBytes < 2 ^ 64

variable [Sizes]

abbrev Signature := Vector UInt8 Platform.mlDsaSignatureBytes

abbrev Key := Vector UInt8 Platform.mlDsaPublicKeyBytes

abbrev Node := Vector UInt8 Sizes.nodeBytes

abbrev Preimage := Vector UInt8 Sizes.preimageBytes

/-! ## What is attested -/

inductive Parent
  | genesis
  | value (value : Hash)
  deriving DecidableEq, Repr

/-- A block as it is voted on. -/
structure Block where
  height : U64
  val : Hash
  parent : Parent
  cost : U64
  deriving DecidableEq, Repr

structure Credential where
  position : U64
  preimage : Preimage
  siblings : List Node
  deriving DecidableEq, Repr

structure PublishedReveal where
  id : U64
  credential : Credential
  deriving DecidableEq, Repr

structure Attestation where
  sender : U64
  height : U64
  slot : U64
  view : U64
  committee : Hash
  block : Block
  membership : Credential
  sig : Signature
  deriving DecidableEq, Repr

structure Envelope where
  height : U64
  slot : U64
  block : Block
  committee : Hash
  deriving DecidableEq, Repr

structure Certificate where
  envelope : Envelope
  attestations : List Attestation
  committeeReveals : List PublishedReveal
  deriving DecidableEq, Repr

/-- The root of a tree of one-time keys. -/
structure Root where
  digest : Node
  slots : U64
  deriving DecidableEq, Repr

/-! ## Messages -/

structure LockedBlock where
  header : Header
  body : List Wrapper
  deriving DecidableEq

structure ViewChange where
  height : U64
  targetView : U64
  lockView : U64
  locked : Option LockedBlock
  att : Attestation
  polka : Option Certificate
  lockPol : Option U64
  polkaDigest : Hash
  deriving DecidableEq

structure Proposal where
  view : U64
  header : Header
  body : List Wrapper
  justification : List ViewChange
  auth : Attestation
  deriving DecidableEq

structure CodedProposal where
  view : U64
  header : Header
  commitment : Commitment
  shard : Shard
  proof : ShardProof
  auth : Attestation
  deriving DecidableEq

structure PrevoteNote where
  att : Attestation
  value : Hash
  pol : Option U64
  deriving DecidableEq, Repr

structure RevealNote where
  height : U64
  id : U64
  credential : Credential
  deriving DecidableEq, Repr

structure RegisterNote where
  height : U64
  id : U64
  epoch : U64
  root : Root
  sig : Signature
  deriving DecidableEq, Repr

structure PeerEntry where
  key : Key
  address : String
  deriving DecidableEq, Repr

structure ChainBlock where
  header : Header
  certificate : Bytes
  body : List Wrapper
  deriving DecidableEq

inductive Message
  | tx (wrapper : Wrapper)
  | proposal (proposal : Proposal)
  | codedProposal (coded : CodedProposal)
  | attest (attestation : Attestation)
  | prevote (prevote : PrevoteNote)
  | peers (peers : List PeerEntry)
  | status (height : U64)
  | getBlocks (first last : U64)
  | blocks (blocks : List ChainBlock)
  | viewChange (record : ViewChange)
  | reveal (note : RevealNote)
  | register (note : RegisterNote)
  deriving DecidableEq

def tagTx : UInt8 := 1
def tagProposal : UInt8 := 2
def tagAttest : UInt8 := 3
def tagPeers : UInt8 := 4
def tagStatus : UInt8 := 5
def tagGetBlocks : UInt8 := 6
def tagBlocks : UInt8 := 7
def tagViewChange : UInt8 := 8
def tagCodedProposal : UInt8 := 9
def tagReveal : UInt8 := 10
def tagRegister : UInt8 := 11
def tagPrevote : UInt8 := 12

def parentGenesis : UInt8 := 0
def parentValue : UInt8 := 1

def minWrapper : Nat := 65
def minViewChange : Nat := 3561
def minChainBlock : Nat := 208
def minPeer : Nat := 1968
def minAttestation : Nat := 3526
def minSibling : Nat := 40
def maxCredentialSiblings : Nat := 64
def minReveal : Nat := 64
def maxCommitteeReveals : Nat := 4096

inductive DecodeError
  | codec (error : Codec.Error)
  | header (error : Chain.Error)
  | unknownTag (tag : UInt8)
  | badParent (tag : UInt8)
  | badStage (stage : UInt8)
  | badLength
  | utf8
  | badAddress
  deriving DecidableEq, Repr

instance : FromError DecodeError := ⟨.codec⟩

/-! ## Encoding -/

/-- A position that an optional vote refers to. -/
def putPol : Option U64 → Bytes
  | some pol => putU8 1 ++ putU64 pol
  | none => putU8 0 ++ putU64 0

def putValue (value : Hash) : Bytes := putRoot value

def encodeParent : Parent → Bytes
  | .genesis => putU8 parentGenesis ++ putValue (Vector.replicate 32 0)
  | .value value => putU8 parentValue ++ putValue value

def encodeBlock (block : Block) : Bytes :=
  putU64 block.height ++ putValue block.val ++ encodeParent block.parent ++ putU64 block.cost

def encodeCredential (credential : Credential) : Bytes :=
  putU64 credential.position ++ putBytes credential.preimage.toList ++
    putList (fun sibling => putBytes sibling.toList) credential.siblings

def encodeReveal (reveal : PublishedReveal) : Bytes :=
  putU64 reveal.id ++ encodeCredential reveal.credential

def encodeCommitteeReveals (reveals : List PublishedReveal) : Bytes := putList encodeReveal reveals

def encodeAttestation (attestation : Attestation) : Bytes :=
  putU64 attestation.sender ++ putU64 attestation.height ++ putU64 attestation.slot ++
    putU64 attestation.view ++ putBytes attestation.committee.toList ++
    encodeBlock attestation.block ++ encodeCredential attestation.membership ++
    putBytes attestation.sig.toList

def encodeEnvelope (envelope : Envelope) : Bytes :=
  putU64 envelope.height ++ putU64 envelope.slot ++ encodeBlock envelope.block ++
    putBytes envelope.committee.toList

def encodeCertificate (certificate : Certificate) : Bytes :=
  encodeEnvelope certificate.envelope ++ putList encodeAttestation certificate.attestations ++
    encodeCommitteeReveals certificate.committeeReveals

def encodeLocked (locked : LockedBlock) : Bytes :=
  locked.header.encode ++ putList Wrapper.encode locked.body

/-- A part that may be left out, after a flag. -/
def putFlagged {α : Type} (put : α → Bytes) : Option α → Bytes
  | some part => putU8 1 ++ put part
  | none => putU8 0

def encodeViewChange (record : ViewChange) : Bytes :=
  putU64 record.height ++ putU64 record.targetView ++ putU64 record.lockView ++
    putFlagged encodeLocked record.locked ++ encodeAttestation record.att ++
    putFlagged encodeCertificate record.polka ++ putPol record.lockPol ++
    putBytes record.polkaDigest.toList

def encodeCommitment (commitment : Commitment) : Bytes :=
  putBytes commitment.root.toList ++ putUsize commitment.k ++ putUsize commitment.n ++
    putUsize commitment.shardLen ++ putUsize commitment.dataLen

def encodeCodedProposal (coded : CodedProposal) : Bytes :=
  putU64 coded.view ++ coded.header.encode ++ encodeCommitment coded.commitment ++
    putUsize coded.shard.index ++ putBytes coded.shard.bytes ++
    putList (fun sibling => putBytes sibling.toList) coded.proof.siblings ++
    encodeAttestation coded.auth

def encodeChainBlock (block : ChainBlock) : Bytes :=
  block.header.encode ++ putBytes block.certificate ++ putList Wrapper.encode block.body

def encodeProposal (proposal : Proposal) : Bytes :=
  putU64 proposal.view ++ proposal.header.encode ++ putList Wrapper.encode proposal.body ++
    putList encodeViewChange proposal.justification ++ encodeAttestation proposal.auth

def encodePrevote (prevote : PrevoteNote) : Bytes :=
  encodeAttestation prevote.att ++ putValue prevote.value ++ putPol prevote.pol

def encodePeer (entry : PeerEntry) : Bytes :=
  putBytes entry.key.toList ++ putBytes (asBytes entry.address)

def encodeRevealNote (note : RevealNote) : Bytes :=
  putU64 note.height ++ putU64 note.id ++ encodeCredential note.credential

def encodeRegisterNote (note : RegisterNote) : Bytes :=
  putU64 note.height ++ putU64 note.id ++ putU64 note.epoch ++ putBytes note.root.digest.toList ++
    putU64 note.root.slots ++ putBytes note.sig.toList

def Message.encode : Message → Bytes
  | .tx wrapper => putU8 tagTx ++ wrapper.encode
  | .proposal proposed => putU8 tagProposal ++ encodeProposal proposed
  | .codedProposal coded => putU8 tagCodedProposal ++ encodeCodedProposal coded
  | .attest attestation => putU8 tagAttest ++ encodeAttestation attestation
  | .prevote note => putU8 tagPrevote ++ encodePrevote note
  | .peers entries => putU8 tagPeers ++ putList encodePeer entries
  | .status height => putU8 tagStatus ++ putU64 height
  | .getBlocks first last => putU8 tagGetBlocks ++ putU64 first ++ putU64 last
  | .blocks found => putU8 tagBlocks ++ putList encodeChainBlock found
  | .viewChange record => putU8 tagViewChange ++ encodeViewChange record
  | .reveal note => putU8 tagReveal ++ encodeRevealNote note
  | .register note => putU8 tagRegister ++ encodeRegisterNote note

/-! ## Decoding -/

abbrev WireDecoder := Decoder DecodeError

def preallocLimit : Nat := 4096

def boundedCapacity (remaining : Nat) (count : U64) (minElement : Nat) : Except DecodeError Nat :=
  if remaining / max minElement 1 < count.val then .error .badLength
  else .ok (min count.val preallocLimit)

/-- As many elements as were counted, if the remaining bytes can hold them. -/
def getElements {α : Type} (minElement : Nat) (element : WireDecoder α) (count : U64) :
    WireDecoder (List α) := do
  let remaining ← remaining
  let _ ← boundedCapacity remaining count minElement
  many element count.val

/-- A count and then the elements. -/
def getList {α : Type} (minElement : Nat) (element : WireDecoder α) : WireDecoder (List α) := do
  let count ← getU64
  getElements minElement element count

/-- A count within a limit and then the elements. -/
def getLimited {α : Type} (limit minElement : Nat) (element : WireDecoder α) :
    WireDecoder (List α) := do
  let count ← getU64
  if limit < count.val then throw .badLength else getElements minElement element count

/-- A count that is not zero and then the elements. -/
def getSome {α : Type} (minElement : Nat) (element : WireDecoder α) : WireDecoder (List α) := do
  let count ← getU64
  if count = 0 then throw .badLength else getElements minElement element count

def readText : WireDecoder String := do
  let bytes ← getBytes
  match fromUtf8 bytes with
  | none => throw .utf8
  | some text => return text

def readAddress : WireDecoder Text := do
  let payload ← getBytes
  match Idfmt.renderAddress payload with
  | .error _ => throw .badAddress
  | .ok address => return address

def readFixed (size : Nat) : WireDecoder (Vector UInt8 size) := do
  let bytes ← getBytes
  if sized : bytes.length = size then return ⟨bytes.toArray, sized⟩ else throw .badLength

/-- The asset that a transaction carries: none, or an issuer of 32 bytes. -/
def readInAsset : WireDecoder (Option Id) := do
  let bytes ← getBytes
  if bytes.length = 0 then return none
  else if sized : bytes.length = 32 then return some ⟨bytes.toArray, sized⟩
  else throw .badLength

def decodeWrapper : WireDecoder Wrapper := do
  let sender ← readAddress
  let nonce ← getU64
  let meterLimit ← getU64
  let fee ← getU128
  let target ← readAddress
  let args ← getBytes
  let value ← getU64
  let chainId ← getU64
  let inAsset ← readInAsset
  let validUntil ← getU64
  let kind ← getU8
  let scheme ← getU8
  if !Tx.schemeSupported scheme then throw (.unknownTag scheme)
  else
    let signature ← getBytes
    return ⟨⟨sender, nonce, meterLimit, fee, value, chainId, ⟨target, args⟩, inAsset, validUntil,
      kind⟩, scheme, signature⟩

def getPol : WireDecoder (Option U64) := do
  let flag ← getU8
  let pol ← getU64
  if flag = 1 then return some pol
  else if flag = 0 ∧ pol = 0 then return none
  else throw (.badParent flag)

def getValue : WireDecoder Hash := getRoot

def decodeHeader : WireDecoder Header := mapError .header Header.decode

def decodeParent : WireDecoder Parent := do
  let parentTag ← getU8
  let parent ← getValue
  if parentTag = parentGenesis then
    if parent = Vector.replicate 32 0 then return .genesis else throw (.badParent parentTag)
  else if parentTag = parentValue then return .value parent
  else throw (.badParent parentTag)

def decodeBlock : WireDecoder Block := do
  let height ← getU64
  let val ← getValue
  let parent ← decodeParent
  let cost ← getU64
  return { height, val, parent, cost }

def decodeCredential : WireDecoder Credential := do
  let position ← getU64
  let preimage ← readFixed Sizes.preimageBytes
  let siblings ← getLimited maxCredentialSiblings minSibling (readFixed Sizes.nodeBytes)
  return { position, preimage, siblings }

def decodeReveal : WireDecoder PublishedReveal := do
  let id ← getU64
  let credential ← decodeCredential
  return { id, credential }

/-- Strictly increasing by a key. -/
def Increasing {α : Type} (key : α → U64) (elements : List α) : Prop :=
  elements.IsChain fun first second => key first < key second

instance {α : Type} (key : α → U64) (elements : List α) : Decidable (Increasing key elements) :=
  inferInstanceAs (Decidable (elements.IsChain _))

def decodeCommitteeReveals : WireDecoder (List PublishedReveal) := do
  let reveals ← getLimited maxCommitteeReveals minReveal decodeReveal
  if Increasing PublishedReveal.id reveals then return reveals else throw .badLength

def decodeAttestation : WireDecoder Attestation := do
  let sender ← getU64
  let height ← getU64
  let slot ← getU64
  let view ← getU64
  let committee ← readFixed 32
  let block ← decodeBlock
  let membership ← decodeCredential
  let sig ← readFixed Platform.mlDsaSignatureBytes
  return { sender, height, slot, view, committee, block, membership, sig }

def sortedAttestations (attestations : List Attestation) : WireDecoder Unit :=
  if Increasing Attestation.sender attestations then return () else throw .badLength

def decodeEnvelope : WireDecoder Envelope := do
  let height ← getU64
  let slot ← getU64
  let block ← decodeBlock
  let committee ← readFixed 32
  return { height, slot, block, committee }

/-- The builder of certificates keeps reveals that are in order, and is given no others. -/
def decodeCertificate : WireDecoder Certificate := do
  let envelope ← decodeEnvelope
  let attestations ← getList minAttestation decodeAttestation
  sortedAttestations attestations
  let committeeReveals ← decodeCommitteeReveals
  return { envelope, attestations, committeeReveals }

def decodeLocked : WireDecoder LockedBlock := do
  let header ← decodeHeader
  let body ← getList minWrapper decodeWrapper
  return { header, body }

/-- A part that may be left out, after a flag. -/
def getFlagged {α : Type} (part : WireDecoder α) : WireDecoder (Option α) := do
  let flag ← getU8
  if flag = 0 then return none
  else if flag = 1 then return some (← part)
  else throw (.badParent flag)

def decodeViewChange : WireDecoder ViewChange := do
  let height ← getU64
  let targetView ← getU64
  let lockView ← getU64
  let locked ← getFlagged decodeLocked
  let att ← decodeAttestation
  let polka ← getFlagged decodeCertificate
  let lockPol ← getPol
  let polkaDigest ← readFixed 32
  return { height, targetView, lockView, locked, att, polka, lockPol, polkaDigest }

def getUsize : WireDecoder Nat := do
  let size ← getU64
  return size.val

def decodeCommitment : WireDecoder Commitment := do
  let root ← readFixed 32
  let k ← getUsize
  let n ← getUsize
  let shardLen ← getUsize
  let dataLen ← getUsize
  return { root, k, n, shardLen, dataLen }

def decodeCodedProposal : WireDecoder CodedProposal := do
  let view ← getU64
  let header ← decodeHeader
  let commitment ← decodeCommitment
  let index ← getUsize
  let bytes ← getBytes
  let siblings ← getList minSibling (readFixed 32)
  let auth ← decodeAttestation
  return { view, header, commitment, shard := { index, bytes }, proof := { siblings }, auth }

def decodeChainBlock : WireDecoder ChainBlock := do
  let header ← decodeHeader
  let certificate ← getBytes
  let body ← getList minWrapper decodeWrapper
  return { header, certificate, body }

def decodeProposal : WireDecoder Proposal := do
  let view ← getU64
  let header ← decodeHeader
  let body ← getList minWrapper decodeWrapper
  let justification ← getList minViewChange decodeViewChange
  let auth ← decodeAttestation
  return { view, header, body, justification, auth }

def decodePrevote : WireDecoder PrevoteNote := do
  let att ← decodeAttestation
  let value ← getValue
  let pol ← getPol
  return { att, value, pol }

def decodePeer : WireDecoder PeerEntry := do
  let key ← readFixed Platform.mlDsaPublicKeyBytes
  let address ← readText
  return { key, address }

def decodeRevealNote : WireDecoder RevealNote := do
  let height ← getU64
  let id ← getU64
  let credential ← decodeCredential
  return { height, id, credential }

def decodeRegisterNote : WireDecoder RegisterNote := do
  let height ← getU64
  let id ← getU64
  let epoch ← getU64
  let digest ← readFixed Sizes.nodeBytes
  let slots ← getU64
  let sig ← readFixed Platform.mlDsaSignatureBytes
  return { height, id, epoch, root := { digest, slots }, sig }

/-- The message of a kind. -/
def decodeTagged (tag : UInt8) : WireDecoder Message :=
  if tag = tagTx then .tx <$> decodeWrapper
  else if tag = tagProposal then .proposal <$> decodeProposal
  else if tag = tagCodedProposal then .codedProposal <$> decodeCodedProposal
  else if tag = tagAttest then .attest <$> decodeAttestation
  else if tag = tagPrevote then .prevote <$> decodePrevote
  else if tag = tagPeers then .peers <$> getList minPeer decodePeer
  else if tag = tagStatus then .status <$> getU64
  else if tag = tagGetBlocks then do
    let first ← getU64
    let last ← getU64
    return .getBlocks first last
  else if tag = tagBlocks then .blocks <$> getList minChainBlock decodeChainBlock
  else if tag = tagViewChange then .viewChange <$> decodeViewChange
  else if tag = tagReveal then .reveal <$> decodeRevealNote
  else if tag = tagRegister then .register <$> decodeRegisterNote
  else throw (.unknownTag tag)

/-- What a decoder reads when it ends where its input ends. -/
def decodeWhole {α : Type} (decoder : WireDecoder α) (bytes : Bytes) : Except DecodeError α :=
  StateT.run' (do
    let value ← decoder
    finish
    return value) bytes

def Message.decode (bytes : Bytes) : Except DecodeError Message :=
  decodeWhole (do decodeTagged (← getU8)) bytes

/-! ## Parts that are stored or hashed on their own -/

def chainBlockFromBytes (bytes : Bytes) : Except DecodeError ChainBlock :=
  decodeWhole decodeChainBlock bytes

/-- The justification of a proposal, which is nothing when there are no records. -/
def justificationToBytes (records : List ViewChange) : Bytes :=
  if records = [] then [] else putList encodeViewChange records

def justificationFromBytes (bytes : Bytes) : Except DecodeError (List ViewChange) :=
  if bytes = [] then .ok []
  else decodeWhole (getSome minViewChange decodeViewChange) bytes

end QuantovaChain.Wire
