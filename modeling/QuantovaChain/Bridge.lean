import QuantovaChain.Platform

/-!
# Bridge attestations

Operators sign facts about the other chain: a deposit there, which mints here, or the payout of a
burn here. A fact travels with the signatures of operators, and counts when enough operators with
distinct keys have signed it. The bytes are read to their end, or the whole is refused.
-/

namespace QuantovaChain.Bridge

open State (Bytes Hash)
open Idfmt (ascii)
open Governance (Id AssetId)
open Codec Codec.Reader

def attestDomain : Bytes := ascii "QUANTOVA/Q-ORACLE/ATTEST/v1"

def exitAckDomain : Bytes := ascii "QUANTOVA/Q-ORACLE/EXIT-ACK/v1"

def popDomain : Bytes := ascii "QUANTOVA/Q-ORACLE/OPERATOR-POP/v1"

def factVersion : UInt8 := 1

def factEncodedLen : Nat := 138

def exitFactVersion : UInt8 := 1

def exitFactEncodedLen : Nat := 138

def artifactAttestation : UInt8 := 1

def artifactStark : UInt8 := 2

def artifactExitAck : UInt8 := 3

def envelopeVersion : UInt8 := 1

inductive Direction
  | deposit
  | exitAck
  deriving DecidableEq, Repr

def Direction.tag : Direction → UInt8
  | deposit => 0
  | exitAck => 1

def Direction.fromTag (tag : UInt8) : Option Direction :=
  if tag = 0 then some deposit else if tag = 1 then some exitAck else none

structure Fact where
  version : UInt8
  sourceChain : U32
  destChain : U32
  routeId : U32
  direction : Direction
  nonce : U64
  sourceRef : Id
  assetId : AssetId
  amount : U128
  recipient : Id
  finalityDepth : U32
  observedHeight : U64
  expiryHeight : U64
  deriving DecidableEq, Repr

namespace Fact

def encode (fact : Fact) : Bytes :=
  [fact.version] ++ putU32 fact.sourceChain ++ putU32 fact.destChain ++ putU32 fact.routeId ++
    [fact.direction.tag] ++ putU64 fact.nonce ++ fact.sourceRef.toList ++ fact.assetId.toList ++
    putU128 fact.amount ++ fact.recipient.toList ++ putU32 fact.finalityDepth ++
    putU64 fact.observedHeight ++ putU64 fact.expiryHeight

def read : Reader Fact := do
  let version ← u8
  let sourceChain ← u32
  let destChain ← u32
  let routeId ← u32
  let direction ← Direction.fromTag (← u8)
  let nonce ← u64
  let sourceRef ← array 32
  let assetId ← array 16
  let amount ← u128
  let recipient ← array 32
  let finalityDepth ← u32
  let observedHeight ← u64
  let expiryHeight ← u64
  return { version, sourceChain, destChain, routeId, direction, nonce, sourceRef, assetId, amount,
           recipient, finalityDepth, observedHeight, expiryHeight }

def attestPreimage (fact : Fact) (chainId : U64) : Bytes :=
  attestDomain ++ fact.encode ++ putU64 chainId

def wellFormed (fact : Fact) : Bool :=
  fact.version == factVersion && fact.sourceChain != 0 && fact.destChain != 0 && fact.amount != 0 &&
    fact.assetId != Vector.replicate 16 0 && fact.recipient != Vector.replicate 32 0 &&
    fact.sourceRef != Vector.replicate 32 0

end Fact

structure SignerSig where
  operatorId : U32
  signature : Bytes
  deriving DecidableEq, Repr

def SignerSig.encode (signer : SignerSig) : Bytes :=
  putU32 signer.operatorId ++ putU16 (Word.wrap 16 signer.signature.length) ++ signer.signature

/-- The signatures after their number. -/
def putSignatures (signatures : List SignerSig) : Bytes :=
  putU32 (Word.wrap 32 signatures.length) ++ signatures.flatMap SignerSig.encode

def SignerSig.read : Reader SignerSig := do
  let operatorId ← u32
  let length ← u16
  let signature ← take length.val
  return { operatorId, signature }

structure Attestation where
  fact : Fact
  signatures : List SignerSig
  deriving DecidableEq, Repr

def Attestation.encode (attestation : Attestation) : Bytes :=
  [artifactAttestation] ++ [envelopeVersion] ++ attestation.fact.encode ++
    putSignatures attestation.signatures

def Attestation.read : Reader Attestation := do
  if (← u8) ≠ artifactAttestation then failure
  if (← u8) ≠ envelopeVersion then failure
  let fact ← Fact.read
  let count ← u32
  let signatures ← many SignerSig.read count.val
  return { fact, signatures }

structure StarkEnvelope where
  statementDigest : Hash
  proof : Bytes
  deriving DecidableEq, Repr

def StarkEnvelope.encode (envelope : StarkEnvelope) : Bytes :=
  [artifactStark] ++ envelope.statementDigest.toList ++
    putU32 (Word.wrap 32 envelope.proof.length) ++ envelope.proof

def StarkEnvelope.read : Reader StarkEnvelope := do
  if (← u8) ≠ artifactStark then failure
  let statementDigest ← array 32
  let length ← u32
  let proof ← take length.val
  return { statementDigest, proof }

structure MintArtifact where
  attestation : Attestation
  stark : Option StarkEnvelope
  deriving DecidableEq, Repr

def MintArtifact.encode (artifact : MintArtifact) : Bytes :=
  let attestation := artifact.attestation.encode
  let stark := (artifact.stark.map StarkEnvelope.encode).getD []
  putU32 (Word.wrap 32 attestation.length) ++ attestation ++
    putU32 (Word.wrap 32 stark.length) ++ stark

def MintArtifact.decode : Bytes → Option MintArtifact :=
  whole do
    let attestationLen ← u32
    let attestation ← whole Attestation.read (← take attestationLen.val)
    let starkLen ← u32
    if starkLen = 0 then return { attestation, stark := none }
    let envelope ← whole StarkEnvelope.read (← take starkLen.val)
    return { attestation, stark := some envelope }

structure OperatorSet where
  operators : List (U32 × Bytes)
  threshold : U32
  revoked : List U32
  deriving DecidableEq, Repr

namespace OperatorSet

def isRevoked (set : OperatorSet) (operatorId : U32) : Bool := set.revoked.contains operatorId

/-- The set after a revocation of a known operator that is not revoked yet. -/
def revoke (set : OperatorSet) (operatorId : U32) : Option OperatorSet :=
  if !(set.operators.any fun entry => entry.1 == operatorId) || set.isRevoked operatorId then none
  else some { set with revoked := set.revoked ++ [operatorId] }

def publicKey (set : OperatorSet) (operatorId : U32) : Option Bytes :=
  if set.isRevoked operatorId then none
  else (set.operators.find? fun entry => entry.1 == operatorId).map Prod.snd

end OperatorSet

inductive ExitOutcome
  | settle
  | slash
  deriving DecidableEq, Repr

def ExitOutcome.tag : ExitOutcome → UInt8
  | settle => 1
  | slash => 2

def ExitOutcome.fromTag (tag : UInt8) : Option ExitOutcome :=
  if tag = 1 then some settle else if tag = 2 then some slash else none

structure ExitFact where
  version : UInt8
  corridor : U32
  destChain : U32
  assetId : AssetId
  amount : U128
  holder : Id
  destination : Id
  burnRef : Id
  outcome : ExitOutcome
  deriving DecidableEq, Repr

namespace ExitFact

def encode (fact : ExitFact) : Bytes :=
  [fact.version] ++ putU32 fact.corridor ++ putU32 fact.destChain ++ fact.assetId.toList ++
    putU128 fact.amount ++ fact.holder.toList ++ fact.destination.toList ++ fact.burnRef.toList ++
    [fact.outcome.tag]

def read : Reader ExitFact := do
  let version ← u8
  let corridor ← u32
  let destChain ← u32
  let assetId ← array 16
  let amount ← u128
  let holder ← array 32
  let destination ← array 32
  let burnRef ← array 32
  let outcome ← ExitOutcome.fromTag (← u8)
  return { version, corridor, destChain, assetId, amount, holder, destination, burnRef, outcome }

def ackPreimage (fact : ExitFact) (chainId : U64) : Bytes :=
  exitAckDomain ++ fact.encode ++ putU64 chainId

def wellFormed (fact : ExitFact) : Bool :=
  fact.version == exitFactVersion && fact.corridor != 0 && fact.destChain != 0 &&
    fact.amount != 0 && fact.assetId != Vector.replicate 16 0 &&
    fact.holder != Vector.replicate 32 0 && fact.destination != Vector.replicate 32 0 &&
    fact.burnRef != Vector.replicate 32 0

end ExitFact

structure ExitAttestation where
  fact : ExitFact
  signatures : List SignerSig
  deriving DecidableEq, Repr

def ExitAttestation.encode (attestation : ExitAttestation) : Bytes :=
  [artifactExitAck] ++ [envelopeVersion] ++ attestation.fact.encode ++
    putSignatures attestation.signatures

def ExitAttestation.read : Reader ExitAttestation := do
  if (← u8) ≠ artifactExitAck then failure
  if (← u8) ≠ envelopeVersion then failure
  let fact ← ExitFact.read
  let count ← u32
  let signatures ← many SignerSig.read count.val
  return { fact, signatures }

def ExitAttestation.decode : Bytes → Option ExitAttestation := whole read

structure ExitRequest where
  assetId : AssetId
  amount : U128
  destination : Id
  deriving DecidableEq, Repr

def ExitRequest.decode : Bytes → Option ExitRequest :=
  whole do
    let assetId ← array 16
    let amount ← u128
    let destination ← array 32
    return { assetId, amount, destination }

def attestContext (era : Hash) : Bytes := attestDomain ++ era.toList

def exitAckContext (era : Hash) : Bytes := exitAckDomain ++ era.toList

variable [Platform]

/-- A signature counts only with a key and a signature of the scheme's sizes. -/
def signs (publicKey message signature context : Bytes) : Bool :=
  publicKey.length == Platform.mlDsaPublicKeyBytes &&
    signature.length == Platform.mlDsaSignatureBytes &&
    Platform.mlDsaVerify publicKey message signature context

def operatorPopChallenge (operatorId : U32) (publicKey : Bytes) (chainId : U64) : Bytes :=
  putU64 chainId ++ putU32 operatorId ++ publicKey

def operatorPopOk (operatorId : U32) (publicKey pop : Bytes) (chainId : U64) : Bool :=
  signs publicKey (operatorPopChallenge operatorId publicKey chainId) pop popDomain

/-- Goes through the signatures with the operators tried so far and the keys counted so far. -/
def countedKeys (set : OperatorSet) (message context : Bytes) :
    List SignerSig → List U32 → List Bytes → List Bytes
  | [], _, counted => counted
  | signer :: rest, attempted, counted =>
    if attempted.contains signer.operatorId then
      countedKeys set message context rest attempted counted
    else
      let attempted := signer.operatorId :: attempted
      match set.publicKey signer.operatorId with
      | none => countedKeys set message context rest attempted counted
      | some key =>
        if !counted.contains key && signs key message signer.signature context then
          countedKeys set message context rest attempted (key :: counted)
        else countedKeys set message context rest attempted counted

/-- Whether enough operators with distinct keys signed the message. -/
def quorumSigns (set : OperatorSet) (signatures : List SignerSig) (message context : Bytes) : Bool :=
  decide (signatures.length ≤ set.operators.length) &&
    decide (set.threshold.val ≤ (countedKeys set message context signatures [] []).length % 2 ^ 32)

def quorumAttests (set : OperatorSet) (attestation : Attestation) (destChain : U32) (chainId : U64)
    (era : Hash) : Bool :=
  set.threshold != 0 && attestation.fact.wellFormed && attestation.fact.destChain == destChain &&
    attestation.fact.direction == .deposit &&
    quorumSigns set attestation.signatures (attestation.fact.attestPreimage chainId)
      (attestContext era)

def exitQuorumAttests (set : OperatorSet) (attestation : ExitAttestation) (destChain : U32)
    (chainId : U64) (era : Hash) : Bool :=
  set.threshold != 0 && attestation.fact.wellFormed && attestation.fact.destChain == destChain &&
    quorumSigns set attestation.signatures (attestation.fact.ackPreimage chainId)
      (exitAckContext era)

end QuantovaChain.Bridge
