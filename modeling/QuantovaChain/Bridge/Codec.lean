import QuantovaChain.Bridge
import QuantovaChain.Codec.Reader

/-!
# One encoding for every bridge artifact

A mint artifact and an exit attestation are read exactly off what is written for them. Signatures,
proofs and the two parts of a mint artifact stand after their lengths, so an artifact has an
encoding that is read back when its lengths fit the words they are written in. Nothing else is
read: not a longer input, and not one with another tag, version, direction or outcome.
-/

namespace QuantovaChain.Bridge

open State (Bytes)
open Codec Codec.Reader Reading

theorem Direction.fromTag_eq_some (tag : UInt8) (direction : Direction) :
    fromTag tag = some direction ↔ tag = direction.tag := by
  unfold fromTag
  cases direction <;> grind [Direction.tag]

theorem ExitOutcome.fromTag_eq_some (tag : UInt8) (outcome : ExitOutcome) :
    fromTag tag = some outcome ↔ tag = outcome.tag := by
  unfold fromTag
  cases outcome <;> grind [ExitOutcome.tag]

namespace Fact

theorem inverts_read : Inverts read encode fun _ => True :=
  .ofFields (by simp [encode, putU8]) (by simp) <|
    inverts_u8.field version fun _ =>
    inverts_u32.field sourceChain fun _ =>
    inverts_u32.field destChain fun _ =>
    inverts_u32.field routeId fun _ =>
    inverts_u8.headedField (inverts_code Direction.fromTag_eq_some) direction fun _ =>
    inverts_u64.field nonce fun _ =>
    (inverts_array 32).field sourceRef fun _ =>
    (inverts_array 16).field assetId fun _ =>
    inverts_u128.field amount fun _ =>
    (inverts_array 32).field recipient fun _ =>
    inverts_u32.field finalityDepth fun _ =>
    inverts_u64.field observedHeight fun _ =>
    inverts_u64.field expiryHeight fun _ =>
    inverts_record fun record => by cases record; simp [and_assoc]

end Fact

namespace ExitFact

theorem inverts_read : Inverts read encode fun _ => True :=
  .ofFields (by simp [encode, putU8]) (by simp) <|
    inverts_u8.field version fun _ =>
    inverts_u32.field corridor fun _ =>
    inverts_u32.field destChain fun _ =>
    (inverts_array 16).field assetId fun _ =>
    inverts_u128.field amount fun _ =>
    (inverts_array 32).field holder fun _ =>
    (inverts_array 32).field destination fun _ =>
    (inverts_array 32).field burnRef fun _ =>
    inverts_u8.headedField (inverts_code ExitOutcome.fromTag_eq_some) outcome fun _ =>
    inverts_record fun record => by cases record; simp [and_assoc]

end ExitFact

/-- A signature whose length fits its word. -/
def SignerSig.Fits (signer : SignerSig) : Prop := signer.signature.length < 2 ^ 16

theorem SignerSig.inverts_read : Inverts read encode Fits :=
  .ofFields (by simp [encode]) (by simp [Fits]) <|
    inverts_u32.field operatorId fun _ =>
    inverts_u16.headedField inverts_announced signature fun _ =>
    inverts_record fun record => by cases record; simp

/-- Signatures whose number and lengths fit their words. -/
def SignaturesFit (signatures : List SignerSig) : Prop :=
  signatures.length < 2 ^ 32 ∧ ∀ signer ∈ signatures, signer.Fits

theorem Attestation.inverts_read :
    Inverts read encode fun attestation => SignaturesFit attestation.signatures :=
  .ofFields (by simp [encode, putSignatures, putU8]) (by simp [SignaturesFit]) <|
    inverts_expected inverts_u8 trivial <|
    inverts_expected inverts_u8 trivial <|
    Fact.inverts_read.field fact fun _ =>
    inverts_u32.headedField (inverts_counted SignerSig.inverts_read) signatures fun _ =>
    inverts_record fun record => by cases record; simp

theorem StarkEnvelope.inverts_read :
    Inverts read encode fun envelope => envelope.proof.length < 2 ^ 32 :=
  .ofFields (by simp [encode, putU8]) (by simp) <|
    inverts_expected inverts_u8 trivial <|
    (inverts_array 32).field statementDigest fun _ =>
    inverts_u32.headedField inverts_announced proof fun _ =>
    inverts_record fun record => by cases record; simp

/-- The envelope of a proof, or nothing. -/
def putStark (stark : Option StarkEnvelope) : Bytes := (stark.map StarkEnvelope.encode).getD []

/-- A mint artifact whose counts and lengths fit the words they are written in. -/
@[mk_iff]
structure MintArtifact.Fits (artifact : MintArtifact) : Prop where
  attestation : artifact.attestation.encode.length < 2 ^ 32
  signatures : SignaturesFit artifact.attestation.signatures
  stark : (putStark artifact.stark).length < 2 ^ 32

/-- An envelope has a length of its own, which is not that of a missing one. -/
theorem StarkEnvelope.length_encode (envelope : StarkEnvelope) :
    envelope.encode.length = 37 + envelope.proof.length := by
  simp [encode, putU32]
  omega

/-- After an attestation stands the length of an envelope and the envelope, or a length of zero. -/
theorem inverts_stark (attestation : Attestation) :
    Inverts
      (do
        let length ← u32
        if length = 0 then return { attestation, stark := none }
        let envelope ← Reader.whole StarkEnvelope.read (← take length.val)
        return { attestation, stark := some envelope } : Reader MintArtifact)
      (fun artifact =>
        putU32 (Word.wrap 32 (putStark artifact.stark).length) ++ putStark artifact.stark)
      fun artifact =>
        (True ∧ artifact.attestation = attestation) ∧ (putStark artifact.stark).length < 2 ^ 32 := by
  intro input artifact rest
  simp only [inverts_u32.reads_bind]
  constructor
  · rintro ⟨length, middle, -, rfl, reads⟩
    split at reads
    next absent =>
      obtain ⟨rfl, rfl⟩ := reads_pure.mp reads
      exact ⟨⟨⟨trivial, rfl⟩, by simp [putStark]⟩, by rw [absent]; rfl⟩
    next present =>
      simp only [(inverts_announced length).reads_bind, Reading.reads_bind, reads_lift, reads_pure,
        whole_eq_some StarkEnvelope.inverts_read] at reads
      obtain ⟨_, _, ⟨rfl, short⟩, rfl, envelope, _, ⟨⟨-, rfl⟩, rfl⟩, rfl, rfl⟩ := reads
      exact ⟨⟨⟨trivial, rfl⟩, short⟩, (List.append_assoc ..).symm⟩
  · obtain ⟨found, stark⟩ := artifact
    rintro ⟨⟨⟨-, rfl⟩, short⟩, rfl⟩
    cases stark with
    | none => exact ⟨0, rest, trivial, rfl, reads_pure.mpr ⟨rfl, rfl⟩⟩
    | some envelope =>
      have short : envelope.encode.length < 2 ^ 32 := short
      have long := envelope.length_encode
      have nonzero : Word.wrap 32 envelope.encode.length ≠ 0 := fun zero => by
        have none : envelope.encode.length % 2 ^ 32 = 0 := congrArg Word.val zero
        rw [Nat.mod_eq_of_lt short] at none
        omega
      refine ⟨Word.wrap 32 envelope.encode.length, envelope.encode ++ rest, trivial,
        List.append_assoc .., ?_⟩
      rw [if_neg nonzero]
      refine (inverts_announced _).andThen ⟨rfl, short⟩ (Reading.reads_bind.mpr ⟨envelope, rest,
        reads_lift.mpr ⟨(whole_eq_some StarkEnvelope.inverts_read).mpr ⟨?_, rfl⟩, rfl⟩,
        reads_pure.mpr ⟨rfl, rfl⟩⟩)
      omega

theorem MintArtifact.decode_eq_some {bytes : Bytes} {artifact : MintArtifact} :
    decode bytes = some artifact ↔ artifact.Fits ∧ bytes = artifact.encode := by
  have reads : Inverts _ encode Fits :=
    .ofFields (by simp [encode, putStark]) (by simp [fits_iff, and_assoc]) <|
      (inverts_u32.headed (inverts_nested Attestation.inverts_read)).field attestation inverts_stark
  simp only [bind_assoc] at reads
  exact whole_eq_some reads

theorem ExitAttestation.inverts_read :
    Inverts read encode fun attestation => SignaturesFit attestation.signatures :=
  .ofFields (by simp [encode, putSignatures, putU8]) (by simp [SignaturesFit]) <|
    inverts_expected inverts_u8 trivial <|
    inverts_expected inverts_u8 trivial <|
    ExitFact.inverts_read.field fact fun _ =>
    inverts_u32.headedField (inverts_counted SignerSig.inverts_read) signatures fun _ =>
    inverts_record fun record => by cases record; simp

theorem ExitAttestation.decode_eq_some {bytes : Bytes} {attestation : ExitAttestation} :
    decode bytes = some attestation ↔
      SignaturesFit attestation.signatures ∧ bytes = attestation.encode :=
  whole_eq_some inverts_read

/-- Artifacts whose lengths fit are read back, and every input that is read is the encoding of what
it is read as. Both readers invert their encoders. -/
theorem artifact_codecs_canonical :
    (∀ artifact : MintArtifact, artifact.Fits →
        MintArtifact.decode artifact.encode = some artifact) ∧
      (∀ bytes artifact, MintArtifact.decode bytes = some artifact → artifact.encode = bytes) ∧
      (∀ attestation : ExitAttestation, SignaturesFit attestation.signatures →
        ExitAttestation.decode attestation.encode = some attestation) ∧
      ∀ bytes attestation, ExitAttestation.decode bytes = some attestation →
        attestation.encode = bytes :=
  ⟨fun _ fits => MintArtifact.decode_eq_some.mpr ⟨fits, rfl⟩,
    fun _ _ read => (MintArtifact.decode_eq_some.mp read).2.symm,
    fun _ fits => ExitAttestation.decode_eq_some.mpr ⟨fits, rfl⟩,
    fun _ _ read => (ExitAttestation.decode_eq_some.mp read).2.symm⟩

end QuantovaChain.Bridge
