import QuantovaChain.Wire.Fields

/-!
# The wire format is canonical

Every decoder inverts its encoder on the values that keep to the limits of the format. So a message
is read back from its encoding, and no other bytes read as the same message.
-/

namespace QuantovaChain.Wire

open State (Bytes)
open Codec Codec.Decoder Reading
open Chain (Header)
open Net (Commitment)
open Tx (Wrapper)

/-! ## Transactions -/

/-- The limits on a transaction: canonical addresses, a supported scheme, and lengths that are
words. -/
@[mk_iff] structure WrapperFits (wrapper : Wrapper) : Prop where
  sender : Canonical wrapper.body.sender
  target : Canonical wrapper.body.call.target
  args : wrapper.body.call.args.length < 2 ^ 64
  scheme : Tx.schemeSupported wrapper.scheme = true
  signature : wrapper.signature.length < 2 ^ 64

theorem inverts_decodeWrapper : Inverts decodeWrapper Wrapper.encode WrapperFits :=
  .ofFields (by simp [Wrapper.encode, Tx.Body.encode, Tx.Call.encode])
    (by simp [wrapperFits_iff]) <|
    inverts_readAddress.field (fun wrapper => wrapper.body.sender) fun _ =>
    inverts_getU64.field (fun wrapper => wrapper.body.nonce) fun _ =>
    inverts_getU64.field (fun wrapper => wrapper.body.meterLimit) fun _ =>
    inverts_getU128.field (fun wrapper => wrapper.body.fee) fun _ =>
    inverts_readAddress.field (fun wrapper => wrapper.body.call.target) fun _ =>
    inverts_getBytes.field (fun wrapper => wrapper.body.call.args) fun _ =>
    inverts_getU64.field (fun wrapper => wrapper.body.value) fun _ =>
    inverts_getU64.field (fun wrapper => wrapper.body.chainId) fun _ =>
    inverts_readInAsset.field (fun wrapper => wrapper.body.inAsset) fun _ =>
    inverts_getU64.field (fun wrapper => wrapper.body.validUntil) fun _ =>
    inverts_getU8.field (fun wrapper => wrapper.body.kind) fun _ =>
    inverts_getU8.field Wrapper.scheme fun _ =>
    inverts_unless (fun wrapper => Tx.schemeSupported wrapper.scheme = true)
      (fun _ known => by simp [known.2]) <|
    inverts_getBytes.field Wrapper.signature fun _ =>
    inverts_record fun ⟨⟨_, _, _, _, _, _, ⟨_, _⟩, _, _, _⟩, _, _⟩ => by simp; tauto

theorem wrapper_least (wrapper : Wrapper) (_ : WrapperFits wrapper) :
    minWrapper ≤ wrapper.encode.length := by
  simp only [Wrapper.encode, Tx.Body.encode, List.length_append, length_putU8, length_putU64,
    length_putU128, length_putBytes, minWrapper]
  omega

theorem inverts_body :
    Inverts (getList minWrapper decodeWrapper) (putList Wrapper.encode) (ListFits WrapperFits) :=
  inverts_getList (by decide) inverts_decodeWrapper wrapper_least

/-! ## Blocks that are voted on -/

theorem inverts_decodeParent : Inverts decodeParent encodeParent fun _ => True := by
  intro input parent rest
  simp only [decodeParent, inverts_getU8.reads_bind, inverts_getValue.reads_bind, reads_ite,
    reads_pure]
  constructor
  · rintro ⟨tag, _, -, rfl, found, _, -, rfl, ⟨rfl, ⟨rfl, rfl, rfl⟩ | refused⟩ |
      ⟨-, ⟨rfl, rfl, rfl⟩ | refused⟩⟩
    · exact ⟨trivial, by rw [encodeParent, List.append_assoc]⟩
    · exact absurd refused.2 reads_throw
    · exact ⟨trivial, by rw [encodeParent, List.append_assoc]⟩
    · exact absurd refused.2 reads_throw
  · rintro ⟨-, rfl⟩
    cases parent with
    | genesis =>
      exact ⟨_, _, trivial, List.append_assoc .., _, rest, trivial, rfl,
        .inl ⟨rfl, .inl ⟨rfl, rfl, rfl⟩⟩⟩
    | value found =>
      exact ⟨_, _, trivial, List.append_assoc .., found, rest, trivial, rfl,
        .inr ⟨by decide, .inl ⟨rfl, rfl, rfl⟩⟩⟩

theorem inverts_decodeBlock : Inverts decodeBlock encodeBlock fun _ => True :=
  .ofFields (by simp [encodeBlock]) (by simp) <|
    inverts_getU64.field Block.height fun _ =>
    inverts_getValue.field Block.val fun _ =>
    inverts_decodeParent.field Block.parent fun _ =>
    inverts_getU64.field Block.cost fun _ =>
    inverts_record fun record => by cases record; simp [and_assoc]

theorem length_encodeParent (parent : Parent) : (encodeParent parent).length = 33 := by
  cases parent <;> simp [encodeParent, putValue, Chain.length_putRoot]

theorem length_encodeBlock (block : Block) : (encodeBlock block).length = 81 := by
  simp [encodeBlock, putValue, Chain.length_putRoot, length_encodeParent]

/-! ## Credentials, attestations and certificates -/

theorem inverts_hash :
    Inverts (readFixed 32) (fun found => putBytes found.toList) fun _ => True :=
  inverts_readFixed (by decide)

theorem inverts_decodeEnvelope : Inverts decodeEnvelope encodeEnvelope fun _ => True :=
  .ofFields (by simp [encodeEnvelope]) (by simp) <|
    inverts_getU64.field Envelope.height fun _ =>
    inverts_getU64.field Envelope.slot fun _ =>
    inverts_decodeBlock.field Envelope.block fun _ =>
    inverts_hash.field Envelope.committee fun _ =>
    inverts_record fun record => by cases record; simp [and_assoc]

section Attestations

variable [Sizes]

def Credential.Fits (credential : Credential) : Prop :=
  credential.siblings.length ≤ maxCredentialSiblings

theorem inverts_preimage :
    Inverts (readFixed Sizes.preimageBytes) (fun found => putBytes found.toList) fun _ => True :=
  inverts_readFixed Sizes.preimage_word

theorem inverts_siblings :
    Inverts (getLimited maxCredentialSiblings minSibling (readFixed Sizes.nodeBytes))
      (putList fun sibling => putBytes sibling.toList)
      fun siblings => siblings.length ≤ maxCredentialSiblings ∧ ∀ _ ∈ siblings, True := by
  refine inverts_getLimited (by decide) (inverts_readFixed Sizes.node_word) ?_ (by decide)
  intro sibling _
  have least := Sizes.node_least
  rw [length_putBytes, Vector.length_toList, minSibling]
  omega

theorem inverts_decodeCredential :
    Inverts decodeCredential encodeCredential Credential.Fits :=
  .ofFields (by simp [encodeCredential]) (by simp [Credential.Fits]) <|
    inverts_getU64.field Credential.position fun _ =>
    inverts_preimage.field Credential.preimage fun _ =>
    inverts_siblings.field Credential.siblings fun _ =>
    inverts_record fun record => by cases record; simp [and_assoc]

theorem credential_least (credential : Credential) : 56 ≤ (encodeCredential credential).length := by
  have least := Sizes.preimage_least
  have count := length_putList (fun sibling : Node => putBytes sibling.toList) credential.siblings
  simp only [encodeCredential, List.length_append, length_putU64, length_putBytes,
    Vector.length_toList]
  omega

theorem inverts_decodeReveal :
    Inverts decodeReveal encodeReveal fun reveal => reveal.credential.Fits :=
  .ofFields (by simp [encodeReveal]) (by simp) <|
    inverts_getU64.field PublishedReveal.id fun _ =>
    inverts_decodeCredential.field PublishedReveal.credential fun _ =>
    inverts_record fun record => by cases record; simp

/-- The limits on the reveals of a committee: their number, their order, and each credential. -/
structure RevealsFit (reveals : List PublishedReveal) : Prop where
  few : reveals.length ≤ maxCommitteeReveals
  each : ∀ reveal ∈ reveals, reveal.credential.Fits
  increasing : Increasing PublishedReveal.id reveals

theorem reveal_least (reveal : PublishedReveal) (_ : reveal.credential.Fits) :
    minReveal ≤ (encodeReveal reveal).length := by
  have least := credential_least reveal.credential
  rw [encodeReveal, List.length_append, length_putU64, minReveal]
  omega

theorem inverts_decodeCommitteeReveals :
    Inverts decodeCommitteeReveals encodeCommitteeReveals RevealsFit := by
  have limited : Inverts (getLimited maxCommitteeReveals minReveal decodeReveal)
      (putList encodeReveal) _ :=
    inverts_getLimited (by decide) inverts_decodeReveal reveal_least (by decide)
  intro input reveals rest
  constructor
  · simp only [decodeCommitteeReveals, limited.reads_bind]
    rintro ⟨found, _, ⟨few, each⟩, rfl, reads⟩
    split at reads
    next increasing =>
      obtain ⟨rfl, rfl⟩ := reads_pure.mp reads
      exact ⟨⟨few, each, increasing⟩, rfl⟩
    next => exact absurd reads reads_throw
  · rintro ⟨fits, rfl⟩
    refine limited.andThen ⟨fits.few, fits.each⟩ ?_
    rw [if_pos fits.increasing]
    exact reads_pure.mpr ⟨rfl, rfl⟩

def Attestation.Fits (attestation : Attestation) : Prop := attestation.membership.Fits

theorem inverts_decodeAttestation :
    Inverts decodeAttestation encodeAttestation Attestation.Fits := by
  have signatures := inverts_readFixed Sizes.signature_word
  exact .ofFields (by simp [encodeAttestation]) (by simp [Attestation.Fits]) <|
    inverts_getU64.field Attestation.sender fun _ =>
    inverts_getU64.field Attestation.height fun _ =>
    inverts_getU64.field Attestation.slot fun _ =>
    inverts_getU64.field Attestation.view fun _ =>
    inverts_hash.field Attestation.committee fun _ =>
    inverts_decodeBlock.field Attestation.block fun _ =>
    inverts_decodeCredential.field Attestation.membership fun _ =>
    signatures.field Attestation.sig fun _ =>
    inverts_record fun record => by cases record; simp [and_assoc]

theorem attestation_least (attestation : Attestation) (_ : attestation.Fits) :
    minAttestation ≤ (encodeAttestation attestation).length := by
  have signature := Sizes.signature_least
  have membership := credential_least attestation.membership
  simp only [encodeAttestation, List.length_append, length_putU64, length_putBytes,
    Vector.length_toList, length_encodeBlock, minAttestation]
  omega

structure Certificate.Fits (certificate : Certificate) : Prop where
  attestations : ListFits Attestation.Fits certificate.attestations
  increasing : Increasing Attestation.sender certificate.attestations
  reveals : RevealsFit certificate.committeeReveals

theorem reads_sortedAttestations {attestations : List Attestation} {input rest : Bytes}
    {done : Unit} :
    Reads (sortedAttestations attestations) input done rest ↔
      Increasing Attestation.sender attestations ∧ input = rest := by
  unfold sortedAttestations
  split
  next increasing =>
    rw [reads_pure]
    exact ⟨fun both => ⟨increasing, both.2⟩, fun both => ⟨rfl, both.2⟩⟩
  next other => exact iff_of_false reads_throw fun both => other both.1

theorem inverts_decodeCertificate :
    Inverts decodeCertificate encodeCertificate Certificate.Fits := by
  have lists := inverts_getList (by decide) inverts_decodeAttestation attestation_least
  intro input certificate rest
  constructor
  · simp only [decodeCertificate, inverts_decodeEnvelope.reads_bind, lists.reads_bind,
      inverts_decodeCommitteeReveals.reads_bind, reads_bind, reads_sortedAttestations, reads_pure]
    rintro ⟨envelope, _, -, rfl, attestations, _, attestationsFit, rfl, _, _, ⟨increasing, rfl⟩,
      reveals, _, revealsFit, rfl, rfl, rfl⟩
    exact ⟨⟨attestationsFit, increasing, revealsFit⟩, by simp [encodeCertificate]⟩
  · rintro ⟨fits, rfl⟩
    simp only [encodeCertificate, List.append_assoc]
    refine inverts_decodeEnvelope.andThen trivial ?_
    refine lists.andThen fits.attestations ?_
    refine reads_bind.mpr ⟨(), _, reads_sortedAttestations.mpr ⟨fits.increasing, rfl⟩, ?_⟩
    exact inverts_decodeCommitteeReveals.andThen fits.reveals (reads_pure.mpr ⟨rfl, rfl⟩)

end Attestations

/-! ## Proposals and view changes -/

@[mk_iff] structure LockedBlock.Fits (locked : LockedBlock) : Prop where
  header : locked.header.Fits
  body : ListFits WrapperFits locked.body

theorem inverts_decodeLocked : Inverts decodeLocked encodeLocked LockedBlock.Fits :=
  .ofFields (by simp [encodeLocked]) (by simp [LockedBlock.fits_iff]) <|
    inverts_decodeHeader.field LockedBlock.header fun _ =>
    inverts_body.field LockedBlock.body fun _ =>
    inverts_record fun record => by cases record; simp

@[mk_iff] structure ChainBlock.Fits (block : ChainBlock) : Prop where
  header : block.header.Fits
  certificate : block.certificate.length < 2 ^ 64
  body : ListFits WrapperFits block.body

theorem inverts_decodeChainBlock : Inverts decodeChainBlock encodeChainBlock ChainBlock.Fits :=
  .ofFields (by simp [encodeChainBlock]) (by simp [ChainBlock.fits_iff]) <|
    inverts_decodeHeader.field ChainBlock.header fun _ =>
    inverts_getBytes.field ChainBlock.certificate fun _ =>
    inverts_body.field ChainBlock.body fun _ =>
    inverts_record fun block => by cases block; simp [and_assoc]

theorem chainBlock_least (block : ChainBlock) (_ : block.Fits) :
    minChainBlock ≤ (encodeChainBlock block).length := by
  have body := length_putList Wrapper.encode block.body
  simp only [encodeChainBlock, Header.encode, List.length_append, length_putU64, length_putBytes,
    Chain.length_putRoot, minChainBlock]
  omega

@[mk_iff] structure CommitmentFits (commitment : Commitment) : Prop where
  k : commitment.k < 2 ^ 64
  n : commitment.n < 2 ^ 64
  shardLen : commitment.shardLen < 2 ^ 64
  dataLen : commitment.dataLen < 2 ^ 64

theorem inverts_decodeCommitment : Inverts decodeCommitment encodeCommitment CommitmentFits :=
  .ofFields (by simp [encodeCommitment]) (by simp [commitmentFits_iff]) <|
    inverts_hash.field Commitment.root fun _ =>
    inverts_getUsize.field Commitment.k fun _ =>
    inverts_getUsize.field Commitment.n fun _ =>
    inverts_getUsize.field Commitment.shardLen fun _ =>
    inverts_getUsize.field Commitment.dataLen fun _ =>
    inverts_record fun record => by cases record; simp [and_assoc]

theorem inverts_shardPath :
    Inverts (getList minSibling (readFixed 32)) (putList fun sibling => putBytes sibling.toList)
      (ListFits fun _ => True) := by
  refine inverts_getList (by decide) inverts_hash fun sibling _ => ?_
  rw [length_putBytes, Vector.length_toList, minSibling]

section Messages

variable [Sizes]

@[mk_iff] structure ViewChange.Fits (record : ViewChange) : Prop where
  locked : ∀ locked ∈ record.locked, locked.Fits
  att : record.att.Fits
  polka : ∀ polka ∈ record.polka, polka.Fits

theorem inverts_decodeViewChange : Inverts decodeViewChange encodeViewChange ViewChange.Fits := by
  have blocks := inverts_getFlagged inverts_decodeLocked
  have polkas := inverts_getFlagged inverts_decodeCertificate
  exact .ofFields (by simp [encodeViewChange]) (by simp [ViewChange.fits_iff]) <|
    inverts_getU64.field ViewChange.height fun _ =>
    inverts_getU64.field ViewChange.targetView fun _ =>
    inverts_getU64.field ViewChange.lockView fun _ =>
    blocks.field ViewChange.locked fun _ =>
    inverts_decodeAttestation.field ViewChange.att fun _ =>
    polkas.field ViewChange.polka fun _ =>
    inverts_getPol.field ViewChange.lockPol fun _ =>
    inverts_hash.field ViewChange.polkaDigest fun _ =>
    inverts_record fun record => by cases record; simp [and_assoc]

omit [Sizes] in
theorem flagged_least {α : Type} (put : α → Bytes) (part : Option α) :
    1 ≤ (putFlagged put part).length := by
  cases part <;> simp [putFlagged]

omit [Sizes] in
theorem length_putPol (pol : Option U64) : (putPol pol).length = 9 := by
  cases pol <;> simp [putPol]

theorem viewChange_least (record : ViewChange) (fits : record.Fits) :
    minViewChange ≤ (encodeViewChange record).length := by
  have locked := flagged_least encodeLocked record.locked
  have att := attestation_least record.att fits.att
  have polka := flagged_least encodeCertificate record.polka
  simp only [encodeViewChange, List.length_append, length_putU64, length_putBytes, length_putPol,
    Vector.length_toList, minViewChange, minAttestation] at att ⊢
  omega

theorem inverts_justification :
    Inverts (getList minViewChange decodeViewChange) (putList encodeViewChange)
      (ListFits ViewChange.Fits) :=
  inverts_getList (by decide) inverts_decodeViewChange viewChange_least

@[mk_iff] structure Proposal.Fits (proposal : Proposal) : Prop where
  header : proposal.header.Fits
  body : ListFits WrapperFits proposal.body
  justification : ListFits ViewChange.Fits proposal.justification
  auth : proposal.auth.Fits

theorem inverts_decodeProposal : Inverts decodeProposal encodeProposal Proposal.Fits :=
  .ofFields (by simp [encodeProposal]) (by simp [Proposal.fits_iff]) <|
    inverts_getU64.field Proposal.view fun _ =>
    inverts_decodeHeader.field Proposal.header fun _ =>
    inverts_body.field Proposal.body fun _ =>
    inverts_justification.field Proposal.justification fun _ =>
    inverts_decodeAttestation.field Proposal.auth fun _ =>
    inverts_record fun record => by cases record; simp [and_assoc]

@[mk_iff] structure CodedProposal.Fits (coded : CodedProposal) : Prop where
  header : coded.header.Fits
  commitment : CommitmentFits coded.commitment
  index : coded.shard.index < 2 ^ 64
  bytes : coded.shard.bytes.length < 2 ^ 64
  siblings : coded.proof.siblings.length < 2 ^ 64
  auth : coded.auth.Fits

theorem inverts_decodeCodedProposal :
    Inverts decodeCodedProposal encodeCodedProposal CodedProposal.Fits :=
  .ofFields (by simp [encodeCodedProposal]) (by simp [CodedProposal.fits_iff, ListFits]) <|
    inverts_getU64.field CodedProposal.view fun _ =>
    inverts_decodeHeader.field CodedProposal.header fun _ =>
    inverts_decodeCommitment.field CodedProposal.commitment fun _ =>
    inverts_getUsize.field (fun coded => coded.shard.index) fun _ =>
    inverts_getBytes.field (fun coded => coded.shard.bytes) fun _ =>
    inverts_shardPath.field (fun coded => coded.proof.siblings) fun _ =>
    inverts_decodeAttestation.field CodedProposal.auth fun _ =>
    inverts_record fun ⟨_, _, _, ⟨_, _⟩, ⟨_⟩, _⟩ => by simp [and_assoc]

/-! ## Notes -/

theorem inverts_decodePrevote :
    Inverts decodePrevote encodePrevote fun prevote => prevote.att.Fits :=
  .ofFields (by simp [encodePrevote]) (by simp) <|
    inverts_decodeAttestation.field PrevoteNote.att fun _ =>
    inverts_getValue.field PrevoteNote.value fun _ =>
    inverts_getPol.field PrevoteNote.pol fun _ =>
    inverts_record fun record => by cases record; simp [and_assoc]

def PeerEntry.Fits (entry : PeerEntry) : Prop := (asBytes entry.address).length < 2 ^ 64

theorem inverts_decodePeer : Inverts decodePeer encodePeer PeerEntry.Fits := by
  have keys := inverts_readFixed Sizes.key_word
  exact .ofFields (by simp [encodePeer]) (by simp [PeerEntry.Fits]) <|
    keys.field PeerEntry.key fun _ =>
    inverts_readText.field PeerEntry.address fun _ =>
    inverts_record fun record => by cases record; simp

theorem peer_least (entry : PeerEntry) (_ : entry.Fits) : minPeer ≤ (encodePeer entry).length := by
  have key := Sizes.key_least
  simp only [encodePeer, List.length_append, length_putBytes, Vector.length_toList, minPeer]
  omega

theorem inverts_decodeRevealNote :
    Inverts decodeRevealNote encodeRevealNote fun note => note.credential.Fits :=
  .ofFields (by simp [encodeRevealNote]) (by simp) <|
    inverts_getU64.field RevealNote.height fun _ =>
    inverts_getU64.field RevealNote.id fun _ =>
    inverts_decodeCredential.field RevealNote.credential fun _ =>
    inverts_record fun record => by cases record; simp [and_assoc]

theorem inverts_decodeRegisterNote :
    Inverts decodeRegisterNote encodeRegisterNote fun _ => True := by
  have digests := inverts_readFixed Sizes.node_word
  have signatures := inverts_readFixed Sizes.signature_word
  exact .ofFields (by simp [encodeRegisterNote]) (by simp) <|
    inverts_getU64.field RegisterNote.height fun _ =>
    inverts_getU64.field RegisterNote.id fun _ =>
    inverts_getU64.field RegisterNote.epoch fun _ =>
    digests.field (fun note => note.root.digest) fun _ =>
    inverts_getU64.field (fun note => note.root.slots) fun _ =>
    signatures.field RegisterNote.sig fun _ =>
    inverts_record fun ⟨_, _, _, ⟨_, _⟩, _⟩ => by simp [and_assoc]

/-! ## Messages -/

/-- The limits on a message. -/
def Message.Fits : Message → Prop
  | .tx wrapper => WrapperFits wrapper
  | .proposal proposed => proposed.Fits
  | .codedProposal coded => coded.Fits
  | .attest attestation => attestation.Fits
  | .prevote note => note.att.Fits
  | .peers entries => ListFits PeerEntry.Fits entries
  | .status _ => True
  | .getBlocks _ _ => True
  | .blocks found => ListFits ChainBlock.Fits found
  | .viewChange record => record.Fits
  | .reveal note => note.credential.Fits
  | .register _ => True

section Kinds

variable {α : Type} {kind : α → Message} {tag : UInt8} {decoder : WireDecoder α}
  {write : α → Bytes} {fits : α → Prop} {input rest : Bytes} {message : Message}

/-- What is read as a message of a kind is what the encoder writes after the tag of the kind. -/
theorem kind_sound (inverts : Inverts decoder write fits)
    (encoded : ∀ value, (kind value).encode = putU8 tag ++ write value)
    (fit : ∀ value, fits value → (kind value).Fits)
    (reads : Reads (kind <$> decoder) input message rest) :
    message.Fits ∧ putU8 tag ++ input = message.encode ++ rest := by
  obtain ⟨value, found, rfl⟩ := reads_map.mp reads
  obtain ⟨fitting, rfl⟩ := (inverts input value rest).mp found
  exact ⟨fit value fitting, by rw [encoded, List.append_assoc]⟩

theorem kind_complete (inverts : Inverts decoder write fits) {value : α} (fitting : fits value) :
    Reads (kind <$> decoder) (write value ++ rest) (kind value) rest :=
  reads_map.mpr ⟨value, (inverts _ value rest).mpr ⟨fitting, rfl⟩, rfl⟩

end Kinds

theorem inverts_peers :
    Inverts (getList minPeer decodePeer) (putList encodePeer) (ListFits PeerEntry.Fits) :=
  inverts_getList (by decide) inverts_decodePeer peer_least

omit [Sizes] in
theorem inverts_blocks :
    Inverts (getList minChainBlock decodeChainBlock) (putList encodeChainBlock)
      (ListFits ChainBlock.Fits) :=
  inverts_getList (by decide) inverts_decodeChainBlock chainBlock_least

/-- A message read after its tag keeps to the limits, and the tag and its bytes are its encoding. -/
theorem decodeTagged_sound {tag : UInt8} {input rest : Bytes} {message : Message}
    (reads : Reads (decodeTagged tag) input message rest) :
    message.Fits ∧ putU8 tag ++ input = message.encode ++ rest := by
  obtain rfl | isTx := eq_or_ne tag tagTx
  · exact kind_sound inverts_decodeWrapper (fun _ => rfl) (fun _ => id) reads
  obtain rfl | isProposal := eq_or_ne tag tagProposal
  · exact kind_sound inverts_decodeProposal (fun _ => rfl) (fun _ => id) reads
  obtain rfl | isCodedProposal := eq_or_ne tag tagCodedProposal
  · exact kind_sound inverts_decodeCodedProposal (fun _ => rfl) (fun _ => id) reads
  obtain rfl | isAttest := eq_or_ne tag tagAttest
  · exact kind_sound inverts_decodeAttestation (fun _ => rfl) (fun _ => id) reads
  obtain rfl | isPrevote := eq_or_ne tag tagPrevote
  · exact kind_sound inverts_decodePrevote (fun _ => rfl) (fun _ => id) reads
  obtain rfl | isPeers := eq_or_ne tag tagPeers
  · exact kind_sound inverts_peers (fun _ => rfl) (fun _ => id) reads
  obtain rfl | isStatus := eq_or_ne tag tagStatus
  · exact kind_sound inverts_getU64 (fun _ => rfl) (fun _ => id) reads
  obtain rfl | isGetBlocks := eq_or_ne tag tagGetBlocks
  · have parts : Reads (do
        let first ← getU64
        let last ← getU64
        return Message.getBlocks first last : WireDecoder Message) input message rest := reads
    simp only [inverts_getU64.reads_bind, reads_pure] at parts
    obtain ⟨first, _, -, rfl, last, _, -, rfl, rfl, rfl⟩ := parts
    exact ⟨trivial, by simp [Message.encode]⟩
  obtain rfl | isBlocks := eq_or_ne tag tagBlocks
  · exact kind_sound inverts_blocks (fun _ => rfl) (fun _ => id) reads
  obtain rfl | isViewChange := eq_or_ne tag tagViewChange
  · exact kind_sound inverts_decodeViewChange (fun _ => rfl) (fun _ => id) reads
  obtain rfl | isReveal := eq_or_ne tag tagReveal
  · exact kind_sound inverts_decodeRevealNote (fun _ => rfl) (fun _ => id) reads
  obtain rfl | isRegister := eq_or_ne tag tagRegister
  · exact kind_sound inverts_decodeRegisterNote (fun _ => rfl) (fun _ => id) reads
  rw [decodeTagged, if_neg isTx, if_neg isProposal, if_neg isCodedProposal, if_neg isAttest,
    if_neg isPrevote, if_neg isPeers, if_neg isStatus, if_neg isGetBlocks, if_neg isBlocks,
    if_neg isViewChange, if_neg isReveal, if_neg isRegister] at reads
  exact absurd reads reads_throw

theorem inverts_message :
    Inverts (do decodeTagged (← getU8)) Message.encode Message.Fits := by
  intro input message rest
  constructor
  · rw [inverts_getU8.reads_bind]
    rintro ⟨tag, middle, -, rfl, reads⟩
    exact decodeTagged_sound reads
  · rintro ⟨fits, rfl⟩
    cases message <;> simp only [Message.encode, List.append_assoc] <;>
      refine inverts_getU8.andThen trivial ?_
    case tx => exact kind_complete inverts_decodeWrapper fits
    case proposal => exact kind_complete inverts_decodeProposal fits
    case codedProposal => exact kind_complete inverts_decodeCodedProposal fits
    case attest => exact kind_complete inverts_decodeAttestation fits
    case prevote => exact kind_complete inverts_decodePrevote fits
    case peers => exact kind_complete inverts_peers fits
    case status => exact kind_complete inverts_getU64 fits
    case getBlocks first last =>
      refine inverts_getU64.andThen trivial ?_
      exact inverts_getU64.andThen trivial (reads_pure.mpr ⟨rfl, rfl⟩)
    case blocks => exact kind_complete inverts_blocks fits
    case viewChange => exact kind_complete inverts_decodeViewChange fits
    case reveal => exact kind_complete inverts_decodeRevealNote fits
    case register => exact kind_complete inverts_decodeRegisterNote fits

omit [Sizes] in
/-- A decoder that inverts its encoder accepts exactly the encodings, when it must end with its
input. -/
theorem decodeWhole_eq_ok {α : Type} {decoder : WireDecoder α} {write : α → Bytes}
    {fits : α → Prop} (inverts : Inverts decoder write fits) {bytes : Bytes} {value : α} :
    decodeWhole decoder bytes = .ok value ↔ fits value ∧ bytes = write value := by
  refine Iff.trans run'_eq_pure ?_
  simp only [inverts.reads_bind, reads_bind, reads_finish, reads_pure]
  constructor
  · rintro ⟨_, found, _, fitting, rfl, _, _, ⟨rfl, rfl⟩, rfl, rfl⟩
    exact ⟨fitting, List.append_nil _⟩
  · rintro ⟨fitting, rfl⟩
    exact ⟨[], value, [], fitting, (List.append_nil _).symm, (), [], ⟨rfl, rfl⟩, rfl, rfl⟩

omit [Sizes] in
/-- Blocks that are stored or coded have one encoding. -/
theorem chainBlockFromBytes_eq_ok {bytes : Bytes} {block : ChainBlock} :
    chainBlockFromBytes bytes = .ok block ↔ block.Fits ∧ bytes = encodeChainBlock block :=
  decodeWhole_eq_ok inverts_decodeChainBlock

/-- Justifications have one encoding, and none at all stands for no records. -/
theorem justificationFromBytes_eq_ok {bytes : Bytes} {records : List ViewChange} :
    justificationFromBytes bytes = .ok records ↔
      ListFits ViewChange.Fits records ∧ bytes = justificationToBytes records := by
  have whole : decodeWhole (getSome minViewChange decodeViewChange) bytes = .ok records ↔
      (records ≠ [] ∧ ListFits ViewChange.Fits records) ∧ bytes = putList encodeViewChange records :=
    decodeWhole_eq_ok (inverts_getSome (by decide) inverts_decodeViewChange viewChange_least)
  unfold justificationFromBytes justificationToBytes
  by_cases empty : bytes = []
  · rw [if_pos empty]
    constructor
    · intro read
      cases read
      exact ⟨⟨Nat.two_pow_pos 64, fun _ none => absurd none List.not_mem_nil⟩, empty⟩
    · rintro ⟨-, written⟩
      split at written
      next none => rw [none]
      next =>
        have size := length_putList encodeViewChange records
        rw [← written, empty] at size
        exact absurd size (by decide)
  · rw [if_neg empty, whole]
    constructor
    · rintro ⟨⟨some, fits⟩, written⟩
      exact ⟨fits, by rw [if_neg some, written]⟩
    · rintro ⟨fits, written⟩
      split at written
      next => exact absurd written empty
      next some => exact ⟨⟨some, fits⟩, written⟩

/-- Bytes that decode are the encoding of what they decode to, and a message within the limits is
decoded from its encoding. Each reader inverts its encoder, from the fields up. -/
theorem message_codec_canonical :
    (∀ bytes message, Message.decode bytes = .ok message → message.encode = bytes) ∧
      ∀ message : Message, message.Fits → Message.decode message.encode = .ok message := by
  constructor
  · intro bytes message decoded
    exact ((decodeWhole_eq_ok inverts_message).mp decoded).2.symm
  · intro message fits
    exact (decodeWhole_eq_ok inverts_message).mpr ⟨fits, rfl⟩

end Messages

/-- The least sizes that the format allows for. -/
@[reducible] def leastSizes : Sizes :=
  { Platform.blank with
    mlDsaSignatureBytes := 3309
    mlDsaPublicKeyBytes := 1952
    nodeBytes := 32
    preimageBytes := 32
    node_least := by decide
    node_word := by decide
    preimage_least := by decide
    preimage_word := by decide
    signature_least := by decide
    signature_word := by decide
    key_least := by decide
    key_word := by decide }

/-- The address of a payload of equal bytes. -/
def sampleAddress (byte : UInt8) : Idfmt.Text :=
  Idfmt.render Idfmt.hrpAddress (List.replicate 32 byte)

/-- A transfer of nothing by the holder of an address. -/
def sampleTransfer (sender : Idfmt.Text) : Wrapper :=
  ⟨⟨sender, 0, 0, 0, 0, 0, ⟨sampleAddress 2, []⟩, none, 0, Tx.kindTransfer⟩, Tx.schemeLattice, []⟩

theorem sampleTransfer_fits : WrapperFits (sampleTransfer (sampleAddress 1)) where
  sender := ⟨List.replicate 32 1, renderAddress_eq_ok.mpr ⟨rfl, rfl⟩⟩
  target := ⟨List.replicate 32 2, renderAddress_eq_ok.mpr ⟨rfl, rfl⟩⟩
  args := by decide
  scheme := rfl
  signature := by decide

/-- A transfer between two addresses in canonical spelling is decoded from its encoding, and the
bytes decode to nothing else. -/
theorem message_codec_canonical_transfer :
    letI := leastSizes
    WrapperFits (sampleTransfer (sampleAddress 1)) ∧
      Message.decode (Message.tx (sampleTransfer (sampleAddress 1))).encode =
        .ok (.tx (sampleTransfer (sampleAddress 1))) := by
  let := leastSizes
  exact ⟨sampleTransfer_fits, message_codec_canonical.2 _ sampleTransfer_fits⟩

/-- An address in lower case parses, and its transfer is decoded with the address in upper case. -/
theorem lowercase_sender_respelled :
    letI := leastSizes
    let lower := (sampleAddress 1).map Idfmt.toAsciiLowercase
    (Idfmt.parseAddress lower).isOk = true ∧
      (Idfmt.parseAddress (sampleTransfer lower).body.call.target).isOk = true ∧
      Tx.schemeSupported (sampleTransfer lower).scheme = true ∧
      Message.decode (Message.tx (sampleTransfer lower)).encode =
        .ok (.tx (sampleTransfer (sampleAddress 1))) ∧
      Message.decode (Message.tx (sampleTransfer lower)).encode ≠
        .ok (.tx (sampleTransfer lower)) := by
  let := leastSizes
  intro lower
  have parsed : (Idfmt.parseAddress lower).toOption = some (List.replicate 32 1) := by
    decide +kernel
  have spelled : lower ≠ sampleAddress 1 := by decide +kernel
  have accepted : Idfmt.parseAddress lower = .ok (List.replicate 32 1) := by
    cases found : Idfmt.parseAddress lower with
    | error error => rw [found] at parsed; cases parsed
    | ok payload => rw [found] at parsed; cases parsed; rfl
  have same : (Message.tx (sampleTransfer lower)).encode =
      (Message.tx (sampleTransfer (sampleAddress 1))).encode := by
    have sender : Tx.putAddress lower = Tx.putAddress (sampleAddress 1) := by
      rw [sampleAddress, putAddress_of_render (renderAddress_eq_ok.mpr ⟨rfl, rfl⟩), Tx.putAddress,
        accepted]
    simp only [Message.encode, Wrapper.encode, Tx.Body.encode, sampleTransfer, sender]
  have decoded : Message.decode (Message.tx (sampleTransfer lower)).encode =
      .ok (.tx (sampleTransfer (sampleAddress 1))) := by
    rw [same]
    exact (decodeWhole_eq_ok inverts_message).mpr ⟨sampleTransfer_fits, rfl⟩
  refine ⟨by rw [accepted]; rfl, ?_, rfl, decoded, ?_⟩
  · change (Idfmt.parseAddress (Idfmt.render Idfmt.hrpAddress (List.replicate 32 2))).isOk = true
    rw [Idfmt.parseAddress_render rfl]
    rfl
  · rw [decoded]
    intro both
    injection both with both
    injection both with both
    exact spelled (congrArg (fun wrapper => wrapper.body.sender) both).symm

end QuantovaChain.Wire
