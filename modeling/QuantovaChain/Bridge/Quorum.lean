import QuantovaChain.Bridge.Codec

/-!
# Quorums of operators

A statement about the other chain, a deposit to mint for or the outcome of an exit, counts when
enough operators with distinct keys signed it. The count goes over the first signature of every
operator, takes each key once, and leaves revoked operators out. Every message spells out its
statement and every context its direction and era, so a signature counts for one statement only.

The number of keys is compared as a word of 32 bits, and a threshold of zero is never met. Both are
excluded where a quorum is shown to be enough.
-/

namespace QuantovaChain.Bridge

open State (Bytes Hash)
open Codec Codec.Reader Reading

/-! ## Statements -/

/-- What operators sign. -/
inductive Statement
  | mint (fact : Fact) (chainId : U64) (era : Hash)
  | exitAck (fact : ExitFact) (chainId : U64) (era : Hash)

namespace Statement

def message : Statement → Bytes
  | mint fact chainId _ => fact.attestPreimage chainId
  | exitAck fact chainId _ => fact.ackPreimage chainId

def context : Statement → Bytes
  | mint _ _ era => attestContext era
  | exitAck _ _ era => exitAckContext era

theorem preimage_injective {α : Type} {read : Reader α} {encode : α → Bytes}
    (inverts : Inverts read encode fun _ => True) {domain : Bytes} {first second : α}
    {chainId otherChain : U64}
    (same : domain ++ encode first ++ putU64 chainId = domain ++ encode second ++ putU64 otherChain) :
    first = second ∧ chainId = otherChain := by
  simp only [List.append_assoc] at same
  obtain ⟨rfl, chains⟩ := inverts.injective trivial trivial (List.append_cancel_left same)
  rw [← List.append_nil (putU64 chainId), ← List.append_nil (putU64 otherChain)] at chains
  exact ⟨rfl, (inverts_u64.injective trivial trivial chains).1⟩

/-- The message and the context determine the statement. -/
theorem signed_injective {first second : Statement} (messages : first.message = second.message)
    (contexts : first.context = second.context) : first = second := by
  have directions (era other : Hash) : attestContext era ≠ exitAckContext other := fun same => by
    have lengths := congrArg List.length same
    simp only [attestContext, exitAckContext, List.length_append, Vector.length_toList] at lengths
    exact absurd lengths (by decide)
  cases first <;> cases second
  case mint.mint =>
    obtain ⟨rfl, rfl⟩ := preimage_injective Fact.inverts_read messages
    rw [Vector.toList_inj.mp (List.append_cancel_left contexts)]
  case mint.exitAck => exact absurd contexts (directions _ _)
  case exitAck.mint => exact absurd contexts.symm (directions _ _)
  case exitAck.exitAck =>
    obtain ⟨rfl, rfl⟩ := preimage_injective ExitFact.inverts_read messages
    rw [Vector.toList_inj.mp (List.append_cancel_left contexts)]

end Statement

/-! ## Counting -/

/-- The first signature of every operator that was not tried before. -/
def firstTries : List SignerSig → List U32 → List SignerSig
  | [], _ => []
  | signer :: rest, attempted =>
    if signer.operatorId ∈ attempted then firstTries rest attempted
    else signer :: firstTries rest (signer.operatorId :: attempted)

theorem firstTries_subset (signatures : List SignerSig) (attempted : List U32) :
    firstTries signatures attempted ⊆ signatures := by
  induction signatures generalizing attempted with
  | nil => simp [firstTries]
  | cons signer rest hypothesis =>
    unfold firstTries
    split
    next => exact List.Subset.trans (hypothesis _) (List.subset_cons_self ..)
    next => exact List.cons_subset_cons _ (hypothesis _)

/-- When no operator signs twice, every signature is tried. -/
theorem firstTries_eq {signatures : List SignerSig} {attempted : List U32}
    (once : (signatures.map SignerSig.operatorId).Nodup)
    (untried : ∀ signer ∈ signatures, signer.operatorId ∉ attempted) :
    firstTries signatures attempted = signatures := by
  induction signatures generalizing attempted with
  | nil => rfl
  | cons signer rest hypothesis =>
    rw [List.map_cons, List.nodup_cons] at once
    rw [firstTries, if_neg (untried signer List.mem_cons_self), hypothesis once.2]
    intro later among
    grind

section Quorum

variable [Platform]

/-- A signature is good for one message in one context at most. -/
def SignaturesBind : Prop :=
  ∀ (key signature first firstContext second secondContext : Bytes),
    signs key first signature firstContext = true →
      signs key second signature secondContext = true →
        first = second ∧ firstContext = secondContext

/-- A key of an operator that is not revoked signed the statement, and signed nothing else by it. -/
def SignedBy (set : OperatorSet) (signatures : List SignerSig) (statement : Statement)
    (key : Bytes) : Prop :=
  ∃ signer ∈ signatures, set.publicKey signer.operatorId = some key ∧
    signs key statement.message signer.signature statement.context = true ∧
    ∀ other : Statement, signs key other.message signer.signature other.context = true →
      other = statement

/-- As many distinct keys as the threshold asks for signed the statement. -/
def HasQuorum (set : OperatorSet) (signatures : List SignerSig) (statement : Statement) : Prop :=
  ∃ keys : List Bytes, keys.Nodup ∧ set.threshold.val ≤ keys.length ∧
    ∀ key ∈ keys, SignedBy set signatures statement key

/-- What is counted: each key once, with the first signature of an operator. -/
theorem countedKeys_spec (set : OperatorSet) (message context : Bytes) (signatures : List SignerSig)
    (attempted : List U32) (counted : List Bytes) (distinct : counted.Nodup) :
    (countedKeys set message context signatures attempted counted).Nodup ∧
      ∀ key, key ∈ countedKeys set message context signatures attempted counted ↔
        key ∈ counted ∨ ∃ signer ∈ firstTries signatures attempted,
          set.publicKey signer.operatorId = some key ∧
            signs key message signer.signature context = true := by
  induction signatures generalizing attempted counted with
  | nil => simp [countedKeys, firstTries, distinct]
  | cons signer rest hypothesis =>
    unfold countedKeys firstTries
    simp only [List.contains_iff_mem]
    split
    next => exact hypothesis attempted counted distinct
    next =>
      split
      next unknown =>
        have later := hypothesis (signer.operatorId :: attempted) counted distinct
        grind
      next key known =>
        split
        next counts =>
          have later := hypothesis (signer.operatorId :: attempted) (key :: counted) (by grind)
          grind
        next =>
          have later := hypothesis (signer.operatorId :: attempted) counted distinct
          grind

variable {set : OperatorSet} {signatures : List SignerSig}

theorem quorumSigns_iff {message context : Bytes} :
    quorumSigns set signatures message context = true ↔
      signatures.length ≤ set.operators.length ∧
        set.threshold.val ≤ (countedKeys set message context signatures [] []).length % 2 ^ 32 := by
  simp [quorumSigns]

/-- No more keys are counted than there are signatures. -/
theorem length_countedKeys (set : OperatorSet) (message context : Bytes)
    (signatures : List SignerSig) (attempted : List U32) (counted : List Bytes) :
    (countedKeys set message context signatures attempted counted).length ≤
      counted.length + signatures.length := by
  fun_induction countedKeys set message context signatures attempted counted <;> grind

theorem quorumSigns_sound (binds : SignaturesBind) {statement : Statement}
    (enough : quorumSigns set signatures statement.message statement.context = true) :
    HasQuorum set signatures statement := by
  obtain ⟨-, counted⟩ := quorumSigns_iff.mp enough
  obtain ⟨distinct, member⟩ := countedKeys_spec set statement.message statement.context signatures
    [] [] List.nodup_nil
  refine ⟨_, distinct, counted.trans (Nat.mod_le ..), fun key among => ?_⟩
  obtain none | ⟨signer, tried, known, valid⟩ := (member key).mp among
  · cases none
  · refine ⟨signer, firstTries_subset _ _ tried, known, valid, fun other validAgain => ?_⟩
    obtain ⟨messages, contexts⟩ := binds _ _ _ _ _ _ validAgain valid
    exact Statement.signed_injective messages contexts

theorem quorumSigns_complete {statement : Statement} (small : set.operators.length < 2 ^ 32)
    (few : signatures.length ≤ set.operators.length)
    (once : (signatures.map SignerSig.operatorId).Nodup)
    (quorum : HasQuorum set signatures statement) :
    quorumSigns set signatures statement.message statement.context = true := by
  obtain ⟨keys, distinct, enough, signed⟩ := quorum
  have within := length_countedKeys set statement.message statement.context signatures [] []
  have among : keys ⊆ countedKeys set statement.message statement.context signatures [] [] := by
    intro key present
    obtain ⟨signer, given, known, valid, -⟩ := signed key present
    refine ((countedKeys_spec _ _ _ _ _ _ List.nodup_nil).2 key).mpr (.inr ⟨signer, ?_, known, valid⟩)
    rwa [firstTries_eq once fun _ _ => List.not_mem_nil]
  have covered := (distinct.subperm among).length_le
  rw [List.length_nil] at within
  exact quorumSigns_iff.mpr ⟨few, by omega⟩

omit [Platform] in
/-- A revocation takes no key in. -/
theorem publicKey_revoked {revoked : List U32} (more : set.revoked ⊆ revoked)
    {operatorId : U32} {key : Bytes}
    (known : OperatorSet.publicKey { set with revoked } operatorId = some key) :
    set.publicKey operatorId = some key := by
  unfold OperatorSet.publicKey OperatorSet.isRevoked at known ⊢
  grind

theorem quorumSigns_revoked {revoked : List U32} (more : set.revoked ⊆ revoked)
    (small : set.operators.length < 2 ^ 32) {message context : Bytes}
    (enough : quorumSigns { set with revoked } signatures message context = true) :
    quorumSigns set signatures message context = true := by
  obtain ⟨few, counted⟩ := quorumSigns_iff.mp enough
  obtain ⟨distinct, member⟩ :=
    countedKeys_spec { set with revoked } message context signatures [] [] List.nodup_nil
  have within := length_countedKeys set message context signatures [] []
  have among : countedKeys { set with revoked } message context signatures [] [] ⊆
      countedKeys set message context signatures [] [] := by
    intro key present
    obtain none | ⟨signer, tried, known, valid⟩ := (member key).mp present
    · cases none
    · exact ((countedKeys_spec _ _ _ _ _ _ List.nodup_nil).2 key).mpr
        (.inr ⟨signer, tried, publicKey_revoked more known, valid⟩)
  have covered := (distinct.subperm among).length_le
  have reduced := Nat.mod_le
    (countedKeys { set with revoked } message context signatures [] []).length (2 ^ 32)
  rw [List.length_nil] at within
  refine quorumSigns_iff.mpr ⟨few, ?_⟩
  simp only at few counted
  omega

/-- What is accepted has a quorum of signatures for this statement and no other. With a threshold
above zero and fewer than `2 ^ 32` operators, a quorum is also enough for a well formed fact with
this destination, which for a mint is a deposit, and further revocations never help. The keys that
are counted are those that signed, each once, and a revocation only takes keys away. -/
theorem bridge_quorums (binds : SignaturesBind) (set : OperatorSet) (destChain : U32)
    (chainId : U64) (era : Hash) :
    (∀ attestation : Attestation, quorumAttests set attestation destChain chainId era = true →
        HasQuorum set attestation.signatures (.mint attestation.fact chainId era)) ∧
      (∀ attestation : ExitAttestation,
        exitQuorumAttests set attestation destChain chainId era = true →
          HasQuorum set attestation.signatures (.exitAck attestation.fact chainId era)) ∧
      (set.operators.length < 2 ^ 32 → set.threshold ≠ 0 →
        (∀ attestation : Attestation, attestation.fact.wellFormed = true →
          attestation.fact.destChain = destChain → attestation.fact.direction = .deposit →
          attestation.signatures.length ≤ set.operators.length →
          (attestation.signatures.map SignerSig.operatorId).Nodup →
          HasQuorum set attestation.signatures (.mint attestation.fact chainId era) →
            quorumAttests set attestation destChain chainId era = true) ∧
        ∀ attestation : ExitAttestation, attestation.fact.wellFormed = true →
          attestation.fact.destChain = destChain →
          attestation.signatures.length ≤ set.operators.length →
          (attestation.signatures.map SignerSig.operatorId).Nodup →
          HasQuorum set attestation.signatures (.exitAck attestation.fact chainId era) →
            exitQuorumAttests set attestation destChain chainId era = true) ∧
      (set.operators.length < 2 ^ 32 → ∀ revoked, set.revoked ⊆ revoked →
        (∀ attestation,
          quorumAttests { set with revoked } attestation destChain chainId era = true →
            quorumAttests set attestation destChain chainId era = true) ∧
        ∀ attestation,
          exitQuorumAttests { set with revoked } attestation destChain chainId era = true →
            exitQuorumAttests set attestation destChain chainId era = true) := by
  refine ⟨fun attestation accepted => ?_, fun attestation accepted => ?_, fun small positive =>
    ⟨fun attestation formed here deposit few once quorum => ?_,
      fun attestation formed here few once quorum => ?_⟩, fun small revoked more =>
    ⟨fun attestation accepted => ?_, fun attestation accepted => ?_⟩⟩
  · exact quorumSigns_sound binds (Bool.and_eq_true_iff.mp accepted).2
  · exact quorumSigns_sound binds (Bool.and_eq_true_iff.mp accepted).2
  · have signed : quorumSigns set attestation.signatures (attestation.fact.attestPreimage chainId)
        (attestContext era) = true := quorumSigns_complete small few once quorum
    simpa [quorumAttests, positive, formed, here, deposit] using signed
  · have signed : quorumSigns set attestation.signatures (attestation.fact.ackPreimage chainId)
        (exitAckContext era) = true := quorumSigns_complete small few once quorum
    simpa [exitQuorumAttests, positive, formed, here] using signed
  · simp only [quorumAttests, Bool.and_eq_true] at accepted ⊢
    exact ⟨accepted.1, quorumSigns_revoked more small accepted.2⟩
  · simp only [exitQuorumAttests, Bool.and_eq_true] at accepted ⊢
    exact ⟨accepted.1, quorumSigns_revoked more small accepted.2⟩

end Quorum

/-- Signatures that are the context and the message. -/
@[reducible] def spelledSignatures : Platform :=
  { Platform.blank with
    mlDsaPublicKeyBytes := 1
    mlDsaSignatureBytes := 232
    mlDsaVerify := fun _ message signature context =>
      context.length == 59 && signature == context ++ message }

theorem spelledSignatures_bind : @SignaturesBind spelledSignatures := by
  have spelled (key message signature context : Bytes)
      (valid : @signs spelledSignatures key message signature context = true) :
      context.length = 59 ∧ signature = context ++ message := by
    have verified : (context.length == 59 && signature == context ++ message) = true :=
      (Bool.and_eq_true_iff.mp valid).2
    simpa using verified
  intro key signature first firstContext second secondContext valid validAgain
  obtain ⟨sized, rfl⟩ := spelled _ _ _ _ valid
  obtain ⟨sizedAgain, same⟩ := spelled _ _ _ _ validAgain
  exact (List.append_inj same (sized.trans sizedAgain.symm)).symm

/-- A deposit of one unit. -/
def sampleDeposit : Fact :=
  ⟨1, 1, 2, 0, .deposit, 0, Vector.replicate 32 1, Vector.replicate 16 1, 1, Vector.replicate 32 1,
    0, 0, 0⟩

/-- Two operators signed a deposit, in the other order. -/
theorem two_operators_attest :
    letI := spelledSignatures
    let era : Hash := Vector.replicate 32 0
    let signature := attestContext era ++ sampleDeposit.attestPreimage 7
    HasQuorum ⟨[(1, [1]), (2, [2])], 2, []⟩ [⟨2, signature⟩, ⟨1, signature⟩]
      (.mint sampleDeposit 7 era) :=
  (@bridge_quorums spelledSignatures spelledSignatures_bind _ 2 7 (Vector.replicate 32 0)).1
    ⟨sampleDeposit, _⟩ (by decide +kernel)

/-- With a threshold of zero nobody has to sign, and nothing is accepted. -/
theorem zero_threshold_refuses :
    letI := Platform.blank
    ∃ (set : OperatorSet) (attestation : Attestation) (era : Hash),
      attestation.fact.wellFormed = true ∧ attestation.fact.destChain = 2 ∧
        attestation.fact.direction = .deposit ∧
        attestation.signatures.length ≤ set.operators.length ∧
        (attestation.signatures.map SignerSig.operatorId).Nodup ∧
        HasQuorum set attestation.signatures (.mint attestation.fact 7 era) ∧
        quorumAttests set attestation 2 7 era = false := by
  refine ⟨⟨[], 0, []⟩, ⟨sampleDeposit, []⟩, Vector.replicate 32 0, by decide, rfl, rfl, by decide,
    List.nodup_nil, ⟨[], List.nodup_nil, Nat.le_refl _, nofun⟩, rfl⟩

end QuantovaChain.Bridge
