import QuantovaChain.Codec.Reader
import QuantovaChain.Ledger.Enactment
import QuantovaChain.Node.Lanes

/-!
# Approvals of guardians

What guardians sign for an act spells out the chain, the era, the operation, the bound, the targets
and the payload. Approvals of one act are no approvals of another: an act that is read has few
targets, so that their number fits the word it is written in.
-/

namespace QuantovaChain.Node

open State (Bytes Hash)
open Codec Codec.Reader Reading
open Governance (Id GuardianSet)

/-! ## Approvals -/

theorem inverts_readBounded {α : Type} {element : Reader α} {write : α → Bytes} {fits : α → Prop}
    (inverts : Inverts element write fits) {most : Nat} (word : most < 2 ^ 32) :
    Inverts (readBounded element most)
      (fun values => putU32 (Word.wrap 32 values.length) ++ values.flatMap write) fun values =>
      True ∧ values.length ≤ most ∧ ∀ value ∈ values, fits value := by
  refine inverts_u32.headed fun count => ?_
  split
  next many =>
    refine fun input values rest => iff_of_false reads_failure ?_
    rintro ⟨⟨rfl, few, -⟩, -⟩
    exact absurd few (not_le.mpr (many.trans_le (Nat.mod_le ..)))
  next few =>
    refine (inverts_counted inverts count).congr (fun values => ?_) fun _ _ => rfl
    refine and_congr_right fun same => and_congr_left fun _ => ⟨fun least => least.trans_lt word, ?_⟩
    intro short
    rw [Word.eq_wrap_iff.mp ⟨same, short⟩]
    exact not_lt.mp few

/-- No act that is read has more targets than the limit. -/
theorem decode_targets {bytes : Bytes} {act : GuardianAct}
    (decoded : GuardianAct.decode bytes = some act) : act.targets.length ≤ maxGuardianTargets := by
  have reads := whole_iff_reads.mp decoded
  have element : Inverts (sizedArray 32) (fun id => putBytes id.toList) fun _ => True :=
    inverts_sizedArray (by decide)
  have bounded : maxGuardianTargets < 2 ^ 32 := by decide
  simp only [Reading.reads_bind, inverts_readBounded element bounded _ _ _] at reads
  obtain ⟨op, _, -, bound, _, -, targets, _, ⟨⟨-, few, -⟩, -⟩, approvals, _, -, payload, _, -, last⟩ :=
    reads
  split at last
  · exact absurd last reads_failure
  · obtain ⟨rfl, -⟩ := reads_pure.mp last
    exact few

section Approvals

variable [Platform]

/-- The approvers are distinct members, each of which signed the message. -/
theorem approvers_spec (set : GuardianSet) (message : Bytes) (approvals : List GuardianApproval)
    (attempted : List Id) :
    (approvers set message approvals attempted).Nodup ∧
      ∀ id ∈ approvers set message approvals attempted, id ∉ attempted ∧ id ∈ set.members ∧
        ∃ approval ∈ approvals, guardianMemberId approval.scheme approval.publicKey = some id ∧
          guardianSignatureOk approval message = true := by
  induction approvals generalizing attempted with
  | nil => simp [approvers]
  | cons approval rest hypothesis =>
    unfold approvers
    split
    next => grind
    next id known =>
      split
      next => grind
      next fresh =>
        split
        next counted =>
          simp only [GuardianSet.isMember, Bool.and_eq_true, List.contains_iff_mem] at counted fresh
          grind
        next => grind

/-- What the approvals of an act are bound to. -/
def signedParts (chainId : U64) (era : Hash) (act : GuardianAct) :
    U64 × Hash × UInt8 × U64 × List Id × Bytes :=
  (chainId, era, act.op, act.bound, act.targets, act.payload)

omit [Platform] in
/-- The challenge spells out everything that the approvals are bound to. -/
theorem guardianChallenge_injective {firstChain secondChain : U64} {firstEra secondEra : Hash}
    {first second : GuardianAct} (few : first.targets.length < 2 ^ 32)
    (fewAgain : second.targets.length < 2 ^ 32)
    (same : guardianChallenge firstChain firstEra first =
      guardianChallenge secondChain secondEra second) :
    signedParts firstChain firstEra first = signedParts secondChain secondEra second := by
  simp only [guardianChallenge, List.append_assoc] at same
  obtain ⟨sameChain, same⟩ := inverts_u64.injective trivial trivial same
  obtain ⟨sameEra, same⟩ := (inverts_array 32).injective trivial trivial same
  obtain ⟨sameOp, same⟩ := inverts_u8.injective trivial trivial same
  obtain ⟨sameBound, same⟩ := inverts_u64.injective trivial trivial same
  obtain ⟨sameTargets, same⟩ := (inverts_u32.headed (inverts_counted (inverts_array 32))).injective
    ⟨trivial, few, by simp⟩ ⟨trivial, fewAgain, by simp⟩ (by simpa using same)
  obtain ⟨-, samePayload⟩ := inverts_u32.injective trivial trivial same
  simp [signedParts, sameChain, sameEra, sameOp, sameBound, sameTargets, samePayload]

/-- A signature is good for one message at most. -/
def ApprovalsBind : Prop :=
  ∀ (approval : GuardianApproval) (first second : Bytes),
    guardianSignatureOk approval first = true → guardianSignatureOk approval second = true →
      first = second

/-- The approvers of an act are distinct members of the set, each of which signed the challenge of
this act, and equal challenges are of equal acts. So where a signature is good for one message, what
was signed for an act that differs from it in anything authorizes nothing. The acts have fewer than
`2 ^ 32` targets, as all acts have that are read. A challenge spells every field of its act. -/
theorem guardian_approvals_bind_one_act (set : GuardianSet)
    {act : GuardianAct} (few : act.targets.length < 2 ^ 32) (chainId : U64) (era : Hash) :
    (guardianApprovers set act chainId era).Nodup ∧
      (∀ id ∈ guardianApprovers set act chainId era, id ∈ set.members ∧
        ∃ approval ∈ act.approvals,
          guardianMemberId approval.scheme approval.publicKey = some id ∧
            guardianSignatureOk approval (guardianChallenge chainId era act) = true) ∧
      (∀ (otherChain : U64) (otherEra : Hash) (other : GuardianAct),
        other.targets.length < 2 ^ 32 →
          (guardianChallenge otherChain otherEra other = guardianChallenge chainId era act →
            signedParts otherChain otherEra other = signedParts chainId era act) ∧
          (ApprovalsBind → signedParts otherChain otherEra other ≠ signedParts chainId era act →
            (∀ approval ∈ act.approvals,
              guardianSignatureOk approval (guardianChallenge otherChain otherEra other) = true) →
            set.authorizes (guardianApprovers set act chainId era) = false)) ∧
      ∀ bytes decoded, GuardianAct.decode bytes = some decoded →
        decoded.targets.length < 2 ^ 32 := by
  obtain ⟨distinct, approve⟩ :=
    approvers_spec set (guardianChallenge chainId era act) act.approvals []
  refine ⟨distinct, fun id approves => (approve id approves).2, fun otherChain otherEra other small =>
    ⟨guardianChallenge_injective small few, fun binds differ gathered => ?_⟩, fun _ _ decoded =>
    (decode_targets decoded).trans_lt (by decide)⟩
  have nobody : guardianApprovers set act chainId era = [] := by
    refine List.eq_nil_iff_forall_not_mem.mpr fun id approves => differ ?_
    obtain ⟨-, -, approval, given, -, valid⟩ := approve id approves
    exact guardianChallenge_injective small few (binds approval _ _ (gathered approval given) valid)
  rw [nobody, ← Bool.not_eq_true, GuardianSet.authorizes_iff]
  rintro ⟨formed, enough⟩
  simp only [GuardianSet.wellFormed, Bool.and_eq_true, decide_eq_true_eq] at formed
  simp only [List.toFinset_nil, Finset.inter_empty, Finset.card_empty, Nat.zero_mod] at enough
  omega

end Approvals

/-- Signatures that are the message itself, under keys of one byte that is all an address tells. -/
@[reducible] def plainSignatures : Platform :=
  { Platform.blank with
    sha3 := fun bytes => Vector.replicate 32 (bytes.getLast?.getD 0)
    mlDsaPublicKeyBytes := 1
    mlDsaSignatureBytes := 57
    mlDsaVerify := fun _ message signature _ => message == signature }

theorem plainSignatures_bind : @ApprovalsBind plainSignatures := by
  have signed (approval : GuardianApproval) (message : Bytes)
      (valid : @guardianSignatureOk plainSignatures approval message = true) :
      message = approval.signature := by
    unfold guardianSignatureOk at valid
    split at valid
    · exact beq_iff_eq.mp (Bool.and_eq_true_iff.mp valid).2
    · split at valid
      · cases (Bool.and_eq_true_iff.mp valid).2
      · cases valid
  intro approval first second valid again
  rw [signed approval first valid, signed approval second again]

/-- Two of three guardians approve of lifting a freeze until time zero, and the same approvals are
used for one until time one. -/
theorem approval_of_another_bound :
    letI := plainSignatures
    let era : Hash := Vector.replicate 32 0
    let challenge := guardianChallenge 1 era ⟨1, 0, [], [], []⟩
    let approvals : List GuardianApproval :=
      [⟨Tx.schemeLattice, [1], challenge⟩, ⟨Tx.schemeLattice, [2], challenge⟩]
    Ledger.threeGuardians.authorizes
        (guardianApprovers Ledger.threeGuardians ⟨1, 0, [], approvals, []⟩ 1 era) = true ∧
      Ledger.threeGuardians.authorizes
        (guardianApprovers Ledger.threeGuardians ⟨1, 1, [], approvals, []⟩ 1 era) = false :=
  ⟨by decide +kernel,
    ((@guardian_approvals_bind_one_act plainSignatures _ _ (by decide) _ _).2.2.1
      1 (Vector.replicate 32 0) ⟨1, 0, [], [], []⟩ (by decide)).2 plainSignatures_bind
      (fun same => absurd (congrArg (fun parts => parts.2.2.2.1) same) (by decide))
      (by decide +kernel)⟩

end QuantovaChain.Node
