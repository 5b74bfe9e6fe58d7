import QuantovaChain.Merkle
import QuantovaChain.Net.ErasureBinding
import QuantovaChain.Wire.Canonical

/-!
# Coded proposals

A proposal is sent as the shards of an erasure coding of its block, whose certificate holds the
justification. The leader signs the commitment to the shards. What is put back together from shards
is accepted only if coding it again gives the same commitment, because a leader may commit to shards
that are no encoding at all.
-/

namespace QuantovaChain.Wire

open State (Bytes Hash)
open Chain (Header)
open Net (Commitment Shard ShardProof Coded)
open Tx (Wrapper)

variable [Sizes]

inductive CodedError
  | erasure (error : Net.Error)
  | notEnough
  | decode
  | headerMismatch
  | bodyMismatch
  | commitmentMismatch
  | badCommitment
  deriving DecidableEq, Repr

def headerHash (header : Header) : Hash := Platform.sha3 header.encode

def attestationDigest (att : Attestation) : Hash := Platform.sha3 (encodeAttestation att)

def shardTarget : Nat := 2 ^ 18

def codingParams (payloadLen : Nat) : Nat × Nat :=
  let k := min (max ((payloadLen + shardTarget - 1) / shardTarget) 2) (Net.maxShards / 2)
  (k, min (2 * k) Net.maxShards)

/-- The block that carries a proposal. -/
def proposalBlock (header : Header) (body : List Wrapper) (justification : List ViewChange) :
    ChainBlock :=
  { header, certificate := justificationToBytes justification, body }

def codeBlock (available : Nat) (block : ChainBlock) (k n : Nat) : Except CodedError Coded :=
  (Net.encode available (encodeChainBlock block) k n).mapError .erasure

def proposalCommitment (available : Nat) (header : Header) (body : List Wrapper)
    (justification : List ViewChange) : Option Commitment :=
  let block := proposalBlock header body justification
  let params := codingParams (encodeChainBlock block).length
  (codeBlock available block params.1 params.2).toOption.map Coded.commitment

/-- The shards of a proposal, each with its proof. -/
def codeProposal (available : Nat) (proposal : Proposal) :
    Except CodedError (List CodedProposal) := do
  let block := proposalBlock proposal.header proposal.body proposal.justification
  let params := codingParams (encodeChainBlock block).length
  let coded ← codeBlock available block params.1 params.2
  return coded.shards.filterMap fun shard => (coded.proof shard.index).map fun proof =>
    { view := proposal.view, header := proposal.header, commitment := coded.commitment, shard,
      proof, auth := proposal.auth }

def maxCodedBytes : Nat := 12 * 1024 * 1024

def usizeMul (first second : Nat) : Nat := min (first * second) (2 ^ 64 - 1)

def commitmentInBounds (commitment : Commitment) : Bool :=
  decide (1 ≤ commitment.k) && decide (commitment.k ≤ commitment.n) &&
    decide (commitment.n ≤ Net.maxShards) && decide (commitment.n ≤ usizeMul commitment.k 2) &&
    decide (commitment.shardLen ≤ shardTarget) &&
    decide (usizeMul commitment.k commitment.shardLen ≤ maxCodedBytes) &&
    decide (commitment.dataLen ≤ usizeMul commitment.k commitment.shardLen)

def commitmentCanonical (commitment : Commitment) : Bool :=
  commitmentInBounds commitment &&
    (commitment.k, commitment.n) == codingParams commitment.dataLen &&
    commitment.shardLen == max ((commitment.dataLen + commitment.k - 1) / commitment.k) 1

/-- Takes shards that verify, under different indices, until there are enough. -/
def verifiedShards (commitment : Commitment) :
    List (Shard × ShardProof) → List Shard → List Shard
  | [], verified => verified
  | (shard, proof) :: rest, verified =>
    if verified.length = commitment.k then verified
    else if commitment.verifyShard shard proof && !verified.any (·.index == shard.index) then
      verifiedShards commitment rest (verified ++ [shard])
    else verifiedShards commitment rest verified

def reconstructBlock (available : Nat) (header : Header) (hash : Hash) (commitment : Commitment)
    (received : List (Shard × ShardProof)) : Except CodedError ChainBlock :=
  if !commitmentInBounds commitment then .error .badCommitment
  else
    let verified := verifiedShards commitment received []
    if verified.length < commitment.k then .error .notEnough
    else do
      let bytes ← (Net.reconstruct available commitment verified).mapError .erasure
      let block ← (chainBlockFromBytes bytes).mapError fun _ => .decode
      if block.header ≠ header ∨ headerHash block.header ≠ hash then .error .headerMismatch
      else if Chain.transactionRoot block.body ≠ header.transactionRoot then .error .bodyMismatch
      else do
        let rederived ← (Net.encode available bytes commitment.k commitment.n).mapError .erasure
        if rederived.commitment ≠ commitment then .error .commitmentMismatch else return block

/-! ## What a commitment says -/

/-- The proposal's block can be sent, and has this commitment when it is coded. -/
structure Carries (commitment : Commitment) (header : Header) (body : List Wrapper)
    (justification : List ViewChange) : Prop where
  block : (proposalBlock header body justification).Fits
  records : ListFits ViewChange.Fits justification
  coded : ∃ available coded,
    Net.encode available (encodeChainBlock (proposalBlock header body justification)) commitment.k
      commitment.n = .ok coded ∧ coded.commitment = commitment

omit [Sizes] in
theorem mapError_eq_ok {ε ε' α : Type} {change : ε → ε'} {result : Except ε α} {value : α} :
    result.mapError change = .ok value ↔ result = .ok value := by
  cases result with
  | error error => exact iff_of_false (fun same => nomatch same) (fun same => nomatch same)
  | ok found => exact ⟨fun same => by cases same; rfl, fun same => by cases same; rfl⟩

omit [Sizes] in
theorem bind_eq_ok {ε α β : Type} {first : Except ε α} {next : α → Except ε β} {result : β} :
    (first >>= next) = .ok result ↔ ∃ value, first = .ok value ∧ next value = .ok result :=
  Reading.Partial.bind_eq_pure

variable {available : Nat} {header : Header} {commitment : Commitment}
  {justification : List ViewChange}

/-- A block that is put back together is read off bytes that are coded under the commitment. -/
theorem reconstructBlock_ok {hash : Hash}
    {received : List (Shard × ShardProof)} {block : ChainBlock}
    (rebuilt : reconstructBlock available header hash commitment received = .ok block) :
    block.header = header ∧ ∃ bytes coded, chainBlockFromBytes bytes = .ok block ∧
      Net.encode available bytes commitment.k commitment.n = .ok coded ∧
      coded.commitment = commitment := by
  unfold reconstructBlock at rebuilt
  split at rebuilt
  next => cases rebuilt
  next =>
  dsimp only at rebuilt
  split at rebuilt
  next => cases rebuilt
  next =>
  obtain ⟨bytes, -, rebuilt⟩ := bind_eq_ok.mp rebuilt
  obtain ⟨found, read, rebuilt⟩ := bind_eq_ok.mp rebuilt
  split at rebuilt
  next => cases rebuilt
  next headers =>
  split at rebuilt
  next => cases rebuilt
  next =>
  obtain ⟨coded, encoded, rebuilt⟩ := bind_eq_ok.mp rebuilt
  split at rebuilt
  next => cases rebuilt
  next committed =>
  cases rebuilt
  simp only [not_or, ne_eq, not_not] at headers committed
  exact ⟨headers.1, bytes, coded, mapError_eq_ok.mp read, mapError_eq_ok.mp encoded, committed⟩

/-- A block that is put back together carries a proposal, if its certificate is a justification. -/
theorem carries_of_rebuilt {hash : Hash} {received : List (Shard × ShardProof)} {block : ChainBlock}
    (rebuilt : reconstructBlock available header hash commitment received = .ok block)
    (read : justificationFromBytes block.certificate = .ok justification) :
    Carries commitment header block.body justification := by
  obtain ⟨rfl, bytes, coded, found, encoded, committed⟩ := reconstructBlock_ok rebuilt
  obtain ⟨fits, rfl⟩ := chainBlockFromBytes_eq_ok.mp found
  obtain ⟨records, written⟩ := justificationFromBytes_eq_ok.mp read
  have same : proposalBlock block.header block.body justification = block := by
    rw [proposalBlock, ← written]
  exact ⟨same ▸ fits, records, available, coded, by rw [same]; exact encoded, committed⟩

/-- The work of coding may be divided in any way. -/
theorem encode_any {cores : Nat} {data : Bytes} {k n : Nat} {coded : Coded}
    (encoded : Net.encode available data k n = .ok coded) :
    Net.encode cores data k n = .ok coded := by
  obtain ⟨inRange, top, turned, rfl⟩ := Net.encode_spec encoded
  exact Net.encode_eq cores data turned inRange

theorem dataLen_of_encode {data : Bytes} {k n : Nat} {coded : Coded}
    (encoded : Net.encode available data k n = .ok coded) :
    coded.commitment.dataLen = data.length := by
  obtain ⟨-, top, -, rfl⟩ := Net.encode_spec encoded
  rfl

/-- A canonical commitment is the commitment of the proposal that it carries. -/
theorem Carries.proposalCommitment {body : List Wrapper}
    (carries : Carries commitment header body justification)
    (canonical : commitmentCanonical commitment = true) (cores : Nat) :
    proposalCommitment cores header body justification = some commitment := by
  obtain ⟨available, coded, encoded, rfl⟩ := carries.coded
  simp only [commitmentCanonical, Bool.and_eq_true, beq_iff_eq] at canonical
  have params := canonical.1.2
  rw [dataLen_of_encode encoded] at params
  rw [Wire.proposalCommitment, ← params, codeBlock, encode_any encoded]
  rfl

/-- A commitment carries one proposal. -/
theorem Carries.unique {header' : Header}
    {body body' : List Wrapper} {justification' : List ViewChange}
    (one : Carries commitment header body justification)
    (other : Carries commitment header' body' justification')
    (free : ∀ available ours theirs,
      Net.encode available (encodeChainBlock (proposalBlock header body justification)) commitment.k
        commitment.n = .ok ours →
      Net.encode available (encodeChainBlock (proposalBlock header' body' justification'))
        commitment.k commitment.n = .ok theirs → Net.CollisionFreePair ours theirs) :
    header = header' ∧ body = body' ∧ justification = justification' := by
  obtain ⟨available, ours, encoded, committed⟩ := one.coded
  obtain ⟨cores, theirs, again, committed'⟩ := other.coded
  have bytes := Net.data_of_commitment encoded again
    (free available ours theirs encoded (encode_any again)) (committed.trans committed'.symm)
  have blocks := (inverts_decodeChainBlock.injective one.block other.block
    (congrArg (· ++ []) bytes)).1
  obtain ⟨headers, certificates, bodies⟩ := ChainBlock.mk.inj blocks
  refine ⟨headers, bodies, ?_⟩
  have first := justificationFromBytes_eq_ok.mpr ⟨one.records, rfl⟩
  have second := justificationFromBytes_eq_ok.mpr ⟨other.records, rfl⟩
  rw [certificates] at first
  exact Except.ok.inj (first.symm.trans second)

end QuantovaChain.Wire
