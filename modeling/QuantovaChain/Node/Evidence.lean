import QuantovaChain.Codec.Reader
import QuantovaChain.Platform

/-!
# Evidence

Evidence against validators comes in five kinds, each with its own hand-written format: two votes of
one validator in conflict, two prevotes, two proposals, a prevote against a precommit, and two sets
of votes for different blocks at one height. All but the first start with a tag. Every format is
canonical: what is written is read back, and nothing else is read.
-/

namespace QuantovaChain.Evidence

open State (Bytes Hash)
open Idfmt (ascii)
open Codec Codec.Reader Reading

/-! ## Parts that may be missing -/

/-- A flag and a part, or the flag of a missing part and a filling. -/
def putOr {α : Type} (filling : α) (put : α → Bytes) : Option α → Bytes
  | some part => putU8 1 ++ put part
  | none => putU8 0 ++ put filling

/-- A part by its flag; a missing part has to be filled as it is written. -/
def getOr {α : Type} [DecidableEq α] (filling : α) (get : Reader α) : Reader (Option α) := do
  let flag ← u8
  let part ← get
  if flag = 1 then return some part
  else if flag = 0 ∧ part = filling then return none
  else failure

variable {α : Type} {fits : α → Prop}

theorem inverts_getOr [DecidableEq α] {filling : α} {get : Reader α} {put : α → Bytes}
    (inverts : Inverts get put fits) (filled : fits filling) :
    Inverts (getOr filling get) (putOr filling put) fun part => ∀ value ∈ part, fits value := by
  intro input part rest
  constructor
  · simp only [getOr, inverts_u8.reads_bind, inverts.reads_bind]
    rintro ⟨flag, _, -, rfl, found, _, fitting, rfl, reads⟩
    split at reads
    next present =>
      obtain ⟨rfl, rfl⟩ := reads_pure.mp reads
      cases present
      refine ⟨fun value same => ?_, by rw [putOr, List.append_assoc]⟩
      cases same
      exact fitting
    next =>
    split at reads
    next absent =>
      obtain ⟨rfl, rfl⟩ := reads_pure.mp reads
      obtain ⟨rfl, rfl⟩ := absent
      exact ⟨nofun, by rw [putOr, List.append_assoc]⟩
    next => exact absurd reads reads_failure
  · rintro ⟨fit, rfl⟩
    cases part with
    | none =>
      rw [putOr, List.append_assoc]
      refine inverts_u8.andThen trivial (inverts.andThen filled ?_)
      rw [if_neg (by decide), if_pos ⟨rfl, rfl⟩]
      exact reads_pure.mpr ⟨rfl, rfl⟩
    | some found =>
      rw [putOr, List.append_assoc]
      refine inverts_u8.andThen trivial (inverts.andThen (fit found rfl) ?_)
      exact reads_pure.mpr ⟨rfl, rfl⟩

theorem inverts_hash :
    Inverts (sizedArray 32) (fun hash => putBytes hash.toList) fun _ => True :=
  inverts_sizedArray (by decide)

def putPol : Option U64 → Bytes := putOr 0 putU64

def getPol : Reader (Option U64) := getOr 0 u64

theorem inverts_getPol : Inverts getPol putPol fun _ => True := by
  intro input pol rest
  rw [getPol, inverts_getOr inverts_u64 trivial input pol rest]
  simp [putPol]

/-- What follows a tag. -/
def tagged {α : Type} (tag : Bytes) (read : Reader α) : Reader α := do
  let found ← bytes
  if found ≠ tag then failure else read

theorem inverts_tagged {tag : Bytes} {read : Reader α} {write : α → Bytes}
    (inverts : Inverts read write fits) (small : tag.length < 2 ^ 64) :
    Inverts (tagged tag read) (fun value => putBytes tag ++ write value) fits := by
  intro input value rest
  constructor
  · simp only [tagged, inverts_bytes.reads_bind]
    rintro ⟨found, _, -, rfl, reads⟩
    split at reads
    next => exact absurd reads reads_failure
    next same =>
      obtain ⟨fitting, rfl⟩ := (inverts _ _ _).mp reads
      rw [ne_eq, not_not] at same
      rw [same, List.append_assoc]
      exact ⟨fitting, rfl⟩
  · rintro ⟨fitting, rfl⟩
    rw [List.append_assoc]
    refine inverts_bytes.andThen small ?_
    rw [if_neg (not_not.mpr rfl)]
    exact (inverts _ _ _).mpr ⟨fitting, rfl⟩

/-! ## Votes in conflict -/

structure Equivocation where
  offender : String
  height : U64
  viewA : U64
  viewB : U64
  slotA : U64
  slotB : U64
  committeeA : Hash
  committeeB : Hash
  blockA : Bytes
  sigA : Bytes
  blockB : Bytes
  sigB : Bytes
  deriving DecidableEq

namespace Equivocation

def encode (evidence : Equivocation) : Bytes :=
  putBytes (asBytes evidence.offender) ++ putU64 evidence.height ++ putU64 evidence.viewA ++
    putU64 evidence.viewB ++ putU64 evidence.slotA ++ putU64 evidence.slotB ++
    putBytes evidence.committeeA.toList ++ putBytes evidence.committeeB.toList ++
    putBytes evidence.blockA ++ putBytes evidence.sigA ++ putBytes evidence.blockB ++
    putBytes evidence.sigB

def read : Reader Equivocation := do
  let offender ← text
  let height ← u64
  let viewA ← u64
  let viewB ← u64
  let slotA ← u64
  let slotB ← u64
  let committeeA ← sizedArray 32
  let committeeB ← sizedArray 32
  let blockA ← bytes
  let sigA ← bytes
  let blockB ← bytes
  let sigB ← bytes
  return { offender, height, viewA, viewB, slotA, slotB, committeeA, committeeB, blockA, sigA,
           blockB, sigB }

def decode : Bytes → Option Equivocation := whole read

/-- The lengths of the parts are words. -/
@[mk_iff] structure Fits (evidence : Equivocation) : Prop where
  offender : (asBytes evidence.offender).length < 2 ^ 64
  blockA : evidence.blockA.length < 2 ^ 64
  sigA : evidence.sigA.length < 2 ^ 64
  blockB : evidence.blockB.length < 2 ^ 64
  sigB : evidence.sigB.length < 2 ^ 64

end Equivocation

theorem Equivocation.inverts_read : Inverts read encode Fits :=
  .ofFields (by simp [encode]) (by simp [fits_iff]) <|
    inverts_text.field offender fun _ =>
    inverts_u64.field height fun _ =>
    inverts_u64.field viewA fun _ =>
    inverts_u64.field viewB fun _ =>
    inverts_u64.field slotA fun _ =>
    inverts_u64.field slotB fun _ =>
    inverts_hash.field committeeA fun _ =>
    inverts_hash.field committeeB fun _ =>
    inverts_bytes.field blockA fun _ =>
    inverts_bytes.field sigA fun _ =>
    inverts_bytes.field blockB fun _ =>
    inverts_bytes.field sigB fun _ =>
    inverts_record fun record => by cases record; simp [and_assoc]

/-! ## Prevotes -/

structure SignedPrevote where
  slot : U64
  committee : Hash
  value : Hash
  pol : Option U64
  sig : Bytes
  deriving DecidableEq

namespace SignedPrevote

def put (prevote : SignedPrevote) : Bytes :=
  putU64 prevote.slot ++ putBytes prevote.committee.toList ++ putBytes prevote.value.toList ++
    putPol prevote.pol ++ putBytes prevote.sig

def get : Reader SignedPrevote := do
  let slot ← u64
  let committee ← sizedArray 32
  let value ← sizedArray 32
  let pol ← getPol
  let sig ← bytes
  return { slot, committee, value, pol, sig }

def Fits (prevote : SignedPrevote) : Prop := prevote.sig.length < 2 ^ 64

theorem inverts_get : Inverts get put Fits :=
  .ofFields (by simp [put]) (by simp [Fits]) <|
    inverts_u64.field slot fun _ =>
    inverts_hash.field committee fun _ =>
    inverts_hash.field value fun _ =>
    inverts_getPol.field pol fun _ =>
    inverts_bytes.field sig fun _ =>
    inverts_record fun record => by cases record; simp [and_assoc]

end SignedPrevote

def prevoteEquivocationTag : Bytes := ascii "QTV-PREVOTE-EQUIVOCATION/1"

structure PrevoteEquivocation where
  offender : String
  height : U64
  view : U64
  first : SignedPrevote
  second : SignedPrevote
  deriving DecidableEq

namespace PrevoteEquivocation

/-- What is written after the tag. -/
def put (evidence : PrevoteEquivocation) : Bytes :=
  putBytes (asBytes evidence.offender) ++ putU64 evidence.height ++ putU64 evidence.view ++
    evidence.first.put ++ evidence.second.put

def encode (evidence : PrevoteEquivocation) : Bytes :=
  putBytes prevoteEquivocationTag ++ evidence.put

/-- What is read after the tag. -/
def get : Reader PrevoteEquivocation := do
  let offender ← text
  let height ← u64
  let view ← u64
  let first ← SignedPrevote.get
  let second ← SignedPrevote.get
  return { offender, height, view, first, second }

def decode : Bytes → Option PrevoteEquivocation :=
  whole (tagged prevoteEquivocationTag get)

@[mk_iff] structure Fits (evidence : PrevoteEquivocation) : Prop where
  offender : (asBytes evidence.offender).length < 2 ^ 64
  first : evidence.first.Fits
  second : evidence.second.Fits

theorem inverts_get : Inverts get put Fits :=
  .ofFields (by simp [put]) (by simp [fits_iff]) <|
    inverts_text.field offender fun _ =>
    inverts_u64.field height fun _ =>
    inverts_u64.field view fun _ =>
    SignedPrevote.inverts_get.field first fun _ =>
    SignedPrevote.inverts_get.field second fun _ =>
    inverts_record fun record => by cases record; simp [and_assoc]

end PrevoteEquivocation

/-! ## Proposals -/

structure ProposalShape where
  headerHash : Hash
  root : Hash
  k : U64
  n : U64
  shardLen : U64
  dataLen : U64
  deriving DecidableEq

structure SignedProposal where
  slot : U64
  committee : Hash
  shape : ProposalShape
  sig : Bytes
  deriving DecidableEq

namespace SignedProposal

def put (proposal : SignedProposal) : Bytes :=
  putU64 proposal.slot ++ putBytes proposal.committee.toList ++
    putBytes proposal.shape.headerHash.toList ++ putBytes proposal.shape.root.toList ++
    putU64 proposal.shape.k ++ putU64 proposal.shape.n ++ putU64 proposal.shape.shardLen ++
    putU64 proposal.shape.dataLen ++ putBytes proposal.sig

def get : Reader SignedProposal := do
  let slot ← u64
  let committee ← sizedArray 32
  let headerHash ← sizedArray 32
  let root ← sizedArray 32
  let k ← u64
  let n ← u64
  let shardLen ← u64
  let dataLen ← u64
  let sig ← bytes
  return { slot, committee, shape := { headerHash, root, k, n, shardLen, dataLen }, sig }

def Fits (proposal : SignedProposal) : Prop := proposal.sig.length < 2 ^ 64

theorem inverts_get : Inverts get put Fits :=
  .ofFields (by simp [put]) (by simp [Fits]) <|
    inverts_u64.field slot fun _ =>
    inverts_hash.field committee fun _ =>
    inverts_hash.field (fun proposal => proposal.shape.headerHash) fun _ =>
    inverts_hash.field (fun proposal => proposal.shape.root) fun _ =>
    inverts_u64.field (fun proposal => proposal.shape.k) fun _ =>
    inverts_u64.field (fun proposal => proposal.shape.n) fun _ =>
    inverts_u64.field (fun proposal => proposal.shape.shardLen) fun _ =>
    inverts_u64.field (fun proposal => proposal.shape.dataLen) fun _ =>
    inverts_bytes.field sig fun _ =>
    inverts_record fun ⟨_, _, ⟨_, _, _, _, _, _⟩, _⟩ => by simp [and_assoc]

end SignedProposal

def proposalEquivocationTag : Bytes := ascii "QTV-PROPOSAL-EQUIVOCATION/1"

structure ProposalEquivocation where
  offender : String
  height : U64
  view : U64
  first : SignedProposal
  second : SignedProposal
  deriving DecidableEq

namespace ProposalEquivocation

/-- What is written after the tag. -/
def put (evidence : ProposalEquivocation) : Bytes :=
  putBytes (asBytes evidence.offender) ++ putU64 evidence.height ++ putU64 evidence.view ++
    evidence.first.put ++ evidence.second.put

def encode (evidence : ProposalEquivocation) : Bytes :=
  putBytes proposalEquivocationTag ++ evidence.put

/-- What is read after the tag. -/
def get : Reader ProposalEquivocation := do
  let offender ← text
  let height ← u64
  let view ← u64
  let first ← SignedProposal.get
  let second ← SignedProposal.get
  return { offender, height, view, first, second }

def decode : Bytes → Option ProposalEquivocation :=
  whole (tagged proposalEquivocationTag get)

@[mk_iff] structure Fits (evidence : ProposalEquivocation) : Prop where
  offender : (asBytes evidence.offender).length < 2 ^ 64
  first : evidence.first.Fits
  second : evidence.second.Fits

theorem inverts_get : Inverts get put Fits :=
  .ofFields (by simp [put]) (by simp [fits_iff]) <|
    inverts_text.field offender fun _ =>
    inverts_u64.field height fun _ =>
    inverts_u64.field view fun _ =>
    SignedProposal.inverts_get.field first fun _ =>
    SignedProposal.inverts_get.field second fun _ =>
    inverts_record fun record => by cases record; simp [and_assoc]

end ProposalEquivocation

/-! ## Violated locks -/

structure SignedPrecommit where
  view : U64
  slot : U64
  committee : Hash
  value : Hash
  parent : Option Hash
  cost : U64
  sig : Bytes
  deriving DecidableEq

namespace SignedPrecommit

def putParent : Option Hash → Bytes :=
  putOr (Vector.replicate 32 0) fun parent => putBytes parent.toList

def getParent : Reader (Option Hash) := getOr (Vector.replicate 32 0) (sizedArray 32)

theorem inverts_getParent : Inverts getParent putParent fun _ => True := by
  intro input parent rest
  rw [getParent, inverts_getOr inverts_hash trivial input parent rest]
  simp [putParent]

def put (precommit : SignedPrecommit) : Bytes :=
  putU64 precommit.view ++ putU64 precommit.slot ++ putBytes precommit.committee.toList ++
    putBytes precommit.value.toList ++ putParent precommit.parent ++ putU64 precommit.cost ++
    putBytes precommit.sig

def get : Reader SignedPrecommit := do
  let view ← u64
  let slot ← u64
  let committee ← sizedArray 32
  let value ← sizedArray 32
  let parent ← getParent
  let cost ← u64
  let sig ← bytes
  return { view, slot, committee, value, parent, cost, sig }

def Fits (precommit : SignedPrecommit) : Prop := precommit.sig.length < 2 ^ 64

theorem inverts_get : Inverts get put Fits :=
  .ofFields (by simp [put]) (by simp [Fits]) <|
    inverts_u64.field view fun _ =>
    inverts_u64.field slot fun _ =>
    inverts_hash.field committee fun _ =>
    inverts_hash.field value fun _ =>
    inverts_getParent.field parent fun _ =>
    inverts_u64.field cost fun _ =>
    inverts_bytes.field sig fun _ =>
    inverts_record fun record => by cases record; simp [and_assoc]

end SignedPrecommit

def lockViolationTag : Bytes := ascii "QTV-LOCK-VIOLATION/1"

structure LockViolation where
  offender : String
  height : U64
  precommit : SignedPrecommit
  prevoteView : U64
  prevote : SignedPrevote
  deriving DecidableEq

namespace LockViolation

/-- What is written after the tag. -/
def put (evidence : LockViolation) : Bytes :=
  putBytes (asBytes evidence.offender) ++ putU64 evidence.height ++ evidence.precommit.put ++
    putU64 evidence.prevoteView ++ evidence.prevote.put

def encode (evidence : LockViolation) : Bytes := putBytes lockViolationTag ++ evidence.put

/-- What is read after the tag. -/
def get : Reader LockViolation := do
  let offender ← text
  let height ← u64
  let precommit ← SignedPrecommit.get
  let prevoteView ← u64
  let prevote ← SignedPrevote.get
  return { offender, height, precommit, prevoteView, prevote }

def decode : Bytes → Option LockViolation := whole (tagged lockViolationTag get)

@[mk_iff] structure Fits (evidence : LockViolation) : Prop where
  offender : (asBytes evidence.offender).length < 2 ^ 64
  precommit : evidence.precommit.Fits
  prevote : evidence.prevote.Fits

theorem inverts_get : Inverts get put Fits :=
  .ofFields (by simp [put]) (by simp [fits_iff]) <|
    inverts_text.field offender fun _ =>
    inverts_u64.field height fun _ =>
    SignedPrecommit.inverts_get.field precommit fun _ =>
    inverts_u64.field prevoteView fun _ =>
    SignedPrevote.inverts_get.field prevote fun _ =>
    inverts_record fun record => by cases record; simp [and_assoc]

end LockViolation

/-! ## Two finalized blocks -/

def doubleFinalityTag : Bytes := ascii "QTV-DOUBLE-FINALITY/1"

def maxFinalityVotes : Nat := 512

structure FinalityVote where
  signer : String
  view : U64
  slot : U64
  committee : Hash
  sig : Bytes
  deriving DecidableEq

namespace FinalityVote

def put (vote : FinalityVote) : Bytes :=
  putBytes (asBytes vote.signer) ++ putU64 vote.view ++ putU64 vote.slot ++
    putBytes vote.committee.toList ++ putBytes vote.sig

def get : Reader FinalityVote := do
  let signer ← text
  let view ← u64
  let slot ← u64
  let committee ← sizedArray 32
  let sig ← bytes
  return { signer, view, slot, committee, sig }

@[mk_iff] structure Fits (vote : FinalityVote) : Prop where
  signer : (asBytes vote.signer).length < 2 ^ 64
  sig : vote.sig.length < 2 ^ 64

theorem inverts_get : Inverts get put Fits :=
  .ofFields (by simp [put]) (by simp [fits_iff]) <|
    inverts_text.field signer fun _ =>
    inverts_u64.field view fun _ =>
    inverts_u64.field slot fun _ =>
    inverts_hash.field committee fun _ =>
    inverts_bytes.field sig fun _ =>
    inverts_record fun record => by cases record; simp [and_assoc]

end FinalityVote

def putVotes : List FinalityVote → Bytes := putList FinalityVote.put

def getVotes : Reader (List FinalityVote) := do
  let count ← u64
  if count.val = 0 ∨ maxFinalityVotes < count.val then failure
  else Reader.many FinalityVote.get count.val

/-- Between one vote and the most there may be. -/
structure VotesFit (votes : List FinalityVote) : Prop where
  several : 1 ≤ votes.length
  few : votes.length ≤ maxFinalityVotes
  each : ∀ vote ∈ votes, vote.Fits

theorem inverts_getVotes : Inverts getVotes putVotes VotesFit := by
  intro input votes rest
  constructor
  · simp only [getVotes, inverts_u64.reads_bind]
    rintro ⟨count, _, -, rfl, reads⟩
    split at reads
    next => exact absurd reads reads_failure
    next within =>
      rw [many_eq] at reads
      obtain ⟨⟨counted, fit⟩, rfl⟩ := (FinalityVote.inverts_get.many count.val _ _ _).mp reads
      refine ⟨⟨by omega, by omega, fit⟩, ?_⟩
      rw [putVotes, putList, counted, Decoder.clamp_val, List.append_assoc]
  · rintro ⟨fits, rfl⟩
    have most : maxFinalityVotes < 2 ^ 64 := by decide
    have few := fits.few
    have several := fits.several
    have same : (Word.clamp 64 votes.length).val = votes.length := by
      rw [Word.val_clamp]
      omega
    rw [putVotes, putList, List.append_assoc]
    refine inverts_u64.andThen trivial ?_
    rw [same, if_neg (by omega), many_eq]
    exact (FinalityVote.inverts_get.many votes.length _ _ _).mpr ⟨⟨rfl, fits.each⟩, rfl⟩

structure DoubleFinality where
  height : U64
  blockA : Bytes
  votesA : List FinalityVote
  blockB : Bytes
  votesB : List FinalityVote
  deriving DecidableEq

namespace DoubleFinality

/-- What is written after the tag. -/
def put (evidence : DoubleFinality) : Bytes :=
  putU64 evidence.height ++ putBytes evidence.blockA ++ putVotes evidence.votesA ++
    putBytes evidence.blockB ++ putVotes evidence.votesB

def encode (evidence : DoubleFinality) : Bytes := putBytes doubleFinalityTag ++ evidence.put

/-- What is read after the tag. -/
def get : Reader DoubleFinality := do
  let height ← u64
  let blockA ← bytes
  let votesA ← getVotes
  let blockB ← bytes
  let votesB ← getVotes
  return { height, blockA, votesA, blockB, votesB }

def decode : Bytes → Option DoubleFinality := whole (tagged doubleFinalityTag get)

@[mk_iff] structure Fits (evidence : DoubleFinality) : Prop where
  blockA : evidence.blockA.length < 2 ^ 64
  votesA : VotesFit evidence.votesA
  blockB : evidence.blockB.length < 2 ^ 64
  votesB : VotesFit evidence.votesB

theorem inverts_get : Inverts get put Fits :=
  .ofFields (by simp [put]) (by simp [fits_iff]) <|
    inverts_u64.field height fun _ =>
    inverts_bytes.field blockA fun _ =>
    inverts_getVotes.field votesA fun _ =>
    inverts_bytes.field blockB fun _ =>
    inverts_getVotes.field votesB fun _ =>
    inverts_record fun record => by cases record; simp [and_assoc]

end DoubleFinality

/-! ## One encoding for everything -/

/-- A format reads back what it writes, and reads nothing else. -/
def Canonical {α : Type} (encode : α → Bytes) (decode : Bytes → Option α) (fits : α → Prop) :
    Prop :=
  (∀ value, fits value → decode (encode value) = some value) ∧
    ∀ bytes value, decode bytes = some value → encode value = bytes

theorem canonical_of_inverts {read : Reader α} {write : α → Bytes}
    (inverts : Inverts read write fits) : Canonical write (whole read) fits :=
  ⟨fun _ fit => (whole_eq_some inverts).mpr ⟨fit, rfl⟩,
    fun _ _ read => ((whole_eq_some inverts).mp read).2.symm⟩

/-- The formats of all five kinds of evidence are canonical. Each reader inverts its encoder, behind
its tag where it has one. -/
theorem evidence_codecs_canonical :
    Canonical Equivocation.encode Equivocation.decode Equivocation.Fits ∧
      Canonical PrevoteEquivocation.encode PrevoteEquivocation.decode PrevoteEquivocation.Fits ∧
      Canonical ProposalEquivocation.encode ProposalEquivocation.decode
        ProposalEquivocation.Fits ∧
      Canonical LockViolation.encode LockViolation.decode LockViolation.Fits ∧
      Canonical DoubleFinality.encode DoubleFinality.decode DoubleFinality.Fits :=
  ⟨canonical_of_inverts Equivocation.inverts_read,
    canonical_of_inverts (inverts_tagged PrevoteEquivocation.inverts_get (by decide)),
    canonical_of_inverts (inverts_tagged ProposalEquivocation.inverts_get (by decide)),
    canonical_of_inverts (inverts_tagged LockViolation.inverts_get (by decide)),
    canonical_of_inverts (inverts_tagged DoubleFinality.inverts_get (by decide))⟩

end QuantovaChain.Evidence
