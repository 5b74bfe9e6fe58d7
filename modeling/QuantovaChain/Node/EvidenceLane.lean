import QuantovaChain.Node.Evidence
import QuantovaChain.Node.Mempool

/-!
# Evidence in the pool and in a block

The pool and a block each find out on their own what a piece of evidence is and whether it proves
anything. They try the five formats in different orders, and the pool asks whether anyone accused is
not banned yet where the block bans. Both come to the same answer, as long as a block gets to it:
what a banned validator has not claimed is summed up, and the sum has to be a word.
-/

namespace QuantovaChain.Evidence

open State (Bytes Hash)
open Idfmt (Text ascii)
open Codec Reading

/-! ## What evidence proves -/

/-- What evidence takes from the crates of the consensus: the context of attestations, a hash, and
the bytes of a block from its height, value, parent and cost. -/
structure Externals where
  attestContext : Bytes
  digest256 : Bytes → Hash
  blockBytes : U64 → Hash → Option Hash → U64 → Bytes

structure ChainBinding where
  chainId : U64
  genesis : Hash

def viewChangeSubjectCost : U64 := Word.top 64

/-- Whether the bytes of a block end with the cost that no block has. -/
def subjectIsViewChange (blockBytes : Bytes) : Bool :=
  decide (8 ≤ blockBytes.length) &&
    blockBytes.drop (blockBytes.length - 8) == viewChangeSubjectCost.leBytes 8

def attestationMessage (chain : ChainBinding) (height slot view : U64) (committee : Hash)
    (blockBytes : Bytes) : Bytes :=
  chain.chainId.leBytes 8 ++ chain.genesis.toList ++ height.leBytes 8 ++ slot.leBytes 8 ++
    view.leBytes 8 ++ committee.toList ++ blockBytes

section Proof

variable [Platform] (externals : Externals) (chain : ChainBinding)

/-- Whether a key has the length of a key. -/
def isKey (key : Bytes) : Bool := key.length == Platform.mlDsaPublicKeyBytes

/-- Whether a signature has the length of one and is good for an attestation. -/
def attested (key : Bytes) (height slot view : U64) (committee : Hash) (blockBytes sig : Bytes) :
    Bool :=
  sig.length == Platform.mlDsaSignatureBytes &&
    Platform.mlDsaVerify key (attestationMessage chain height slot view committee blockBytes) sig
      externals.attestContext

def Equivocation.attributes (evidence : Equivocation) (key : Bytes) : Bool :=
  evidence.blockA != evidence.blockB && evidence.viewA == evidence.viewB &&
    !(subjectIsViewChange evidence.blockA || subjectIsViewChange evidence.blockB) && isKey key &&
    attested externals chain key evidence.height evidence.slotA evidence.viewA evidence.committeeA
      evidence.blockA evidence.sigA &&
    attested externals chain key evidence.height evidence.slotB evidence.viewB evidence.committeeB
      evidence.blockB evidence.sigB

def prevoteDomain : Bytes := ascii "QTV-CONSENSUS-PREVOTE"

def prevoteBlock (height view : U64) (value : Hash) (pol : Option U64) : Bytes :=
  let buffer := prevoteDomain ++ height.leBytes 8 ++ view.leBytes 8 ++ value.toList ++
    match pol with
    | some pol => 1 :: pol.leBytes 8
    | none => 0 :: (0 : U64).leBytes 8
  externals.blockBytes height (externals.digest256 buffer) none viewChangeSubjectCost

def SignedPrevote.verifies (prevote : SignedPrevote) (key : Bytes) (height view : U64) : Bool :=
  attested externals chain key height prevote.slot view prevote.committee
    (prevoteBlock externals height view prevote.value prevote.pol) prevote.sig

def PrevoteEquivocation.attributes (evidence : PrevoteEquivocation) (key : Bytes) : Bool :=
  (evidence.first.value, evidence.first.pol) != (evidence.second.value, evidence.second.pol) &&
    isKey key && evidence.first.verifies externals chain key evidence.height evidence.view &&
    evidence.second.verifies externals chain key evidence.height evidence.view

def proposalDomain : Bytes := ascii "QTV-CONSENSUS-PROPOSAL-v2"

def proposalBlock (height view : U64) (shape : ProposalShape) : Bytes :=
  let buffer := proposalDomain ++ height.leBytes 8 ++ view.leBytes 8 ++ shape.headerHash.toList ++
    shape.root.toList ++ shape.k.leBytes 8 ++ shape.n.leBytes 8 ++ shape.shardLen.leBytes 8 ++
    shape.dataLen.leBytes 8
  externals.blockBytes height (externals.digest256 buffer) none viewChangeSubjectCost

def SignedProposal.verifies (proposal : SignedProposal) (key : Bytes) (height view : U64) : Bool :=
  attested externals chain key height proposal.slot view proposal.committee
    (proposalBlock externals height view proposal.shape) proposal.sig

def ProposalEquivocation.attributes (evidence : ProposalEquivocation) (key : Bytes) : Bool :=
  evidence.first.shape != evidence.second.shape && isKey key &&
    evidence.first.verifies externals chain key evidence.height evidence.view &&
    evidence.second.verifies externals chain key evidence.height evidence.view

def SignedPrecommit.verifies (precommit : SignedPrecommit) (key : Bytes) (height : U64) : Bool :=
  attested externals chain key height precommit.slot precommit.view precommit.committee
    (externals.blockBytes height precommit.value precommit.parent precommit.cost) precommit.sig

def LockViolation.attributes (evidence : LockViolation) (key : Bytes) : Bool :=
  !(evidence.precommit.cost == viewChangeSubjectCost ||
      decide (evidence.prevoteView ≤ evidence.precommit.view) ||
      evidence.prevote.value == evidence.precommit.value ||
      evidence.prevote.pol.any fun pol => decide (evidence.precommit.view < pol)) &&
    isKey key && evidence.precommit.verifies externals chain key evidence.height &&
    evidence.prevote.verifies externals chain key evidence.height evidence.prevoteView

/-- The signers of the votes for one block, if the votes are all of one view, slot and committee and
all good, and no signer votes twice. -/
def signersOf (height : U64) (blockBytes : Bytes) (first : FinalityVote)
    (keyOf : Text → Option Bytes) : List Text → List FinalityVote → Option (List Text)
  | signers, [] => some signers
  | signers, vote :: rest => do
    let signer := asBytes vote.signer
    guard !(vote.view != first.view || vote.slot != first.slot ||
      vote.committee != first.committee || !Node.canonicalAddress signer || signers.contains signer)
    let key ← keyOf signer
    guard (isKey key && attested externals chain key height vote.slot vote.view vote.committee
      blockBytes vote.sig)
    signersOf height blockBytes first keyOf (signers ++ [signer]) rest

def DoubleFinality.side (evidence : DoubleFinality) (blockBytes : Bytes)
    (votes : List FinalityVote) (keyOf : Text → Option Bytes) : Option (List Text × U64) := do
  let first ← votes.head?
  let signers ← signersOf externals chain evidence.height blockBytes first keyOf [] votes
  return (signers, first.view)

def DoubleFinality.offenders (evidence : DoubleFinality) (keyOf : Text → Option Bytes) :
    Option (List Text) := do
  guard !(evidence.blockA == evidence.blockB || subjectIsViewChange evidence.blockA ||
    subjectIsViewChange evidence.blockB)
  let (sideA, viewA) ← evidence.side externals chain evidence.blockA evidence.votesA keyOf
  let (sideB, viewB) ← evidence.side externals chain evidence.blockB evidence.votesB keyOf
  guard (viewA == viewB)
  let offenders := (sideA.filter sideB.contains).insertionSort (· ≤ ·)
  guard !offenders.isEmpty
  return offenders

/-- Whoever signed has a key. -/
theorem signersOf_keyed {height : U64} {blockBytes : Bytes} {first : FinalityVote}
    {keyOf : Text → Option Bytes} {votes : List FinalityVote} :
    ∀ {signers found : List Text}, (∀ signer ∈ signers, (keyOf signer).isSome) →
      signersOf externals chain height blockBytes first keyOf signers votes = some found →
      ∀ signer ∈ found, (keyOf signer).isSome := by
  induction votes with
  | nil =>
    intro signers found keyed same
    cases same
    exact keyed
  | cons vote rest hypothesis =>
    intro signers found keyed same
    simp only [signersOf, Option.bind_eq_bind, Option.bind_eq_some_iff, Option.guard_eq_some'] at same
    obtain ⟨_, -, key, holds, _, -, same⟩ := same
    refine hypothesis (fun signer member => ?_) same
    rw [List.mem_append, List.mem_singleton] at member
    obtain member | rfl := member
    · exact keyed signer member
    · rw [holds, Option.isSome_some]

/-- Whoever is proven to have finalized twice has a key. -/
theorem DoubleFinality.offenders_keyed {evidence : DoubleFinality} {keyOf : Text → Option Bytes}
    {offenders : List Text} (proven : evidence.offenders externals chain keyOf = some offenders) :
    ∀ offender ∈ offenders, (keyOf offender).isSome := by
  simp only [DoubleFinality.offenders, DoubleFinality.side, Option.bind_eq_bind,
    Option.bind_eq_some_iff, Option.guard_eq_some', Option.pure_def, Option.some.injEq] at proven
  obtain ⟨_, -, ⟨sideA, viewA⟩, ⟨first, -, found, signed, same⟩, _, -, _, -, _, -, rfl⟩ := proven
  cases same
  intro offender member
  rw [List.mem_insertionSort, List.mem_filter] at member
  exact signersOf_keyed externals chain (List.forall_mem_nil _) signed offender member.1

end Proof

/-! ## One format for each piece of evidence -/

/-- Bytes start with one tag only. -/
theorem tag_unique {first second left right : Bytes} (firstSmall : first.length < 2 ^ 64)
    (secondSmall : second.length < 2 ^ 64)
    (same : putBytes first ++ left = putBytes second ++ right) : first = second := by
  have reads := (Reader.inverts_bytes _ first left).mpr ⟨firstSmall, rfl⟩
  have again := (Reader.inverts_bytes _ second right).mpr ⟨secondSmall, same⟩
  exact congrArg Prod.fst (Option.some.inj (reads.symm.trans again))

/-- What has one tag is not read as what has another. -/
theorem tagged_apart {α β : Type} {firstTag secondTag : Bytes} {first : Reader α}
    {second : Reader β} {firstWrite : α → Bytes} {secondWrite : β → Bytes} {firstFits : α → Prop}
    {secondFits : β → Prop} (firstInverts : Inverts first firstWrite firstFits)
    (secondInverts : Inverts second secondWrite secondFits) (firstSmall : firstTag.length < 2 ^ 64)
    (secondSmall : secondTag.length < 2 ^ 64) (apart : firstTag ≠ secondTag) {bytes : Bytes}
    {value : α} (read : Reader.whole (tagged firstTag first) bytes = some value) :
    Reader.whole (tagged secondTag second) bytes = none := by
  rw [Option.eq_none_iff_forall_ne_some]
  intro other also
  have written := ((Reader.whole_eq_some (inverts_tagged firstInverts firstSmall)).mp read).2
  have again := ((Reader.whole_eq_some (inverts_tagged secondInverts secondSmall)).mp also).2
  exact apart (tag_unique firstSmall secondSmall (written.symm.trans again))

/-! ## The formats and checks of the chain -/

section Wiring

variable (externals : Externals)

/-- Evidence of any of the four kinds against a single validator. -/
def decodeAccusation (offence : Offence) (args : Bytes) : Option Accusation :=
  match offence with
  | .equivocation => (Equivocation.decode args).map fun evidence =>
      ⟨asBytes evidence.offender, evidence.height, args⟩
  | .prevoteEquivocation => (PrevoteEquivocation.decode args).map fun evidence =>
      ⟨asBytes evidence.offender, evidence.height, args⟩
  | .proposalEquivocation => (ProposalEquivocation.decode args).map fun evidence =>
      ⟨asBytes evidence.offender, evidence.height, args⟩
  | .lockViolation => (LockViolation.decode args).map fun evidence =>
      ⟨asBytes evidence.offender, evidence.height, args⟩

def decodeDoubleFinality (args : Bytes) : Option QuantovaChain.DoubleFinality :=
  (DoubleFinality.decode args).map fun evidence =>
    ⟨evidence.height, evidence.votesA.map fun vote => asBytes vote.signer, args⟩

variable [Platform]

def attributes (offence : Offence) (chainId : U64) (genesis : Hash) (accusation : Accusation)
    (key : Bytes) : Bool :=
  let chain : ChainBinding := ⟨chainId, genesis⟩
  match offence with
  | .equivocation => (Equivocation.decode accusation.messages).any fun evidence =>
      evidence.attributes externals chain key
  | .prevoteEquivocation => (PrevoteEquivocation.decode accusation.messages).any fun evidence =>
      evidence.attributes externals chain key
  | .proposalEquivocation => (ProposalEquivocation.decode accusation.messages).any fun evidence =>
      evidence.attributes externals chain key
  | .lockViolation => (LockViolation.decode accusation.messages).any fun evidence =>
      evidence.attributes externals chain key

def doubleFinalityOffenders (chainId : U64) (genesis : Hash)
    (evidence : QuantovaChain.DoubleFinality) (keyOf : Text → Option Bytes) :
    Option (List Text) :=
  (DoubleFinality.decode evidence.messages).bind fun evidence =>
    evidence.offenders externals ⟨chainId, genesis⟩ keyOf

end Wiring

/-- A platform with the evidence of this chain. -/
@[reducible] def evidencePlatform (base : Platform) (externals : Externals) : Platform :=
  { base with
    decodeAccusation
    decodeDoubleFinality
    attributes := attributes externals
    doubleFinalityOffenders := doubleFinalityOffenders externals }

end QuantovaChain.Evidence

namespace QuantovaChain.Ledger

open Idfmt (Text)
open Governance (Id)
open Staking
open Transaction Transaction.State Leaves
open Transaction.Program (expect)

/-! ## When slashing returns -/

/-- What each of the named that is not banned has not claimed is a word. -/
def SumsFit (named : List Text) (ledger : Ledger) : Prop :=
  ∀ address ∈ named, ∀ id, addressId address = some id → isStakeBanned ledger.get id = false →
    (stakeRewardsOutstanding ledger.get id).isSome

/-- The books of rewards and the bans are the same. -/
structure SameStanding (before after : Ledger) : Prop where
  rewards : ∀ id, after.get (.stakeRewards id) = before.get (.stakeRewards id)
  banned : ∀ id, after.get (.stakeBanned id) = before.get (.stakeBanned id)

variable {ledger before after : Ledger}

theorem SameStanding.of_get {written : LeafKey → Prop}
    (same : ∀ key, ¬ written key → after.get key = before.get key)
    (notRewards : ∀ id, ¬ written (.stakeRewards id))
    (notBanned : ∀ id, ¬ written (.stakeBanned id)) : SameStanding before after :=
  ⟨fun id => same _ (notRewards id), fun id => same _ (notBanned id)⟩

theorem SameStanding.trans {middle : Ledger} (first : SameStanding before middle)
    (second : SameStanding middle after) : SameStanding before after where
  rewards id := (second.rewards id).trans (first.rewards id)
  banned id := (second.banned id).trans (first.banned id)

theorem debitSupply_standing (amount : U64) :
    Returns ledger (debitSupply amount) fun _ after => SameStanding ledger after :=
  (debitSupply_returns amount).mono fun _ _ same =>
    .of_get same (fun _ equal => by cases equal) fun _ equal => by cases equal

theorem burnBond_standing (address : Text) (id : Id) (bond : Bond) :
    Returns ledger (burnBond address id bond) fun _ after => SameStanding ledger after := by
  unfold burnBond debitStaked
  refine (debitSupply_standing _).bind fun _ middle paid => ?_
  split <;>
    simp only [setTotalStakedActive, setTotalStaked, clearStakeBond, recordSlashEvent,
      recordAmountEvent, recordNativeEvent, returns_bind, returns_leaves, returns_put, returns_pure,
      returns_emit, returns_emitSide] <;>
    exact paid.trans ⟨fun other => by simp, fun other => by simp⟩

/-- What slashing does to whom it names: exactly they are banned besides those who were, it says
whether one of them was not, and the books of all who are not banned are as they were. -/
structure Slashes (named : List Text) (slashed : Bool) (before after : Ledger) : Prop where
  anyone : slashed = named.any fun address => !isValidatorBanned before.get address
  idle : slashed = false → after = before
  bans : ∀ id, isStakeBanned after.get id =
    (isStakeBanned before.get id || named.any fun address => addressId address == some id)
  books : ∀ id, isStakeBanned after.get id = false →
    after.get (.stakeRewards id) = before.get (.stakeRewards id)

theorem slashes_nobody (ledger : Ledger) : Slashes [] false ledger ledger :=
  ⟨rfl, fun _ => rfl, fun _ => by simp, fun _ _ => rfl⟩

/-- Slashing one and then the rest is slashing all of them. -/
theorem Slashes.cons {offender : Text} {rest : List Text} {first others : Bool} {middle : Ledger}
    (head : Slashes [offender] first before middle) (tail : Slashes rest others middle after) :
    Slashes (offender :: rest) (first || others) before after := by
  have bans : ∀ id, isStakeBanned after.get id = (isStakeBanned before.get id ||
      (offender :: rest).any fun address => addressId address == some id) := by
    intro id
    rw [tail.bans id, head.bans id, Bool.or_assoc, ← List.any_append, List.singleton_append]
  have books : ∀ id, isStakeBanned after.get id = false →
      after.get (.stakeRewards id) = before.get (.stakeRewards id) := by
    intro id unbanned
    rw [tail.books id unbanned]
    rw [tail.bans id, Bool.or_eq_false_iff] at unbanned
    exact head.books id unbanned.1
  have headAnyone := head.anyone
  rw [List.any_cons, List.any_nil, Bool.or_false] at headAnyone
  cases first with
  | true =>
    exact ⟨by rw [List.any_cons, ← headAnyone, Bool.true_or, Bool.true_or], by rintro ⟨⟩, bans,
      books⟩
  | false =>
    obtain rfl := head.idle rfl
    exact ⟨by rw [List.any_cons, ← headAnyone, tail.anyone], tail.idle, bans, books⟩

/-- After some have been slashed whose sums fit, the sums of others fit if they did before: whoever
is not banned has the same book, and whoever is now banned is one of the slashed. -/
theorem Slashes.sumsFit_iff {named others : List Text} {slashed : Bool}
    (slashes : Slashes named slashed before after) (fit : SumsFit named before) :
    SumsFit others after ↔ SumsFit others before := by
  have same : ∀ id, isStakeBanned after.get id = false →
      stakeRewardsOutstanding after.get id = stakeRewardsOutstanding before.get id := by
    intro id unbanned
    rw [stakeRewardsOutstanding, stakeRewardsOutstanding, stakeRewards, stakeRewards,
      slashes.books id unbanned]
  constructor
  · intro fits address among id found unbanned
    cases banned : isStakeBanned after.get id with
    | false => exact same id banned ▸ fits address among id found banned
    | true =>
      rw [slashes.bans id, unbanned, Bool.false_or, List.any_eq_true] at banned
      obtain ⟨other, slashed, names⟩ := banned
      exact fit other slashed id (beq_iff_eq.mp names) unbanned
  · intro fits address among id found unbanned
    rw [same id unbanned]
    refine fits address among id found ?_
    rw [slashes.bans id, Bool.or_eq_false_iff] at unbanned
    exact unbanned.1

/-- Slashing a validator says whether it was not banned before. -/
theorem slashValidator_returns {address : Text} {id : Id} (found : addressId address = some id)
    (fit : SumsFit [address] ledger) :
    Returns ledger (slashValidator address) fun slashed after =>
      Slashes [address] slashed ledger after := by
  have standing : isValidatorBanned ledger.get address =
      isStakeBanned ledger.get id := by
    rw [isValidatorBanned, found, Option.any_some]
  unfold slashValidator
  rw [found]
  simp only [returns_bind, returns_leaves]
  split
  next banned =>
    rw [returns_pure]
    refine ⟨by simp [standing, banned], fun _ => rfl, fun other => ?_, fun _ _ => rfl⟩
    by_cases same : id = other
    · simp [← same, banned]
    · simp [found, same]
  next fresh =>
  rw [returns_bind, setStakeBanned, returns_put]
  have forfeits : ∀ middle, SameStanding (ledger.write (.stakeBanned id) ()) middle →
      Returns middle (do
        let forfeited ← expect (stakeRewardsOutstanding ledger.get id)
        debitSupply forfeited
        clearStakeRewards id
        return true) fun slashed after => Slashes [address] slashed ledger after := by
    intro middle same
    obtain ⟨forfeited, sums⟩ := Option.isSome_iff_exists.mp
      (fit address List.mem_cons_self id found (Bool.not_eq_true _ ▸ fresh))
    rw [returns_bind, returns_expect]
    refine ⟨forfeited, sums, (debitSupply_standing _).bind fun _ paid later => ?_⟩
    rw [clearStakeRewards, returns_bind, returns_put, returns_pure]
    have same := same.trans later
    have bans : ∀ other, isStakeBanned (paid.write (.stakeRewards id) none).get other =
        (isStakeBanned ledger.get other || [address].any fun named =>
          addressId named == some other) := by
      intro other
      rw [isStakeBanned, get_write_ne _ (by rintro ⟨⟩), same.banned other]
      by_cases equal : id = other
      · subst equal
        simp [found]
      · have apart : LeafKey.stakeBanned id ≠ .stakeBanned other := fun both =>
          equal (LeafKey.stakeBanned.inj both)
        simp [found, equal, get_write_ne _ apart, isStakeBanned]
    refine ⟨by simp [standing, fresh], by rintro ⟨⟩, bans, fun other unbanned => ?_⟩
    have apart : id ≠ other := by
      rintro rfl
      simp [bans, found] at unbanned
    rw [get_write_ne _ (by simpa using apart), same.rewards other, get_write_ne _ (by rintro ⟨⟩)]
  split
  · exact (burnBond_standing address id _).bind fun _ => forfeits
  · exact forfeits _ ⟨fun _ => rfl, fun _ => rfl⟩

/-- Slashing a validator whose sum does not fit does not return: the sum is taken after the bond is
burned, and panics. -/
theorem slashValidator_panics {address : Text} {id : Id} (found : addressId address = some id)
    (unfit : ¬ SumsFit [address] ledger) :
    Ensures ledger (slashValidator address) fun _ _ => False := by
  have overflows : isStakeBanned ledger.get id = false ∧
      stakeRewardsOutstanding ledger.get id = none := by
    simpa [SumsFit, found] using unfit
  unfold slashValidator
  rw [found]
  simp only [ensures_bind, ensures_leaves, overflows, Bool.false_eq_true, if_false, setStakeBanned,
    ensures_put]
  split
  · exact (burnBond_standing address id _).ensures.bind fun _ _ _ => by simp
  · simp

/-- Slashing returns true exactly if someone is newly banned. -/
theorem Slashes.newly {offenders : List Text} {slashed : Bool}
    (slashes : Slashes offenders slashed before after)
    (named : ∀ offender ∈ offenders, (addressId offender).isSome) :
    slashed = true ↔ ∃ id, isStakeBanned before.get id = false ∧
      isStakeBanned after.get id = true := by
  constructor
  · intro returned
    rw [slashes.anyone, List.any_eq_true] at returned
    obtain ⟨offender, member, fresh⟩ := returned
    obtain ⟨id, found⟩ := Option.isSome_iff_exists.mp (named offender member)
    rw [isValidatorBanned, found, Option.any_some, Bool.not_eq_true'] at fresh
    refine ⟨id, fresh, ?_⟩
    rw [slashes.bans id, fresh, Bool.false_or, List.any_eq_true]
    exact ⟨offender, member, by rw [found, beq_self_eq_true]⟩
  · rintro ⟨id, fresh, banned⟩
    by_contra refused
    rw [slashes.idle (Bool.not_eq_true _ ▸ refused), fresh] at banned
    cases banned

end QuantovaChain.Ledger

namespace QuantovaChain.Node

open State (Bytes)
open Idfmt (Text)
open Ledger Leaves
open Tx (Wrapper)
open Transaction

theorem sumsFit_cons {offender : Text} {rest : List Text} {ledger : Ledger} :
    SumsFit (offender :: rest) ledger ↔ SumsFit [offender] ledger ∧ SumsFit rest ledger := by
  simp [SumsFit]

section Slash

variable {offenders : List Text} (named : ∀ offender ∈ offenders, (addressId offender).isSome)

include named

/-- Slashing in turn says whether anyone was not banned before. -/
theorem slashAll_returns : ∀ {ledger : Ledger}, SumsFit offenders ledger →
    Returns ledger (slashAll offenders) fun slashed after =>
      Slashes offenders slashed ledger after := by
  induction offenders with
  | nil => exact fun {ledger} _ => returns_pure.mpr (slashes_nobody ledger)
  | cons offender rest hypothesis =>
    intro ledger fit
    obtain ⟨fitFirst, fitRest⟩ := sumsFit_cons.mp fit
    obtain ⟨id, found⟩ := Option.isSome_iff_exists.mp (named offender List.mem_cons_self)
    refine (slashValidator_returns found fitFirst).bind fun first middle head => ?_
    refine (hypothesis (List.forall_mem_cons.mp named).2
      ((head.sumsFit_iff fitFirst).mpr fitRest)).bind fun others after tail => ?_
    exact returns_pure.mpr (head.cons tail)

/-- Slashing in turn does not return if the sum of one does not fit. By induction on the list: those
before it are slashed and leave it as it was. -/
theorem slashAll_panics : ∀ {ledger : Ledger}, ¬ SumsFit offenders ledger →
    Ensures ledger (slashAll offenders) fun _ _ => False := by
  induction offenders with
  | nil => exact fun unfit => absurd (List.forall_mem_nil _) unfit
  | cons offender rest hypothesis =>
    intro ledger unfit
    obtain ⟨id, found⟩ := Option.isSome_iff_exists.mp (named offender List.mem_cons_self)
    by_cases fitFirst : SumsFit [offender] ledger
    · have unfitRest : ¬ SumsFit rest ledger :=
        fun fits => unfit (sumsFit_cons.mpr ⟨fitFirst, fits⟩)
      refine (slashValidator_returns found fitFirst).ensures.bind fun _ _ head => ?_
      exact (hypothesis (List.forall_mem_cons.mp named).2
        (mt (head.sumsFit_iff fitFirst).mp unfitRest)).bind fun _ _ => False.elim
    · exact (slashValidator_panics found fitFirst).bind fun _ _ => False.elim

end Slash

/-! ## The pool and a block -/

/-- Whoever has a key has an address. -/
theorem named_of_keyed (state : Leaves) {address : Text}
    (keyed : (state.validatorAttestKey address).isSome) : (addressId address).isSome := by
  obtain ⟨key, found⟩ := Option.isSome_iff_exists.mp keyed
  simp only [validatorAttestKey, Option.bind_eq_bind, Option.bind_eq_some_iff] at found
  obtain ⟨id, found, -⟩ := found
  rw [found, Option.isSome_some]

section Lane

variable [Platform]

/-- What evidence of two finalized blocks is, is nothing else that has a tag; and whoever it proves
to have finalized twice has a key. -/
structure Unambiguous : Prop where
  apart : ∀ args, (Platform.decodeDoubleFinality args).isSome →
    decodeSingle [.prevoteEquivocation, .proposalEquivocation, .lockViolation] args = none
  keyed : ∀ chainId genesis evidence keyOf offenders,
    Platform.doubleFinalityOffenders chainId genesis evidence keyOf = some offenders →
      ∀ offender ∈ offenders, (keyOf offender).isSome

/-- Evidence as the pool finds out what it is. -/
def poolCharge (args : Bytes) : Option Charge :=
  match decodeSingle [.prevoteEquivocation, .proposalEquivocation, .lockViolation] args with
  | some charge => some charge
  | none =>
    match Platform.decodeDoubleFinality args with
    | some evidence => some (.double evidence)
    | none => decodeSingle [.equivocation] args

/-- The order in which the formats are tried does not matter. -/
theorem Unambiguous.poolCharge_eq (rules : Unambiguous) (args : Bytes) :
    poolCharge args = decodeCharge args := by
  unfold poolCharge decodeCharge
  cases double : Platform.decodeDoubleFinality args with
  | some evidence => rw [rules.apart args (by rw [double, Option.isSome_some])]
  | none =>
    rw [show [Offence.prevoteEquivocation, .proposalEquivocation, .lockViolation, .equivocation] =
      [.prevoteEquivocation, .proposalEquivocation, .lockViolation] ++ [.equivocation] from rfl]
    simp only [decodeSingle, List.findSome?_append]
    cases List.findSome? _ [Offence.prevoteEquivocation, .proposalEquivocation, .lockViolation] <;> rfl

/-- Whom a charge names, if it is proven. -/
def proven (state : Leaves) (context : Context) (chainId : U64) : Charge → List Text
  | .double evidence => (doubleFinalityProven state context chainId evidence).getD []
  | .single offence accusation =>
    if accusationProven state context chainId offence accusation then [accusation.offender] else []

/-- Whoever is proven guilty is a validator with a key, and so has an address. -/
theorem Unambiguous.proven_named (rules : Unambiguous) (state : Leaves) (context : Context)
    (chainId : U64) (charge : Charge) :
    ∀ offender ∈ proven state context chainId charge, (addressId offender).isSome := by
  cases charge with
  | double evidence =>
    rw [proven, doubleFinalityProven]
    split
    · cases found : Platform.doubleFinalityOffenders chainId state.chainGenesisHash evidence
        state.validatorAttestKey with
      | none => exact List.forall_mem_nil _
      | some offenders =>
        exact fun offender member => named_of_keyed state (rules.keyed _ _ _ _ _ found offender member)
    · exact List.forall_mem_nil _
  | single offence accusation =>
    rw [proven]
    split
    next holds =>
      intro offender member
      rw [List.mem_singleton.mp member]
      apply named_of_keyed state
      cases keyed : state.validatorAttestKey accusation.offender with
      | none => simp [accusationProven, keyed] at holds
      | some key => rfl
    next => exact List.forall_mem_nil _

/-- The pool admits evidence that proves someone guilty who is not banned. -/
theorem evidenceAdmissible_eq (setting : Setting) (state : Leaves) (wrapper : Wrapper) :
    evidenceAdmissible setting state wrapper =
      (poolCharge wrapper.body.call.args).any fun charge =>
        (proven state (setting.context []) setting.params.chainId charge).any fun offender =>
          !state.isValidatorBanned offender := by
  unfold evidenceAdmissible
  dsimp only [poolCharge]
  congr 1
  funext charge
  cases charge with
  | double evidence =>
    dsimp only [proven]
    cases doubleFinalityProven state (setting.context []) setting.params.chainId evidence <;> rfl
  | single offence accusation =>
    dsimp only [proven]
    cases accusationProven state (setting.context []) setting.params.chainId offence accusation <;>
      simp

/-- Whom the evidence of a transaction proves guilty. -/
def accused (state : Leaves) (context : Context) (chainId : U64) (wrapper : Wrapper) : List Text :=
  ((decodeCharge wrapper.body.call.args).map (proven state context chainId)).getD []

/-- A block slashes the accused in turn. -/
theorem dispatchEvidence_plain (ledger : Ledger) (context : Context) (wrapper : Wrapper)
    (chainId : U64) :
    (dispatchEvidence context wrapper chainId).plain ledger =
      (slashAll (accused ledger.get context chainId wrapper)).plain ledger := by
  have alone : ∀ offender, (slashAll [offender]).plain ledger =
      (slashValidator offender).plain ledger := by
    intro offender
    simp only [slashAll, Transaction.Program.bind_eq, Transaction.Program.plain_bind]
    rcases (slashValidator offender).plain ledger with ⟨_ | slashed, after⟩
    · rfl
    · cases slashed <;> rfl
  unfold dispatchEvidence accused
  cases decodeCharge wrapper.body.call.args with
  | none => rfl
  | some charge =>
    cases charge with
    | double evidence =>
      rw [Option.map_some, Option.getD_some, proven, leaves, Transaction.Program.bind_eq]
      simp only [Transaction.Program.bind, Transaction.Program.plain, State.view]
      cases doubleFinalityProven ledger.get context chainId evidence <;> rfl
    | single offence accusation =>
      show Transaction.Program.plain (if accusationProven ledger.get context chainId offence
        accusation then slashValidator accusation.offender else pure false) ledger = _
      rw [Option.map_some, Option.getD_some, proven]
      split
      · rw [alone]
      · rfl

/-- The pool admits evidence exactly if a block would act on it, for any formats and checks that
leave no doubt what a piece of evidence is. -/
theorem Unambiguous.predicts (rules : Unambiguous) (ledger : Ledger) (setting : Setting) (tx : Text)
    (wrapper : Wrapper) :
    let program := dispatchEvidence (setting.context tx) wrapper setting.params.chainId
    let offenders := accused ledger.get (setting.context tx) setting.params.chainId wrapper
    (SumsFit offenders ledger →
      Returns ledger program fun slashed after =>
        slashed = evidenceAdmissible setting ledger.get wrapper ∧
          (slashed = true ↔ ∃ id, isStakeBanned ledger.get id = false ∧
            isStakeBanned after.get id = true)) ∧
      (¬ SumsFit offenders ledger →
        evidenceAdmissible setting ledger.get wrapper = true ∧
          Ensures ledger program fun _ _ => False) := by
  intro program offenders
  have named : ∀ offender ∈ offenders, (addressId offender).isSome := by
    dsimp only [offenders, accused]
    cases decodeCharge wrapper.body.call.args with
    | none => exact List.forall_mem_nil _
    | some charge => exact rules.proven_named _ _ _ charge
  have admits : evidenceAdmissible setting ledger.get wrapper =
      offenders.any fun offender => !isValidatorBanned ledger.get offender := by
    rw [evidenceAdmissible_eq, rules.poolCharge_eq]
    dsimp only [offenders, accused]
    cases decodeCharge wrapper.body.call.args <;> rfl
  have runs := dispatchEvidence_plain ledger (setting.context tx) wrapper setting.params.chainId
  refine ⟨fun fit => ?_, fun unfit => ⟨?_, ?_⟩⟩
  · have returns := (slashAll_returns named fit).mono fun slashed after slashes =>
      And.intro (slashes.anyone.trans admits.symm) (slashes.newly named)
    unfold Returns at returns ⊢
    rwa [runs]
  · simp only [SumsFit, not_forall] at unfit
    obtain ⟨offender, among, id, found, unbanned, -⟩ := unfit
    rw [admits, List.any_eq_true]
    exact ⟨offender, among, by simp [isValidatorBanned, found, unbanned]⟩
  · have panics := slashAll_panics named unfit
    unfold Ensures at panics ⊢
    rwa [runs]

end Lane

/-- The evidence of this chain is unambiguous. -/
theorem evidence_unambiguous (base : Platform) (externals : Evidence.Externals) :
    @Unambiguous (Evidence.evidencePlatform base externals) := by
  refine @Unambiguous.mk (Evidence.evidencePlatform base externals) ?_ ?_
  · intro args isDouble
    obtain ⟨evidence, found⟩ := Option.isSome_iff_exists.mp isDouble
    obtain ⟨double, read, -⟩ := Option.map_eq_some_iff.mp found
    have noPrevote : Evidence.PrevoteEquivocation.decode args = none :=
      Evidence.tagged_apart Evidence.DoubleFinality.inverts_get
        Evidence.PrevoteEquivocation.inverts_get (by decide) (by decide) (by decide) read
    have noProposal : Evidence.ProposalEquivocation.decode args = none :=
      Evidence.tagged_apart Evidence.DoubleFinality.inverts_get
        Evidence.ProposalEquivocation.inverts_get (by decide) (by decide) (by decide) read
    have noLock : Evidence.LockViolation.decode args = none :=
      Evidence.tagged_apart Evidence.DoubleFinality.inverts_get
        Evidence.LockViolation.inverts_get (by decide) (by decide) (by decide) read
    refine List.findSome?_eq_none_iff.mpr fun offence member => ?_
    refine Option.map_eq_none_iff.mpr (?_ : Evidence.decodeAccusation offence args = none)
    simp only [List.mem_cons, List.not_mem_nil, or_false] at member
    obtain rfl | rfl | rfl := member
    · rw [Evidence.decodeAccusation, noPrevote, Option.map_none]
    · rw [Evidence.decodeAccusation, noProposal, Option.map_none]
    · rw [Evidence.decodeAccusation, noLock, Option.map_none]
  · intro chainId genesis evidence keyOf offenders found
    obtain ⟨double, -, proven⟩ := Option.bind_eq_some_iff.mp found
    exact Evidence.DoubleFinality.offenders_keyed externals _ proven

/-- The pool admits evidence exactly if a block would return true on it, that is, ban someone who is
not banned, as long as what each of the accused has not claimed is a word. If for one of them who is
not banned it is no word, the evidence is admitted and the block panics. No bytes are evidence of
two kinds, so the order in which they are tried does not matter. -/
theorem evidence_admission_predicts_execution (base : Platform) (externals : Evidence.Externals)
    (setting : Setting) (tx : Text) (ledger : Ledger) (wrapper : Wrapper) :
    letI := Evidence.evidencePlatform base externals
    let ran := (dispatchEvidence (setting.context tx) wrapper setting.params.chainId).plain ledger
    let offenders := accused ledger.get (setting.context tx) setting.params.chainId wrapper
    (SumsFit offenders ledger →
      (evidenceAdmissible setting ledger.get wrapper = true ↔ ran.1 = some true) ∧
        (ran.1 = some true ↔ ∃ id, Leaves.isStakeBanned ledger.get id = false ∧
          Leaves.isStakeBanned ran.2.get id = true) ∧ ran.1.isSome) ∧
      (¬ SumsFit offenders ledger →
        evidenceAdmissible setting ledger.get wrapper = true ∧ ran.1 = none) := by
  intro ran offenders
  obtain ⟨fits, overflows⟩ := @Unambiguous.predicts (Evidence.evidencePlatform base externals)
    (evidence_unambiguous base externals) ledger setting tx wrapper
  refine ⟨fun fit => ?_, fun unfit => ?_⟩
  · obtain ⟨slashed, returned, rfl, newly⟩ := fits fit
    have returned : ran.1 = some _ := returned
    rw [returned, Option.some.injEq]
    exact ⟨Iff.rfl, newly, rfl⟩
  · exact ⟨(overflows unfit).1, Option.eq_none_iff_forall_ne_some.mpr (overflows unfit).2⟩

/-- A platform that takes every signature of one byte under every key of one byte. -/
@[reducible] def credulousPlatform : Platform :=
  { Platform.blank with
    mlDsaPublicKeyBytes := 1
    mlDsaSignatureBytes := 1
    mlDsaVerify := fun _ _ _ _ => true }

def noExternals : Evidence.Externals := ⟨[], fun _ => Vector.replicate 32 0, fun _ _ _ _ => []⟩

def laneSetting : Setting :=
  ⟨none, 2, 1, ⟨500, 1, 1, 1000, Tx.localChainId, qtovAssetTag, Vector.replicate 32 0⟩, 0⟩

/-- A vote of whoever is named. -/
def voteOf (signer : String) : Evidence.FinalityVote :=
  ⟨signer, 0, 0, Vector.replicate 32 0, [1]⟩

/-- The validators zero and one have finalized two blocks. -/
def twoBlocks : Evidence.DoubleFinality :=
  let zero := voteOf "Q1QQQQQQQQQQQQQQQQQQQQQQQQQQQQQQQQQQQQQQQQQQQQQQQQQQQQQQCT3U"
  let one := voteOf "Q1QYQSZQGPQYQSZQGPQYQSZQGPQYQSZQGPQYQSZQGPQYQSZQGPQYQS9JP387"
  { height := 0, blockA := [1], votesA := [zero, one], blockB := [2], votesB := [one, zero] }

def accusing : Wrapper where
  body :=
    { sender := [], nonce := 0, meterLimit := 0, fee := 0, value := 0, chainId := Tx.localChainId
      call := ⟨[], twoBlocks.encode⟩, inAsset := none, validUntil := 0, kind := Tx.kindCall }
  scheme := Tx.schemeLattice
  signature := []

/-- The validators zero and one have keys. -/
def keyedLedger : Ledger :=
  (emptyLedger.write (.stakeAttest (Vector.replicate 32 0)) [1]).write
    (.stakeAttest (Vector.replicate 32 1)) [1]

/-- The validator one has not claimed twice the largest word. -/
def overdrawnLedger : Ledger :=
  keyedLedger.write (.stakeRewards (Vector.replicate 32 1))
    (some ⟨[⟨0, Word.top 64, 0⟩, ⟨0, Word.top 64, 0⟩], 0, 0⟩)

theorem keyedLedger_sumsFit (named : List Text) : SumsFit named keyedLedger := by
  intro _ _ id _ _
  rw [stakeRewardsOutstanding, stakeRewards, keyedLedger, State.get_write_ne _ (by rintro ⟨⟩),
    State.get_write_ne _ (by rintro ⟨⟩), get_emptyLedger]
  rfl

/-- Evidence that two validators finalized two blocks is admitted, and a block acts on it. -/
theorem evidence_admission_predicts_execution_twoBlocks :
    letI := Evidence.evidencePlatform credulousPlatform noExternals
    (accused keyedLedger.get (laneSetting.context []) laneSetting.params.chainId accusing).length =
        2 ∧
      evidenceAdmissible laneSetting keyedLedger.get accusing = true ∧
      ((dispatchEvidence (laneSetting.context []) accusing laneSetting.params.chainId).plain
        keyedLedger).1 = some true := by
  have admitted : @evidenceAdmissible (Evidence.evidencePlatform credulousPlatform noExternals)
      laneSetting keyedLedger.get accusing = true := by decide +kernel
  exact ⟨by decide +kernel, admitted, ((evidence_admission_predicts_execution credulousPlatform
    noExternals laneSetting [] keyedLedger accusing).1 (keyedLedger_sumsFit _)).1.mp admitted⟩

/-- If what one of the accused has not claimed is no word, the evidence is admitted and a block
panics on it. -/
theorem overdrawn_evidence_panics :
    letI := Evidence.evidencePlatform credulousPlatform noExternals
    evidenceAdmissible laneSetting overdrawnLedger.get accusing = true ∧
      ((dispatchEvidence (laneSetting.context []) accusing laneSetting.params.chainId).plain
        overdrawnLedger).1 = none := by
  decide +kernel

end QuantovaChain.Node
