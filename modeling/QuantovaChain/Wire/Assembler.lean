import Mathlib.Data.List.AList
import QuantovaChain.Wire.Coded

/-!
# The assembler of coded proposals

A node collects the shards of proposals from any source. The first shard of a height and view whose
authentication verifies pins the commitment for that slot. Shards are kept by view and root until
there are enough, within a budget of bytes, and then the proposal is put back together once.

The maps of the source are hash maps, so which of several lowest entries is evicted is not
determined. Every call is given a choice among the lowest.
-/

namespace QuantovaChain.Wire

open State (Hash)
open Chain (Header)
open Net (Commitment Shard ShardProof)

variable [Sizes]

def prepinTokensPerTick : U32 := 8

/-- A view and the root of a commitment. -/
abbrev ProposalKey := U64 × Hash

def maxPendingProposals : Nat := 256

def maxDoneKeys : Nat := 4096

def maxPinnedSlots : Nat := 4096

def maxAssemblerBytes : Nat := 128 * 1024 * 1024

def maxObservedAuths : Nat := 256

structure Pending where
  height : U64
  view : U64
  header : Header
  commitment : Commitment
  pieces : List (Shard × ShardProof)
  overhead : Nat
  auth : Attestation
  authDigest : Hash

structure SignedCoded where
  view : U64
  headerHash : Hash
  commitment : Commitment
  auth : Attestation

omit [Sizes] in
def pieceWeight (piece : Shard × ShardProof) : Nat :=
  piece.1.bytes.length + piece.2.siblings.length * 32

def entryWeight (pending : Pending) : Nat :=
  pending.overhead + (pending.pieces.map pieceWeight).sum

def codedOverhead (header : Header) (commitment : Commitment) (auth : Attestation) : Nat :=
  (header.encode ++ encodeCommitment commitment ++ encodeAttestation auth).length

structure ProposalAssembler where
  pending : AList fun _ : ProposalKey => Pending
  done : AList fun _ : ProposalKey => U64
  pinned : AList fun _ : U64 × U64 => Commitment × Hash
  prepinTokens : AList fun _ : U64 => U32
  horizon : U64
  roundHeight : U64
  bytes : Nat
  maxBytes : Nat
  observed : List SignedCoded

/-- A choice of an entry of the lowest height. -/
structure Lowest where
  choose : List (ProposalKey × U64) → Option ProposalKey
  choose_mem : ∀ {entries key}, choose entries = some key →
    ∃ height, (key, height) ∈ entries ∧ ∀ entry ∈ entries, height ≤ entry.2
  choose_none : ∀ {entries}, choose entries = none → entries = []

omit [Sizes] in
/-- The entries of a map that satisfy a condition. -/
def retain {κ : Type} {β : κ → Type} (keep : ∀ key, β key → Bool) (map : AList β) : AList β :=
  ⟨map.entries.filter fun entry => keep entry.1 entry.2,
    List.NodupKeys.sublist List.filter_sublist map.nodupKeys⟩

namespace ProposalAssembler

def new : ProposalAssembler where
  pending := ∅
  done := ∅
  pinned := ∅
  prepinTokens := ∅
  horizon := 0
  roundHeight := 0
  bytes := 0
  maxBytes := maxAssemblerBytes
  observed := []

variable (lowest : Lowest) (available : Nat) (assembler : ProposalAssembler)

def takeObserved : ProposalAssembler × List SignedCoded :=
  ({ assembler with observed := [] }, assembler.observed)

def observe (coded : CodedProposal) : ProposalAssembler :=
  if assembler.observed.length < maxObservedAuths then
    { assembler with observed := assembler.observed ++
        [{ view := coded.view, headerHash := headerHash coded.header,
           commitment := coded.commitment, auth := coded.auth }] }
  else assembler

/-- Spends a token of a source, if it has one left. -/
def spendToken (source : U64) : ProposalAssembler × Bool :=
  let tokens := (assembler.prepinTokens.lookup source).getD prepinTokensPerTick
  if tokens = 0 then
    ({ assembler with prepinTokens := assembler.prepinTokens.insert source tokens }, false)
  else
    ({ assembler with prepinTokens := assembler.prepinTokens.insert source (tokens.satSub 1) }, true)

def tick : ProposalAssembler :=
  { assembler with prepinTokens := ∅ }

def setRoundHeight (height : U64) : ProposalAssembler :=
  { assembler with roundHeight := height }

/-- The weight of all entries. -/
def totalWeight : Nat :=
  (assembler.pending.entries.map fun entry => entryWeight entry.2).sum

def prune (height : U64) : ProposalAssembler :=
  if height ≤ assembler.horizon then assembler
  else
    let floor := height.satSub 2
    let kept := { assembler with
      horizon := height
      pending := retain (fun _ pending => decide (floor ≤ pending.height)) assembler.pending
      done := retain (fun _ height => decide (floor ≤ height)) assembler.done
      pinned := retain (fun slot _ => decide (floor ≤ slot.1)) assembler.pinned }
    { kept with bytes := kept.totalWeight }

/-- Removes a pending entry and its weight. -/
def evict (key : ProposalKey) : ProposalAssembler :=
  match assembler.pending.lookup key with
  | none => assembler
  | some pending =>
    { assembler with
      pending := assembler.pending.erase key
      bytes := assembler.bytes - entryWeight pending }

/-- The pending entries with their heights. -/
def pendingHeights : List (ProposalKey × U64) :=
  assembler.pending.entries.map fun entry => (entry.1, entry.2.height)

def evictLowestPending : ProposalAssembler :=
  match lowest.choose assembler.pendingHeights with
  | none => assembler
  | some key => assembler.evict key

/-- Evicts entries other than one until a weight fits. Every round but the last removes an entry, so
there are at most as many rounds as entries, and one more. -/
def evictUntilFits (lowest : Lowest) (weight : Nat) (keep : ProposalKey) :
    Nat → ProposalAssembler → ProposalAssembler
  | 0, assembler => assembler
  | rounds + 1, assembler =>
    if assembler.bytes + weight ≤ assembler.maxBytes then assembler
    else
      match lowest.choose (assembler.pendingHeights.filter fun entry => entry.1 ≠ keep) with
      | none => assembler
      | some key => evictUntilFits lowest weight keep rounds (assembler.evict key)

def evictLowestDone : ProposalAssembler :=
  match lowest.choose (assembler.done.entries.map fun entry => (entry.1, entry.2)) with
  | none => assembler
  | some key => { assembler with done := assembler.done.erase key }

/-- Checks a shard against the pin of its slot, and sets the pin if there is none. -/
def pin (coded : CodedProposal) (source : U64) (verifyAuth : CodedProposal → Bool) :
    ProposalAssembler × Bool :=
  let slot := (coded.header.height, coded.view)
  let authDigest := attestationDigest coded.auth
  match assembler.pinned.lookup slot with
  | some (pinned, pinnedAuth) =>
    if pinned ≠ coded.commitment then
      let (spent, allowed) := assembler.spendToken source
      (if allowed && verifyAuth coded then spent.observe coded else spent, false)
    else (assembler, pinnedAuth == authDigest)
  | none =>
    if maxPinnedSlots ≤ assembler.pinned.entries.length then (assembler, false)
    else
      let (spent, allowed) := assembler.spendToken source
      if !allowed || !verifyAuth coded then (spent, false)
      else
        let observed := spent.observe coded
        ({ observed with pinned := observed.pinned.insert slot (coded.commitment, authDigest) },
          true)

/-- The entry that a first shard opens. -/
def opened (coded : CodedProposal) : Pending where
  height := coded.header.height
  view := coded.view
  header := coded.header
  commitment := coded.commitment
  pieces := []
  overhead := codedOverhead coded.header coded.commitment coded.auth
  auth := coded.auth
  authDigest := attestationDigest coded.auth

/-- The proposal that the pieces of an entry make. -/
def assemble (pending : Pending) : Except CodedError Proposal := do
  let block ← reconstructBlock available pending.header (headerHash pending.header)
    pending.commitment pending.pieces
  let justification ← (justificationFromBytes block.certificate).mapError fun _ => .decode
  return { view := pending.view, header := pending.header, body := block.body, justification,
           auth := pending.auth }

/-- Removes a finished entry and remembers that it is done. -/
def finish (key : ProposalKey) (pending : Pending) : ProposalAssembler :=
  let removed := { assembler with
    pending := assembler.pending.erase key
    bytes := assembler.bytes - entryWeight pending }
  let room :=
    if (removed.done.lookup key).isNone && decide (maxDoneKeys ≤ removed.done.entries.length) then
      removed.evictLowestDone lowest
    else removed
  { room with done := room.done.insert key pending.height }

/-- The entry of a proposal, and whether it is new: a first shard opens it. -/
def enter (coded : CodedProposal) : ProposalAssembler × Pending × Bool :=
  let key := (coded.view, coded.commitment.root)
  match assembler.pending.lookup key with
  | some entry => (assembler, entry, false)
  | none =>
    let room :=
      if maxPendingProposals ≤ assembler.pending.entries.length then
        assembler.evictLowestPending lowest
      else assembler
    ({ room with pending := room.pending.insert key (opened coded) }, opened coded, true)

/-- Takes back an entry that was opened for a shard that does not fit. -/
def withdraw (key : ProposalKey) (isNew : Bool) : ProposalAssembler :=
  if isNew then { assembler with pending := assembler.pending.erase key } else assembler

/-- Adds a piece to its entry, and takes the entry out when it is complete. -/
def addPiece (key : ProposalKey) (piece : Shard × ShardProof) (weight : Nat) :
    ProposalAssembler × Option (Except CodedError Proposal) :=
  match assembler.pending.lookup key with
  | none => (assembler, none)
  | some found =>
    let grown := { found with pieces := found.pieces ++ [piece] }
    let added := { assembler with
      pending := assembler.pending.insert key grown
      bytes := assembler.bytes + weight }
    if grown.pieces.length < grown.commitment.k then (added, none)
    else (added.finish lowest key grown, some (assemble available grown))

/-- Makes room for a piece and adds it. -/
def fitPiece (key : ProposalKey) (piece : Shard × ShardProof) (weight : Nat) (isNew : Bool) :
    ProposalAssembler × Option (Except CodedError Proposal) :=
  if assembler.maxBytes < weight then (assembler.withdraw key isNew, none)
  else
    let fitted :=
      evictUntilFits lowest weight key (assembler.pending.entries.length + 1) assembler
    if fitted.maxBytes < fitted.bytes + weight then (fitted.withdraw key isNew, none)
    else fitted.addPiece lowest available key piece weight

/-- Adds a shard to the entry of its proposal, unless it contradicts the entry or is there. -/
def collect (coded : CodedProposal) : ProposalAssembler × Option (Except CodedError Proposal) :=
  let (stored, entry, isNew) := assembler.enter lowest coded
  if entry.commitment ≠ coded.commitment then (stored, none)
  else if entry.authDigest ≠ attestationDigest coded.auth then (stored, none)
  else if entry.pieces.any fun piece => piece.1.index == coded.shard.index then (stored, none)
  else
    let piece := (coded.shard, coded.proof)
    stored.fitPiece lowest available (coded.view, coded.commitment.root) piece
      (pieceWeight piece + if isNew then entry.overhead else 0) isNew

/-- The height below which entries are old: that of the round, or of the shard without a round. -/
def pruneFloor (height : U64) : U64 :=
  if assembler.roundHeight ≠ 0 then assembler.roundHeight else height

def admitCoded (coded : CodedProposal) (source : U64) (verifyAuth : CodedProposal → Bool) :
    ProposalAssembler × Option (Except CodedError Proposal) :=
  let height := coded.header.height
  let round := assembler.roundHeight
  if (assembler.done.lookup (coded.view, coded.commitment.root)).isSome then (assembler, none)
  else if !commitmentCanonical coded.commitment then (assembler, none)
  else if !coded.commitment.verifyShard coded.shard coded.proof then (assembler, none)
  else if round ≠ 0 ∧ (height < round ∨ round.satAdd 1 < height) then (assembler, none)
  else
    let pruned := assembler.prune (assembler.pruneFloor height)
    let (checked, accepted) := pruned.pin coded source verifyAuth
    if accepted then checked.collect lowest available coded else (checked, none)

end ProposalAssembler

/-! ## Runs -/

/-- What happens to an assembler. -/
inductive AssemblerEvent
  | admitCoded (lowest : Lowest) (available : Nat) (coded : CodedProposal) (source : U64)
      (verifyAuth : CodedProposal → Bool)
  | tick
  | setRoundHeight (height : U64)
  | takeObserved

/-- The proposals and failures that a run of an assembler returns, each with the shard that it was
returned for. -/
def outcomes : ProposalAssembler → List AssemblerEvent →
    List (CodedProposal × Except CodedError Proposal)
  | _, [] => []
  | assembler, .admitCoded lowest available coded source verifyAuth :: events =>
    let (next, result) := assembler.admitCoded lowest available coded source verifyAuth
    result.toList.map (coded, ·) ++ outcomes next events
  | assembler, .tick :: events => outcomes assembler.tick events
  | assembler, .setRoundHeight height :: events => outcomes (assembler.setRoundHeight height) events
  | assembler, .takeObserved :: events => outcomes assembler.takeObserved.1 events

/-! ## What is returned -/

namespace ProposalAssembler

variable {available : Nat} {proposal : Proposal} {assembler : ProposalAssembler} {lowest : Lowest}
  {key : ProposalKey}

theorem assemble_ok {pending : Pending} (assembled : assemble available pending = .ok proposal) :
    Carries pending.commitment proposal.header proposal.body proposal.justification := by
  obtain ⟨block, rebuilt, assembled⟩ := bind_eq_ok.mp assembled
  obtain ⟨justification, read, assembled⟩ := bind_eq_ok.mp assembled
  cases assembled
  exact carries_of_rebuilt rebuilt (mapError_eq_ok.mp read)

/-- Eviction leaves every other entry alone. -/
theorem lookup_evict {other : ProposalKey} (apart : other ≠ key) :
    (assembler.evict key).pending.lookup other = assembler.pending.lookup other := by
  unfold evict
  split
  next => rfl
  next => exact AList.lookup_erase_ne apart

theorem lookup_evictUntilFits (lowest : Lowest) (weight : Nat) (keep : ProposalKey) (rounds : Nat)
    (assembler : ProposalAssembler) :
    (evictUntilFits lowest weight keep rounds assembler).pending.lookup keep =
      assembler.pending.lookup keep := by
  induction rounds generalizing assembler with
  | zero => rfl
  | succ rounds hypothesis =>
    rw [evictUntilFits]
    split
    next => rfl
    next =>
    split
    next => rfl
    next key chosen =>
      obtain ⟨height, among, -⟩ := lowest.choose_mem chosen
      have apart : key ≠ keep := by simpa using (List.mem_filter.mp among).2
      rw [hypothesis, lookup_evict apart.symm]

theorem lookup_enter (lowest : Lowest) (assembler : ProposalAssembler) (coded : CodedProposal) :
    (assembler.enter lowest coded).1.pending.lookup (coded.view, coded.commitment.root) =
      some (assembler.enter lowest coded).2.1 := by
  unfold enter
  dsimp only
  split
  next entry found => exact found
  next => exact AList.lookup_insert _

theorem addPiece_ok {weight : Nat} {piece : Shard × ShardProof}
    (returned : (assembler.addPiece lowest available key piece weight).2 = some (.ok proposal)) :
    ∃ entry, assembler.pending.lookup key = some entry ∧
      Carries entry.commitment proposal.header proposal.body proposal.justification := by
  unfold addPiece at returned
  split at returned
  next => cases returned
  next entry found =>
  dsimp only at returned
  split at returned
  next => cases returned
  next =>
  have carries := assemble_ok (Option.some.inj returned)
  exact ⟨entry, found, carries⟩

theorem fitPiece_ok {weight : Nat} {piece : Shard × ShardProof} {isNew : Bool}
    (returned : (assembler.fitPiece lowest available key piece weight isNew).2 =
      some (.ok proposal)) :
    ∃ entry, assembler.pending.lookup key = some entry ∧
      Carries entry.commitment proposal.header proposal.body proposal.justification := by
  unfold fitPiece at returned
  split at returned
  next => cases returned
  next =>
  dsimp only at returned
  split at returned
  next => cases returned
  next =>
  obtain ⟨entry, found, carries⟩ := addPiece_ok returned
  exact ⟨entry, by rwa [lookup_evictUntilFits] at found, carries⟩

theorem collect_ok {coded : CodedProposal}
    (returned : (assembler.collect lowest available coded).2 = some (.ok proposal)) :
    Carries coded.commitment proposal.header proposal.body proposal.justification := by
  have entered := lookup_enter lowest assembler coded
  unfold collect at returned
  generalize assembler.enter lowest coded = stored at entered returned
  obtain ⟨stored, entry, isNew⟩ := stored
  dsimp only at entered returned
  split at returned
  next => cases returned
  next committed =>
  split at returned
  next => cases returned
  next =>
  split at returned
  next => cases returned
  next =>
  obtain ⟨found, there, carries⟩ := fitPiece_ok returned
  cases entered.symm.trans there
  rwa [not_not.mp committed] at carries

theorem admitCoded_ok {coded : CodedProposal} {source : U64} {verifyAuth : CodedProposal → Bool}
    (returned :
      (assembler.admitCoded lowest available coded source verifyAuth).2 = some (.ok proposal)) :
    commitmentCanonical coded.commitment = true ∧
      Carries coded.commitment proposal.header proposal.body proposal.justification := by
  unfold admitCoded at returned
  dsimp only at returned
  split at returned
  next => cases returned
  next =>
  split at returned
  next => cases returned
  next canonical =>
  split at returned
  next => cases returned
  next =>
  split at returned
  next => cases returned
  next =>
  split at returned
  next => exact ⟨by simpa using canonical, collect_ok returned⟩
  next => cases returned

end ProposalAssembler

/-- What a run delivers is carried by the canonical commitment of the shard that it is delivered
for. -/
theorem outcomes_ok {assembler : ProposalAssembler} {events : List AssemblerEvent}
    {coded : CodedProposal} {proposal : Proposal}
    (delivered : (coded, .ok proposal) ∈ outcomes assembler events) :
    commitmentCanonical coded.commitment = true ∧
      Carries coded.commitment proposal.header proposal.body proposal.justification := by
  induction events generalizing assembler with
  | nil => exact absurd delivered List.not_mem_nil
  | cons event events hypothesis =>
    cases event with
    | admitCoded lowest available shard source verifyAuth =>
      rcases List.mem_append.mp delivered with now | later
      · simp only [List.mem_map, Option.mem_toList, Prod.mk.injEq] at now
        obtain ⟨result, returned, rfl, rfl⟩ := now
        exact ProposalAssembler.admitCoded_ok returned
      · exact hypothesis later
    | tick => exact hypothesis delivered
    | setRoundHeight height => exact hypothesis delivered
    | takeObserved => exact hypothesis delivered

end QuantovaChain.Wire
