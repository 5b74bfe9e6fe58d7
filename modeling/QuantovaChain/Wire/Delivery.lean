import QuantovaChain.Wire.Assembler

/-!
# Honest proposals are delivered

The shards of a proposal that its leader coded, given to a fresh assembler in any order, are
collected until there are as many as the data takes, and the last of them delivers the proposal. The
state on the way is one open entry with the pieces so far.
-/

namespace QuantovaChain.Wire

open State (Bytes Hash)
open Chain (Header)
open Net (Commitment Shard ShardProof Coded)

variable [Sizes]

/-! ## Putting a proposal back together -/

variable {commitment : Commitment} {pieces : List (Shard × ShardProof)} {piece : Shard × ShardProof}
  {proposal : Proposal} {assembler : ProposalAssembler} {height : U64}

/-- Shards that all verify, under different indices, are all taken, up to the number needed. -/
theorem verifiedShards_all {verified : List Shard}
    (good : ∀ piece ∈ pieces, commitment.verifyShard piece.1 piece.2 = true)
    (distinct : ((verified ++ pieces.map Prod.fst).map Shard.index).Nodup)
    (few : verified.length + pieces.length ≤ commitment.k) :
    verifiedShards commitment pieces verified = verified ++ pieces.map Prod.fst := by
  induction pieces generalizing verified with
  | nil => simp [verifiedShards]
  | cons piece rest hypothesis =>
    obtain ⟨shard, proof⟩ := piece
    obtain ⟨first, later⟩ := List.forall_mem_cons.mp good
    rw [List.length_cons] at few
    have fresh : verified.any (·.index == shard.index) = false := by
      rw [List.any_eq_false]
      intro found inside same
      simp only [List.map_cons, List.map_append] at distinct
      have apart := (List.nodup_append.mp distinct).2.2 found.index
        (List.mem_map_of_mem inside) shard.index List.mem_cons_self
      exact apart (beq_iff_eq.mp same)
    rw [verifiedShards, if_neg (by omega), first, fresh]
    have next : verifiedShards commitment rest (verified ++ [shard]) =
        verified ++ [shard] ++ rest.map Prod.fst := by
      refine hypothesis later (by simpa using distinct) ?_
      simp only [List.length_append, List.length_singleton]
      omega
    simpa using next

/-- A proposal that its leader can code and send. -/
structure Honest (proposal : Proposal) (coded : Coded) : Prop where
  encoded : ∃ available, Net.encode available
    (encodeChainBlock (proposalBlock proposal.header proposal.body proposal.justification))
    coded.commitment.k coded.commitment.n = .ok coded
  canonical : commitmentCanonical coded.commitment = true
  block : (proposalBlock proposal.header proposal.body proposal.justification).Fits
  records : ListFits ViewChange.Fits proposal.justification
  root : Chain.transactionRoot proposal.body = proposal.header.transactionRoot

/-- The pieces are shards of a coding with their proofs, under different indices. -/
structure Pieces (coded : Coded) (pieces : List (Shard × ShardProof)) : Prop where
  shards : ∀ piece ∈ pieces, piece.1 ∈ coded.shards
  proofs : ∀ piece ∈ pieces, coded.commitment.verifyShard piece.1 piece.2 = true
  distinct : (pieces.map fun piece => piece.1.index).Nodup

variable {coded : Coded} {arrivals : List Arrival} {last : Arrival}

/-- What is put back together from enough pieces is read off the data that was coded. -/
theorem Pieces.reconstructBlock {available : Nat} {data : Bytes}
    (encoded : Net.encode available data coded.commitment.k coded.commitment.n = .ok coded)
    (bounds : commitmentInBounds coded.commitment = true) (taken : Pieces coded pieces)
    (enough : pieces.length = coded.commitment.k) (cores : Nat) (header : Header) (hash : Hash) :
    reconstructBlock cores header hash coded.commitment pieces = do
      let block ← (chainBlockFromBytes data).mapError fun _ => .decode
      if block.header ≠ header ∨ headerHash block.header ≠ hash then .error .headerMismatch
      else if Chain.transactionRoot block.body ≠ header.transactionRoot then .error .bodyMismatch
      else return block := by
  have distinct : ((pieces.map Prod.fst).map Shard.index).Nodup := by
    rw [List.map_map]
    exact taken.distinct
  have verified : verifiedShards coded.commitment pieces [] = pieces.map Prod.fst :=
    verifiedShards_all taken.proofs (by simpa using distinct) (by simp [enough])
  have count : (pieces.map Prod.fst).length = coded.commitment.k := by
    rw [List.length_map, enough]
  have rebuilt : Net.reconstruct cores coded.commitment (pieces.map Prod.fst) = .ok data := by
    refine Net.reconstruct_of_encode cores encoded ?_ (Nat.le_of_eq count.symm) ?_
    · intro shard inside
      obtain ⟨piece, given, rfl⟩ := List.mem_map.mp inside
      exact taken.shards piece given
    · rw [List.take_of_length_le (Nat.le_of_eq count)]
      exact distinct
  rw [Wire.reconstructBlock, bounds, verified]
  simp only [count, rebuilt, encode_any encoded, Except.mapError, bind, Except.bind, Bool.not_true,
    Bool.false_eq_true, if_false, Nat.lt_irrefl, ne_eq, not_true]

theorem Honest.reconstructBlock (honest : Honest proposal coded)
    (taken : Pieces coded pieces) (enough : pieces.length = coded.commitment.k) (cores : Nat) :
    reconstructBlock cores proposal.header (headerHash proposal.header) coded.commitment pieces =
      .ok (proposalBlock proposal.header proposal.body proposal.justification) := by
  obtain ⟨available, encoded⟩ := honest.encoded
  have bounds : commitmentInBounds coded.commitment = true := by
    have canonical := honest.canonical
    simp only [commitmentCanonical, Bool.and_eq_true] at canonical
    exact canonical.1.1
  have read := chainBlockFromBytes_eq_ok.mpr ⟨honest.block, rfl⟩
  have headers : ¬((proposalBlock proposal.header proposal.body proposal.justification).header ≠
      proposal.header ∨ headerHash (proposalBlock proposal.header proposal.body
        proposal.justification).header ≠ headerHash proposal.header) := by
    simp [proposalBlock]
  have root : ¬Chain.transactionRoot (proposalBlock proposal.header proposal.body
      proposal.justification).body ≠ proposal.header.transactionRoot := not_not.mpr honest.root
  rw [taken.reconstructBlock encoded bounds enough, read]
  simp only [Except.mapError, bind, Except.bind, if_neg headers, if_neg root]
  rfl

/-- The entry of a proposal with some pieces. -/
def entryOf (proposal : Proposal) (commitment : Commitment) (pieces : List (Shard × ShardProof)) :
    Pending where
  height := proposal.header.height
  view := proposal.view
  header := proposal.header
  commitment := commitment
  pieces := pieces
  overhead := codedOverhead proposal.header commitment proposal.auth
  auth := proposal.auth
  authDigest := attestationDigest proposal.auth

theorem Honest.assemble (honest : Honest proposal coded)
    (taken : Pieces coded pieces) (enough : pieces.length = coded.commitment.k) (cores : Nat) :
    ProposalAssembler.assemble cores (entryOf proposal coded.commitment pieces) = .ok proposal := by
  have rebuilt := honest.reconstructBlock taken enough cores
  have read : justificationFromBytes (justificationToBytes proposal.justification) =
      .ok proposal.justification := justificationFromBytes_eq_ok.mpr ⟨honest.records, rfl⟩
  simp only [ProposalAssembler.assemble, entryOf, rebuilt, proposalBlock, read, Except.mapError,
    bind, Except.bind]
  rfl

/-! ## Collecting -/

/-- A shard of a proposal, as it is sent. -/
def shardOf (proposal : Proposal) (commitment : Commitment) (piece : Shard × ShardProof) :
    CodedProposal where
  view := proposal.view
  header := proposal.header
  commitment := commitment
  shard := piece.1
  proof := piece.2
  auth := proposal.auth

namespace ProposalAssembler

/-- The round is the proposal's, or there is none. -/
def AtRound (height : U64) (assembler : ProposalAssembler) : Prop :=
  assembler.roundHeight = 0 ∨ assembler.roundHeight = height

/-- The assembler holds one entry, with these pieces, and nothing is in its way. -/
structure Collecting (proposal : Proposal) (commitment : Commitment)
    (pieces : List (Shard × ShardProof)) (assembler : ProposalAssembler) : Prop where
  pending : assembler.pending = AList.singleton (proposal.view, commitment.root)
    (entryOf proposal commitment pieces)
  done : assembler.done = ∅
  pinned : assembler.pinned.lookup (proposal.header.height, proposal.view) =
    some (commitment, attestationDigest proposal.auth)
  horizon : proposal.header.height ≤ assembler.horizon
  round : AtRound proposal.header.height assembler
  bytes : assembler.bytes = entryWeight (entryOf proposal commitment pieces)

theorem AtRound.pruneFloor (round : AtRound height assembler) :
    assembler.pruneFloor height = height := by
  unfold ProposalAssembler.pruneFloor
  split
  next some => exact round.resolve_left some
  next => rfl

theorem AtRound.admitted (round : AtRound height assembler) :
    ¬(assembler.roundHeight ≠ 0 ∧
      (height < assembler.roundHeight ∨ assembler.roundHeight.satAdd 1 < height)) := by
  rintro ⟨some, outside⟩
  rw [round.resolve_left some] at outside
  rcases outside with below | above
  · exact Nat.lt_irrefl _ below
  · exact absurd (Word.val_le_satAdd height 1) (Nat.not_le.mpr above)

/-- Nothing is evicted for a piece that there is room for. -/
theorem fitPiece_of_room {weight : Nat} (room : assembler.bytes + weight ≤ assembler.maxBytes)
    (lowest : Lowest) (available : Nat) (key : ProposalKey) (piece : Shard × ShardProof)
    (isNew : Bool) :
    assembler.fitPiece lowest available key piece weight isNew =
      assembler.addPiece lowest available key piece weight := by
  have fitted : evictUntilFits lowest weight key (assembler.pending.entries.length + 1) assembler =
      assembler := by rw [evictUntilFits, if_pos room]
  rw [fitPiece, if_neg (by omega), fitted]
  exact if_neg (by omega)

/-- The state after a piece is added to the only entry. -/
def grown (proposal : Proposal) (commitment : Commitment) (pieces : List (Shard × ShardProof))
    (weight : Nat) (assembler : ProposalAssembler) : ProposalAssembler :=
  { assembler with
    pending := AList.singleton (proposal.view, commitment.root)
      (entryOf proposal commitment pieces)
    bytes := assembler.bytes + weight }

theorem addPiece_singleton
    (only : assembler.pending = AList.singleton (proposal.view, commitment.root) (entryOf
      proposal commitment pieces)) (lowest : Lowest) (available : Nat)
    (piece : Shard × ShardProof) (weight : Nat) :
    assembler.addPiece lowest available (proposal.view, commitment.root) piece weight =
      if pieces.length + 1 < commitment.k then
        (assembler.grown proposal commitment (pieces ++ [piece]) weight, none)
      else
        ((assembler.grown proposal commitment (pieces ++ [piece]) weight).finish lowest
            (proposal.view, commitment.root) (entryOf proposal commitment (pieces ++ [piece])),
          some (assemble available (entryOf proposal commitment (pieces ++ [piece])))) := by
  have found : assembler.pending.lookup (proposal.view, commitment.root) =
      some (entryOf proposal commitment pieces) := by
    rw [only, ← AList.insert_empty, AList.lookup_insert]
  have size : (pieces ++ [piece]).length = pieces.length + 1 := by simp
  rw [addPiece, found]
  simp only [entryOf, size, only, AList.insert_singleton_eq]
  rfl

theorem enter_singleton
    (only : assembler.pending = AList.singleton (proposal.view, commitment.root) (entryOf
      proposal commitment pieces)) (lowest : Lowest) (piece : Shard × ShardProof) :
    assembler.enter lowest (shardOf proposal commitment piece) =
      (assembler, entryOf proposal commitment pieces, false) := by
  have found : assembler.pending.lookup (proposal.view, commitment.root) =
      some (entryOf proposal commitment pieces) := by
    rw [only, ← AList.insert_empty, AList.lookup_insert]
  simp only [enter, shardOf, found]

variable {coded : CodedProposal} {verifyAuth : CodedProposal → Bool}

/-- A shard that agrees with its entry and is not in it is added. -/
theorem collect_agreeing {stored : ProposalAssembler} {entry : Pending}
    {isNew : Bool} {lowest : Lowest}
    (entered : assembler.enter lowest coded = (stored, entry, isNew))
    (committed : entry.commitment = coded.commitment)
    (signed : entry.authDigest = attestationDigest coded.auth)
    (fresh : (entry.pieces.any fun piece => piece.1.index == coded.shard.index) = false)
    (available : Nat) :
    assembler.collect lowest available coded =
      stored.fitPiece lowest available (coded.view, coded.commitment.root)
        (coded.shard, coded.proof) (pieceWeight (coded.shard, coded.proof) +
          if isNew then entry.overhead else 0) isNew := by
  rw [ProposalAssembler.collect, entered]
  dsimp only
  rw [if_neg (not_not.mpr committed), if_neg (not_not.mpr signed), fresh,
    if_neg Bool.false_ne_true]

/-- A shard that passes every check is collected. -/
theorem admitCoded_passing {checked : ProposalAssembler} {source : U64}
    (waiting : assembler.done.lookup (coded.view, coded.commitment.root) = none)
    (canonical : commitmentCanonical coded.commitment = true)
    (verified : coded.commitment.verifyShard coded.shard coded.proof = true)
    (round : AtRound coded.header.height assembler)
    (pinned : (assembler.prune coded.header.height).pin coded source verifyAuth = (checked, true))
    (lowest : Lowest) (available : Nat) :
    assembler.admitCoded lowest available coded source verifyAuth =
      checked.collect lowest available coded := by
  rw [ProposalAssembler.admitCoded]
  dsimp only
  rw [waiting, canonical, verified, if_neg (by simp), if_neg (by simp), if_neg (by simp),
    if_neg round.admitted, round.pruneFloor, pinned]
  rfl

omit [Sizes] in
theorem fresh_index (fresh : piece.1.index ∉ pieces.map fun piece => piece.1.index) :
    (pieces.any fun found => found.1.index == piece.1.index) = false := by
  rw [List.any_eq_false]
  intro found inside same
  exact fresh (List.mem_map.mpr ⟨found, inside, beq_iff_eq.mp same⟩)

/-- A further piece is added to the entry. -/
theorem Collecting.collect (collecting : Collecting proposal commitment pieces assembler)
    (fresh : piece.1.index ∉ pieces.map fun piece => piece.1.index)
    (room : assembler.bytes + pieceWeight piece ≤ assembler.maxBytes) (lowest : Lowest)
    (available : Nat) :
    assembler.collect lowest available (shardOf proposal commitment piece) =
      assembler.addPiece lowest available (proposal.view, commitment.root) piece
        (pieceWeight piece) := by
  rw [collect_agreeing (enter_singleton collecting.pending lowest piece) rfl rfl
    (fresh_index fresh)]
  exact fitPiece_of_room room lowest available _ piece false

theorem Collecting.admitCoded {coded : Coded}
    (collecting : Collecting proposal coded.commitment pieces assembler)
    (canonical : commitmentCanonical coded.commitment = true)
    (verified : coded.commitment.verifyShard piece.1 piece.2 = true)
    (fresh : piece.1.index ∉ pieces.map fun piece => piece.1.index)
    (room : assembler.bytes + pieceWeight piece ≤ assembler.maxBytes) (lowest : Lowest)
    (available : Nat) (source : U64) (verifyAuth : CodedProposal → Bool) :
    assembler.admitCoded lowest available (shardOf proposal coded.commitment piece) source verifyAuth =
      assembler.addPiece lowest available (proposal.view, coded.commitment.root) piece
        (pieceWeight piece) := by
  have pruned : assembler.prune proposal.header.height = assembler := by
    rw [prune, if_pos collecting.horizon]
  have pinned : (assembler.prune (shardOf proposal coded.commitment piece).header.height).pin
      (shardOf proposal coded.commitment piece) source verifyAuth = (assembler, true) := by
    change (assembler.prune proposal.header.height).pin _ _ _ = _
    rw [pruned]
    simp only [pin, shardOf, collecting.pinned, ne_eq, not_true, if_false, beq_self_eq_true]
  have waiting : assembler.done.lookup (proposal.view, coded.commitment.root) = none := by
    rw [collecting.done, AList.lookup_empty]
  have passed := admitCoded_passing ?_ ?_ ?_ ?_ pinned lowest available
  · exact passed.trans (collecting.collect fresh room lowest available)
  · exact waiting
  · exact canonical
  · exact verified
  · exact collecting.round

theorem entryWeight_append (proposal : Proposal) (commitment : Commitment)
    (pieces : List (Shard × ShardProof)) (piece : Shard × ShardProof) :
    entryWeight (entryOf proposal commitment (pieces ++ [piece])) =
      entryWeight (entryOf proposal commitment pieces) + pieceWeight piece := by
  simp [entryWeight, entryOf, Nat.add_assoc]

theorem Collecting.grown (collecting : Collecting proposal commitment pieces assembler)
    (piece : Shard × ShardProof) :
    Collecting proposal commitment (pieces ++ [piece])
      (assembler.grown proposal commitment (pieces ++ [piece]) (pieceWeight piece)) :=
  { collecting with
    pending := rfl
    bytes := by rw [entryWeight_append, ← collecting.bytes]; rfl }

/-! ## The first shard -/

/-- Nothing has been collected, and the round is the proposal's or there is none. -/
structure Fresh (height : U64) (assembler : ProposalAssembler) : Prop where
  pending : assembler.pending = ∅
  done : assembler.done = ∅
  pinned : assembler.pinned = ∅
  tokens : assembler.prepinTokens = ∅
  bytes : assembler.bytes = 0
  round : AtRound height assembler

omit [Sizes] in
theorem retain_empty {κ : Type} {β : κ → Type} (keep : ∀ key, β key → Bool) :
    retain keep (∅ : AList β) = ∅ := rfl

theorem Fresh.prune (fresh : Fresh height assembler) :
    Fresh height (assembler.prune height) ∧ height ≤ (assembler.prune height).horizon ∧
      (assembler.prune height).maxBytes = assembler.maxBytes := by
  unfold ProposalAssembler.prune
  split
  next old => exact ⟨fresh, old, rfl⟩
  next =>
    refine ⟨⟨?_, ?_, ?_, fresh.tokens, ?_, fresh.round⟩, Nat.le_refl _, rfl⟩
    · simp only [fresh.pending, retain_empty]
    · simp only [fresh.done, retain_empty]
    · simp only [fresh.pinned, retain_empty]
    · simp only [totalWeight, fresh.pending, retain_empty]
      rfl

theorem observe_eq (assembler : ProposalAssembler) (coded : CodedProposal) :
    ∃ observed, assembler.observe coded = { assembler with observed } := by
  unfold observe
  split
  · exact ⟨_, rfl⟩
  · exact ⟨assembler.observed, rfl⟩

/-- A shard that is paid for and authentic sets the pin of a slot that has none. -/
theorem pin_first {spent : ProposalAssembler} {source : U64}
    (absent : assembler.pinned.lookup (coded.header.height, coded.view) = none)
    (room : ¬maxPinnedSlots ≤ assembler.pinned.entries.length)
    (allowed : assembler.spendToken source = (spent, true)) (accepted : verifyAuth coded = true) :
    assembler.pin coded source verifyAuth =
      ({ spent.observe coded with
          pinned := (spent.observe coded).pinned.insert (coded.header.height, coded.view)
            (coded.commitment, attestationDigest coded.auth) }, true) := by
  unfold ProposalAssembler.pin
  simp only [absent, allowed, accepted]
  rw [if_neg room]
  rfl

/-- The first shard of a fresh assembler sets the pin. -/
theorem Fresh.pin (fresh : Fresh height assembler) (coded : CodedProposal) (source : U64)
    (accepted : verifyAuth coded = true) :
    ∃ prepinTokens observed, assembler.pin coded source verifyAuth =
      ({ assembler with
          prepinTokens
          observed
          pinned := AList.singleton (coded.header.height, coded.view)
            (coded.commitment, attestationDigest coded.auth) }, true) := by
  have spent : assembler.spendToken source =
      ({ assembler with prepinTokens := AList.singleton source 7 }, true) := by
    simp only [spendToken, fresh.tokens, AList.lookup_empty, Option.getD_none, AList.insert_empty]
    rfl
  obtain ⟨observed, seen⟩ :=
    observe_eq { assembler with prepinTokens := AList.singleton source 7 } coded
  refine ⟨AList.singleton source 7, observed, ?_⟩
  have room : ¬maxPinnedSlots ≤ assembler.pinned.entries.length := by
    rw [fresh.pinned]
    decide
  have absent : assembler.pinned.lookup (coded.header.height, coded.view) = none := by
    rw [fresh.pinned, AList.lookup_empty]
  rw [pin_first absent room spent accepted, seen]
  simp only [fresh.pinned, AList.insert_empty]

theorem enter_absent (absent : assembler.pending.lookup (coded.view, coded.commitment.root) = none)
    (room : ¬maxPendingProposals ≤ assembler.pending.entries.length) (lowest : Lowest) :
    assembler.enter lowest coded =
      ({ assembler with
          pending := assembler.pending.insert (coded.view, coded.commitment.root) (opened coded) },
        opened coded, true) := by
  unfold enter
  simp only [absent, if_neg room]

theorem enter_empty (empty : assembler.pending = ∅) (lowest : Lowest) (proposal : Proposal)
    (commitment : Commitment) (piece : Shard × ShardProof) :
    assembler.enter lowest (shardOf proposal commitment piece) =
      ({ assembler with
          pending := AList.singleton (proposal.view, commitment.root)
            (entryOf proposal commitment []) }, entryOf proposal commitment [], true) := by
  rw [enter_absent ?_ ?_ lowest]
  · simp only [empty, AList.insert_empty]
    rfl
  · rw [empty, AList.lookup_empty]
  · rw [empty]
    exact Nat.not_le.mpr (Nat.zero_lt_succ 255)

theorem entryWeight_first (proposal : Proposal) (commitment : Commitment)
    (piece : Shard × ShardProof) :
    entryWeight (entryOf proposal commitment [piece]) =
      pieceWeight piece + (entryOf proposal commitment []).overhead := by
  simp [entryWeight, entryOf, Nat.add_comm]

theorem collect_empty (empty : assembler.pending = ∅) (weightless : assembler.bytes = 0)
    (several : 1 < commitment.k)
    (room : entryWeight (entryOf proposal commitment [piece]) ≤ assembler.maxBytes)
    (lowest : Lowest) (available : Nat) :
    assembler.collect lowest available (shardOf proposal commitment piece) =
      ({ assembler with
          pending := AList.singleton (proposal.view, commitment.root)
            (entryOf proposal commitment [piece])
          bytes := entryWeight (entryOf proposal commitment [piece]) }, none) := by
  have entered := enter_empty empty lowest proposal commitment piece
  refine (collect_agreeing entered rfl rfl rfl available).trans ?_
  rw [entryWeight_first] at room ⊢
  refine (fitPiece_of_room ?_ lowest available _ piece true).trans ?_
  · change assembler.bytes + (pieceWeight piece + _) ≤ assembler.maxBytes
    rw [weightless, Nat.zero_add]
    exact room
  · refine (addPiece_singleton rfl lowest available piece _).trans ?_
    refine (if_pos several).trans ?_
    simp only [grown, weightless, Nat.zero_add]
    rfl

/-- The first shard opens the entry of its proposal. -/
theorem Fresh.admitCoded {coded : Coded} (fresh : Fresh proposal.header.height assembler)
    (canonical : commitmentCanonical coded.commitment = true)
    (verified : coded.commitment.verifyShard piece.1 piece.2 = true)
    (several : 1 < coded.commitment.k)
    (room : entryWeight (entryOf proposal coded.commitment [piece]) ≤ assembler.maxBytes)
    (lowest : Lowest) (available : Nat) (source : U64)
    (accepted : verifyAuth (shardOf proposal coded.commitment piece) = true) :
    ∃ next, assembler.admitCoded lowest available (shardOf proposal coded.commitment piece) source
        verifyAuth = (next, none) ∧
      Collecting proposal coded.commitment [piece] next ∧ next.maxBytes = assembler.maxBytes := by
  obtain ⟨pruned, horizon, budget⟩ := fresh.prune
  obtain ⟨prepinTokens, observed, pinned⟩ :=
    pruned.pin (shardOf proposal coded.commitment piece) source accepted
  have waiting : assembler.done.lookup (proposal.view, coded.commitment.root) = none := by
    rw [fresh.done, AList.lookup_empty]
  have passed := admitCoded_passing ?_ ?_ ?_ ?_ pinned lowest available
  · refine ⟨_, passed.trans (collect_empty ?_ ?_ several ?_ lowest available),
      ⟨rfl, pruned.done, ?_, horizon, pruned.round, rfl⟩, budget⟩
    · exact pruned.pending
    · exact pruned.bytes
    · exact Nat.le_trans room (Nat.le_of_eq budget.symm)
    · exact (congrArg (AList.lookup _) (AList.insert_empty _ _).symm).trans (AList.lookup_insert _)
  · exact waiting
  · exact canonical
  · exact verified
  · exact fresh.round

end ProposalAssembler

/-! ## A whole run -/

omit [Sizes] in
theorem codingParams_two_le (payloadLen : Nat) : 2 ≤ (codingParams payloadLen).1 := by
  simp only [codingParams, Net.maxShards]
  omega

omit [Sizes] in
theorem two_le_of_canonical (canonical : commitmentCanonical commitment = true) :
    2 ≤ commitment.k := by
  simp only [commitmentCanonical, Bool.and_eq_true, beq_iff_eq] at canonical
  have params := congrArg Prod.fst canonical.1.2
  rw [show commitment.k = (codingParams commitment.dataLen).1 from params]
  exact codingParams_two_le _

/-- How something arrives: by which choice of evictions, on how many cores, from which source, and
under which check of the authentication. -/
structure Delivery where
  lowest : Lowest
  available : Nat
  source : U64
  verifyAuth : CodedProposal → Bool

/-- A piece that arrives. -/
structure Arrival extends Delivery where
  piece : Shard × ShardProof

open ProposalAssembler

/-- The arguments of one admission. -/
structure Call extends Delivery where
  coded : CodedProposal

def Call.event (call : Call) : AssemblerEvent :=
  .admitCoded call.lowest call.available call.coded call.source call.verifyAuth

def Arrival.call (proposal : Proposal) (commitment : Commitment) (arrival : Arrival) : Call :=
  { arrival with coded := shardOf proposal commitment arrival.piece }

/-- What an assembler returns to each of some calls. -/
def returns : ProposalAssembler → List Call → List (Option (Except CodedError Proposal))
  | _, [] => []
  | assembler, call :: calls =>
    let (next, result) := assembler.admitCoded call.lowest call.available call.coded call.source
      call.verifyAuth
    result :: returns next calls

/-- The outcomes of a run are what it returned, without the calls that returned nothing. -/
theorem outcomes_eq_returns (assembler : ProposalAssembler) (calls : List Call) :
    outcomes assembler (calls.map Call.event) =
      (calls.zip (returns assembler calls)).flatMap fun item =>
        item.2.toList.map (item.1.coded, ·) := by
  induction calls generalizing assembler with
  | nil => rfl
  | cons call calls hypothesis =>
    rw [List.map_cons, Call.event, outcomes, returns]
    dsimp only
    rw [hypothesis, List.zip_cons_cons, List.flatMap_cons]

theorem returns_cons {arrival : Arrival} {next : ProposalAssembler}
    {result : Option (Except CodedError Proposal)}
    (admitted : assembler.admitCoded arrival.lowest arrival.available (shardOf proposal
      commitment arrival.piece) arrival.source arrival.verifyAuth = (next, result))
    (calls : List Call) :
    returns assembler (arrival.call proposal commitment :: calls) = result :: returns next calls := by
  rw [Arrival.call, returns, admitted]

theorem entryWeight_mono (proposal : Proposal) (commitment : Commitment)
    (pieces more : List (Shard × ShardProof)) :
    entryWeight (entryOf proposal commitment pieces) ≤
      entryWeight (entryOf proposal commitment (pieces ++ more)) := by
  simp only [entryWeight, entryOf, List.map_append, List.sum_append]
  omega

theorem Pieces.fresh {more : List (Shard × ShardProof)}
    (taken : Pieces coded (pieces ++ piece :: more)) :
    piece.1.index ∉ pieces.map fun piece => piece.1.index := by
  intro inside
  have distinct := taken.distinct
  rw [List.map_append] at distinct
  exact (List.nodup_append.mp distinct).2.2 _ inside _ List.mem_cons_self rfl

theorem ProposalAssembler.Collecting.room {more : List (Shard × ShardProof)}
    (collecting : Collecting proposal commitment pieces assembler)
    (room : entryWeight (entryOf proposal commitment (pieces ++ piece :: more)) ≤
      assembler.maxBytes) : assembler.bytes + pieceWeight piece ≤ assembler.maxBytes := by
  have grows := entryWeight_mono proposal commitment (pieces ++ [piece]) more
  rw [entryWeight_append, List.append_assoc, List.singleton_append] at grows
  rw [collecting.bytes]
  omega

/-- From an entry with some pieces, the pieces that are missing return nothing but the last, which
returns what all of them make. -/
theorem ProposalAssembler.Collecting.returns
    (canonical : commitmentCanonical coded.commitment = true)
    (collecting : Collecting proposal coded.commitment pieces assembler)
    (taken : Pieces coded (pieces ++ (arrivals ++ [last]).map Arrival.piece))
    (enough : pieces.length + (arrivals.length + 1) = coded.commitment.k)
    (room : entryWeight (entryOf proposal coded.commitment (pieces ++ (arrivals ++ [last]).map
      Arrival.piece)) ≤ assembler.maxBytes) :
    Wire.returns assembler ((arrivals ++ [last]).map (Arrival.call proposal coded.commitment)) =
      List.replicate arrivals.length none ++ [some (assemble last.available
        (entryOf proposal coded.commitment (pieces ++ (arrivals ++ [last]).map Arrival.piece)))] := by
  induction arrivals generalizing pieces assembler with
  | nil =>
    simp only [List.nil_append, List.map_cons, List.map_nil, List.length_nil,
      List.replicate_zero] at taken room enough ⊢
    have admitted := collecting.admitCoded canonical
      (taken.proofs _ (List.mem_append_right _ List.mem_cons_self)) taken.fresh
      (collecting.room room) last.lowest last.available last.source last.verifyAuth
    rw [addPiece_singleton collecting.pending, if_neg (by omega)] at admitted
    rw [returns_cons admitted]
    rfl
  | cons first arrivals hypothesis =>
    simp only [List.cons_append, List.map_cons, List.length_cons] at taken room enough ⊢
    have admitted := collecting.admitCoded canonical
      (taken.proofs _ (List.mem_append_right _ List.mem_cons_self)) taken.fresh
      (collecting.room room) first.lowest first.available first.source first.verifyAuth
    rw [addPiece_singleton collecting.pending, if_pos (by omega)] at admitted
    have later := hypothesis (collecting.grown first.piece) (by simpa using taken)
      (by rw [List.length_append, List.length_singleton]; omega)
      (by simpa [ProposalAssembler.grown] using room)
    rw [returns_cons admitted, later, List.replicate_succ, List.cons_append, List.append_assoc,
      List.singleton_append]

section Delivered

variable {first : Arrival} (fresh : Fresh proposal.header.height assembler)
  (taken : Pieces coded ((first :: (arrivals ++ [last])).map Arrival.piece))
  (enough : arrivals.length + 2 = coded.commitment.k)
  (room : entryWeight (entryOf proposal coded.commitment
    ((first :: (arrivals ++ [last])).map Arrival.piece)) ≤ assembler.maxBytes)
  (accepted : first.verifyAuth (shardOf proposal coded.commitment first.piece) = true)

include fresh taken enough room accepted

/-- The shards of a coded proposal, as many as the data takes, return nothing but the last, which
returns what all of them make, whatever their order. -/
theorem ProposalAssembler.Fresh.returns (canonical : commitmentCanonical coded.commitment = true) :
    Wire.returns assembler
        ((first :: (arrivals ++ [last])).map (Arrival.call proposal coded.commitment)) =
      List.replicate (arrivals.length + 1) none ++ [some (assemble last.available
        (entryOf proposal coded.commitment
          ((first :: (arrivals ++ [last])).map Arrival.piece)))] := by
  have several : 1 < coded.commitment.k := two_le_of_canonical canonical
  have small := entryWeight_mono proposal coded.commitment [first.piece]
    ((arrivals ++ [last]).map Arrival.piece)
  obtain ⟨next, admitted, collecting, budget⟩ := fresh.admitCoded canonical
    (taken.proofs _ List.mem_cons_self) several (Nat.le_trans small room) first.lowest
    first.available first.source accepted
  have later := collecting.returns canonical taken
    (by rw [List.length_singleton]; omega) (budget ▸ room)
  rw [List.map_cons, returns_cons admitted, later, List.replicate_succ]
  rfl

/-- The shards of an honest proposal, as many as the data takes, deliver it with the last of them,
whatever their order. -/
theorem Honest.outcomes_fresh (honest : Honest proposal coded) :
    outcomes assembler (((first :: (arrivals ++ [last])).map
        (Arrival.call proposal coded.commitment)).map Call.event) =
      [(shardOf proposal coded.commitment last.piece, .ok proposal)] := by
  have sized : ((first :: (arrivals ++ [last])).map Arrival.piece).length = coded.commitment.k := by
    simpa using enough
  have calls : (first :: (arrivals ++ [last])).map (Arrival.call proposal coded.commitment) =
      (first :: arrivals).map (Arrival.call proposal coded.commitment) ++
        [last.call proposal coded.commitment] := by
    simp
  have results := fresh.returns taken enough room accepted honest.canonical
  rw [← List.cons_append, List.map_append, List.map_singleton, List.cons_append] at results
  rw [calls, outcomes_eq_returns, results, honest.assemble taken sized, List.zip_append (by simp),
    List.flatMap_append]
  have quiet : ∀ (early : List Call) (count : Nat),
      ((early.zip (List.replicate count (none : Option (Except CodedError Proposal)))).flatMap
        fun item => item.2.toList.map (item.1.coded, ·)) = [] := by
    intro early count
    refine List.flatMap_eq_nil_iff.mpr fun item inside => ?_
    rw [List.eq_of_mem_replicate (List.of_mem_zip inside).2]
    rfl
  rw [quiet]
  rfl

end Delivered

end QuantovaChain.Wire
