import QuantovaChain.Wire.Reassembly

/-!
# Any shards deliver an honest proposal

What a leader sends for a proposal within the limits is delivered by any shards of it, as many as
the data takes, in any order: the parameters that the leader chooses are the canonical ones, every
shard comes with its proof, and the entry of the proposal fits the budget of an assembler. The codec
has to accept the transactions and records of the proposal, which its writer does not check.
-/

namespace QuantovaChain.Wire

open State (Bytes)
open Net

section Delivery

variable [Sizes]

/-! ## Parameters within the limits -/

omit [Sizes] in
theorem ceil_le {total parts size : Nat} (positive : 0 < parts) (small : total ≤ parts * size) :
    (total + parts - 1) / parts ≤ size := by
  rw [← Nat.lt_succ_iff, Nat.div_lt_iff_lt_mul positive, Nat.succ_mul, Nat.mul_comm size]
  omega

omit [Sizes] in
theorem le_ceil (total : Nat) {parts : Nat} (positive : 0 < parts) :
    total ≤ parts * ((total + parts - 1) / parts) := by
  have division := Nat.div_add_mod (total + parts - 1) parts
  have rest := Nat.mod_lt (total + parts - 1) positive
  omega

omit [Sizes] in
/-- The parameters for data within the limits. -/
theorem codingParams_small {size : Nat} (small : size ≤ maxCodedBytes) :
    2 ≤ (codingParams size).1 ∧ (codingParams size).1 ≤ 48 ∧
      (codingParams size).2 = 2 * (codingParams size).1 ∧
      size ≤ (codingParams size).1 * shardTarget := by
  have bound : (size + shardTarget - 1) / shardTarget ≤ 48 := by
    refine ceil_le (by decide) (Nat.le_trans small (by decide))
  have covers := le_ceil size (show 0 < shardTarget by decide)
  have takes : (size + shardTarget - 1) / shardTarget ≤ (codingParams size).1 := by
    simp only [codingParams, maxShards]
    omega
  refine ⟨codingParams_two_le size, ?_, ?_, ?_⟩
  · simp only [codingParams, maxShards]
    omega
  · simp only [codingParams, maxShards]
    omega
  · rw [Nat.mul_comm] at covers
    exact Nat.le_trans covers (Nat.mul_le_mul_right _ takes)

omit [Sizes] in
/-- A commitment to few bytes, with the parameters for them, is canonical. -/
theorem canonical_of_params {commitment : Commitment}
    (params : codingParams commitment.dataLen = (commitment.k, commitment.n))
    (length : commitment.shardLen =
      max ((commitment.dataLen + commitment.k - 1) / commitment.k) 1)
    (small : commitment.dataLen ≤ maxCodedBytes) : commitmentCanonical commitment = true := by
  obtain ⟨least, most, double, covers⟩ := codingParams_small small
  rw [params] at least most double covers
  dsimp only at least most double covers
  have positive : 1 ≤ commitment.k := by omega
  have target : 1 ≤ shardTarget := by decide
  have short : commitment.shardLen ≤ shardTarget := by
    rw [length]
    exact Nat.max_le.mpr ⟨ceil_le positive covers, target⟩
  have limit : 48 * shardTarget ≤ maxCodedBytes := by decide
  have product : commitment.k * commitment.shardLen ≤ maxCodedBytes :=
    Nat.le_trans (Nat.mul_le_mul most short) limit
  have whole : commitment.dataLen ≤ commitment.k * commitment.shardLen := by
    rw [length]
    exact Nat.le_trans (le_ceil commitment.dataLen positive)
      (Nat.mul_le_mul_left _ (Nat.le_max_left _ _))
  have word : maxCodedBytes ≤ 2 ^ 64 - 1 := by decide
  have unsaturated : usizeMul commitment.k commitment.shardLen =
      commitment.k * commitment.shardLen := Nat.min_eq_left (Nat.le_trans product word)
  have doubled : usizeMul commitment.k 2 = commitment.n := by
    unfold usizeMul
    omega
  have shards : commitment.n ≤ maxShards := by
    unfold maxShards
    omega
  have wide : commitment.k ≤ commitment.n := by omega
  have bounds : commitmentInBounds commitment = true := by
    unfold commitmentInBounds
    rw [unsaturated, doubled, decide_eq_true positive, decide_eq_true wide, decide_eq_true shards,
      decide_eq_true (Nat.le_refl _), decide_eq_true short, decide_eq_true product,
      decide_eq_true whole]
    rfl
  unfold commitmentCanonical
  rw [bounds, params, ← length]
  simp

variable {available k n : Nat} {coded : Coded} {proposal : Proposal} {data : Bytes}

/-- A coding of data within the limits, with the parameters for them, is canonical. -/
theorem canonical_of_encode (small : data.length ≤ maxCodedBytes)
    (encoded : encode available data (codingParams data.length).1 (codingParams data.length).2 =
      .ok coded) : commitmentCanonical coded.commitment = true := by
  obtain ⟨-, top, -, rfl⟩ := encode_spec encoded
  exact canonical_of_params rfl rfl small

/-! ## The shards that are sent -/

/-- The shards of a coding are numbered. -/
theorem map_index_shards (encoded : encode available data k n = .ok coded) :
    coded.shards.map Shard.index = List.range n := by
  obtain ⟨inRange, top, -, rfl⟩ := encode_spec encoded
  obtain ⟨-, fits, -⟩ := outOfRange_eq_false.mp inRange
  refine List.ext_getElem? fun place => ?_
  show ((shardsOf data top n).map Shard.index)[place]? = _
  rw [List.getElem?_map, getElem?_shardsOf, Option.map_map]
  by_cases inside : place < n
  · rw [List.getElem?_eq_getElem (by rwa [length_shardBytes data top fits])]
    simp [inside]
  · rw [List.getElem?_eq_none (by rw [length_shardBytes data top fits]; omega)]
    simp [inside]

/-- The shards of a proposal are those of its coding, each with its proof. -/
theorem codeProposal_ok
    (params : codingParams (encodeChainBlock
      (proposalBlock proposal.header proposal.body proposal.justification)).length = (k, n))
    (encoded : encode available
      (encodeChainBlock (proposalBlock proposal.header proposal.body proposal.justification)) k n =
        .ok coded) :
    ∃ shards, codeProposal available proposal = .ok shards ∧
      (shards.map fun sent => sent.shard.index) = List.range n ∧ ∀ sent ∈ shards,
      sent = shardOf proposal coded.commitment (sent.shard, sent.proof) ∧
        sent.shard ∈ coded.shards ∧ coded.proof sent.shard.index = some sent.proof := by
  unfold codeProposal codeBlock
  dsimp only
  rw [params, encoded]
  refine ⟨_, rfl, ?_, fun sent inside => ?_⟩
  · rw [← map_index_shards encoded, List.map_filterMap]
    refine List.filterMap_eq_map_iff_forall_eq_some.mpr fun shard among => ?_
    obtain ⟨proof, proved, -⟩ := shard_verifies encoded among
    rw [proved]
    rfl
  · obtain ⟨shard, among, found⟩ := List.mem_filterMap.mp inside
    obtain ⟨proof, proved, rfl⟩ := Option.map_eq_some_iff.mp found
    exact ⟨rfl, among, proved⟩

/-! ## The budget -/

/-- The bytes that a proposal is coded from. -/
def proposalBytes (proposal : Proposal) : Bytes :=
  encodeChainBlock (proposalBlock proposal.header proposal.body proposal.justification)

/-- The number of shards that the data of a proposal takes. -/
def dataShards (proposal : Proposal) : Nat := (codingParams (proposalBytes proposal).length).1

/-- The encoded sizes of a proposal are within the limits. -/
structure WithinLimits (proposal : Proposal) : Prop where
  block : (proposalBytes proposal).length ≤ maxCodedBytes
  auth : (encodeAttestation proposal.auth).length ≤ maxCodedBytes

omit [Sizes] in
theorem length_encodeCommitment (commitment : Commitment) :
    (encodeCommitment commitment).length = 72 := by
  simp [encodeCommitment, putUsize]

theorem overhead_le (limits : WithinLimits proposal) (commitment : Commitment) :
    codedOverhead proposal.header commitment proposal.auth ≤ 2 * maxCodedBytes + 72 := by
  have block := limits.block
  have auth := limits.auth
  unfold proposalBytes encodeChainBlock proposalBlock at block
  unfold codedOverhead
  simp only [List.length_append, length_encodeCommitment] at block ⊢
  omega

/-- A piece of a coding weighs as much as a shard and at most a path over all shards. -/
theorem pieceWeight_le
    (encoded : encode available data k n = .ok coded) {piece : Shard × ShardProof}
    (among : piece.1 ∈ coded.shards) (proved : coded.proof piece.1.index = some piece.2) :
    pieceWeight piece ≤ coded.commitment.shardLen + n * 32 := by
  obtain ⟨proof, found, verified⟩ := shard_verifies encoded among
  obtain ⟨-, inside, length, -⟩ := verifyShard_iff.mp verified
  obtain ⟨inRange, top, turned, rfl⟩ := encode_spec encoded
  obtain ⟨-, fits, -⟩ := outOfRange_eq_false.mp inRange
  rw [proof_codedOf fits inside, Option.some.injEq] at proved
  have path := LevelTree.length_path_le joinHash (shardLeaves data top n) piece.1.index
  rw [length_shardLeaves fits] at path
  unfold pieceWeight
  rw [length, ← proved]
  exact Nat.add_le_add_left (Nat.mul_le_mul_right 32 path) _

/-- The entry of a proposal within the limits fits the budget. -/
theorem room_of_limits (limits : WithinLimits proposal)
    (encoded : encode available (proposalBytes proposal)
      (codingParams (proposalBytes proposal).length).1
      (codingParams (proposalBytes proposal).length).2 = .ok coded)
    {pieces : List (Shard × ShardProof)} (few : pieces.length = coded.commitment.k)
    (given : ∀ piece ∈ pieces, piece.1 ∈ coded.shards ∧
      coded.proof piece.1.index = some piece.2) :
    entryWeight (entryOf proposal coded.commitment pieces) ≤ maxAssemblerBytes := by
  obtain ⟨least, most, double, -⟩ := codingParams_small limits.block
  have count : coded.commitment.k = (codingParams (proposalBytes proposal).length).1 := by
    obtain ⟨-, top, -, rfl⟩ := encode_spec encoded
    rfl
  have heavy := List.sum_le_card_nsmul (pieces.map pieceWeight)
    (coded.commitment.shardLen + (codingParams (proposalBytes proposal).length).2 * 32) (by
      intro weight inside
      obtain ⟨piece, among, rfl⟩ := List.mem_map.mp inside
      exact pieceWeight_le encoded (given piece among).1 (given piece among).2)
  rw [List.length_map, few, smul_eq_mul, Nat.mul_add, double, ← count] at heavy
  rw [← count] at most
  have shards : coded.commitment.k * coded.commitment.shardLen ≤ maxCodedBytes := by
    have canonical := canonical_of_encode limits.block encoded
    simp only [commitmentCanonical, commitmentInBounds, Bool.and_eq_true,
      decide_eq_true_eq] at canonical
    have product := canonical.1.1.1.2
    have word : maxCodedBytes < 2 ^ 64 - 1 := by decide
    unfold usizeMul at product
    omega
  have paths : coded.commitment.k * (2 * coded.commitment.k * 32) ≤ 48 * (2 * 48 * 32) :=
    Nat.mul_le_mul most (Nat.mul_le_mul_right 32 (Nat.mul_le_mul_left 2 most))
  have overhead := overhead_le limits coded.commitment
  have budget : 3 * maxCodedBytes + 72 + 48 * (2 * 48 * 32) ≤ maxAssemblerBytes := by decide
  unfold entryWeight entryOf
  dsimp only
  omega

/-! ## Delivery -/

/-- The codec accepts the parts of a proposal. -/
structure Readable (proposal : Proposal) : Prop where
  header : proposal.header.Fits
  body : ListFits WrapperFits proposal.body
  records : ListFits ViewChange.Fits proposal.justification

/-- Calls that bring different shards of a proposal, as many as the data takes, each under an
authentication that is accepted. -/
structure Brings (proposal : Proposal) (shards : List CodedProposal) (calls : List Call) : Prop where
  enough : calls.length = dataShards proposal
  sent : ∀ call ∈ calls, call.coded ∈ shards
  distinct : (calls.map fun call => call.coded.shard.index).Nodup
  accepted : ∀ call ∈ calls, call.verifyAuth call.coded = true

/-- A new assembler, which may be at the height of a proposal. -/
def NewAt (height : U64) (assembler : ProposalAssembler) : Prop :=
  assembler = .new ∨ assembler = ProposalAssembler.new.setRoundHeight height

theorem NewAt.fresh {height : U64} {assembler : ProposalAssembler} (new : NewAt height assembler) :
    ProposalAssembler.Fresh height assembler ∧ assembler.maxBytes = maxAssemblerBytes := by
  rcases new with rfl | rfl
  · exact ⟨⟨rfl, rfl, rfl, rfl, rfl, Or.inl rfl⟩, rfl⟩
  · exact ⟨⟨rfl, rfl, rfl, rfl, rfl, Or.inr rfl⟩, rfl⟩

/-- The piece that a call brings, and how. -/
def Call.arrival (call : Call) : Arrival :=
  { call with piece := (call.coded.shard, call.coded.proof) }

theorem map_arrival {commitment : Commitment} {calls : List Call}
    (sent : ∀ call ∈ calls,
      call.coded = shardOf proposal commitment (call.coded.shard, call.coded.proof)) :
    (calls.map Call.arrival).map (Arrival.call proposal commitment) = calls := by
  rw [List.map_map]
  refine (List.map_congr_left fun call inside => ?_).trans (List.map_id calls)
  show (call.arrival).call proposal commitment = call
  unfold Arrival.call Call.arrival
  dsimp only
  rw [← sent call inside]

omit [Sizes] in
/-- A list of two or more has a first and a last. -/
theorem exists_first_last {α : Type} {items : List α} (several : 2 ≤ items.length) :
    ∃ first middle last, items = first :: (middle ++ [last]) := by
  cases items with
  | nil => cases several
  | cons first rest =>
    have filled : rest ≠ [] := by
      rintro rfl
      exact absurd several (Nat.not_succ_le_self 1)
    exact ⟨first, rest.dropLast, rest.getLast filled, by rw [List.dropLast_append_getLast]⟩

theorem exists_coded (available : Nat) (limits : WithinLimits proposal) :
    ∃ coded, encode available (proposalBytes proposal) (dataShards proposal)
      (codingParams (proposalBytes proposal).length).2 = .ok coded := by
  obtain ⟨least, most, double, -⟩ := codingParams_small limits.block
  exact exists_encode available _ (Nat.le_of_succ_le least) (by rw [dataShards]; omega) (by omega)

/-- There are calls that bring enough shards. -/
theorem exists_brings (limits : WithinLimits proposal)
    {shards : List CodedProposal} (codes : codeProposal available proposal = .ok shards)
    (lowest : Lowest) : ∃ calls, Brings proposal shards calls := by
  obtain ⟨-, -, double, -⟩ := codingParams_small limits.block
  obtain ⟨coded, encoded⟩ := exists_coded available limits
  obtain ⟨found, again, numbered, -⟩ := codeProposal_ok rfl encoded
  obtain rfl := Except.ok.inj (codes.symm.trans again)
  have count := congrArg List.length numbered
  rw [List.length_map, List.length_range] at count
  have wide : dataShards proposal ≤ shards.length := by
    rw [count]
    exact Nat.le_trans (Nat.le_mul_of_pos_left _ Nat.two_pos) (Nat.le_of_eq double.symm)
  refine ⟨(shards.take (dataShards proposal)).map fun sent => ⟨⟨lowest, 1, 0, fun _ => true⟩, sent⟩,
    ?_, ?_, ?_, ?_⟩
  · rw [List.length_map, List.length_take, Nat.min_eq_left wide]
  · intro call inside
    obtain ⟨sent, among, rfl⟩ := List.mem_map.mp inside
    exact List.mem_of_mem_take among
  · rw [List.map_map]
    show ((shards.take _).map fun sent => sent.shard.index).Nodup
    rw [List.map_take, numbered]
    exact (List.nodup_range).sublist (List.take_sublist _ _)
  · intro call inside
    obtain ⟨sent, -, rfl⟩ := List.mem_map.mp inside
    rfl

/-- A proposal within the limits is coded, and its shards return nothing but the last, which returns
what they make. -/
theorem coded_returns (proposal : Proposal) (limits : WithinLimits proposal) (available : Nat) :
    ∃ shards coded, codeProposal available proposal = .ok shards ∧
      encode available (proposalBytes proposal) (dataShards proposal)
        (codingParams (proposalBytes proposal).length).2 = .ok coded ∧
      ∀ assembler calls, NewAt proposal.header.height assembler → Brings proposal shards calls →
        ∃ pieces cores, Pieces coded pieces ∧ pieces.length = coded.commitment.k ∧
          returns assembler calls = List.replicate (dataShards proposal - 1) none ++
            [some (ProposalAssembler.assemble cores
              (entryOf proposal coded.commitment pieces))] := by
  obtain ⟨coded, encoded⟩ := exists_coded available limits
  obtain ⟨shards, codes, numbered, members⟩ := codeProposal_ok rfl encoded
  refine ⟨shards, coded, codes, encoded, fun assembler calls new brings => ?_⟩
  obtain ⟨fresh, budget⟩ := new.fresh
  have canonical := canonical_of_encode limits.block encoded
  have count : coded.commitment.k = dataShards proposal := by
    obtain ⟨-, top, -, rfl⟩ := encode_spec encoded
    rfl
  have sent : ∀ call ∈ calls,
      call.coded = shardOf proposal coded.commitment (call.coded.shard, call.coded.proof) :=
    fun call inside => (members _ (brings.sent call inside)).1
  have given : ∀ piece ∈ calls.map fun call => call.arrival.piece, piece.1 ∈ coded.shards ∧
      coded.proof piece.1.index = some piece.2 := by
    intro piece inside
    obtain ⟨call, among, rfl⟩ := List.mem_map.mp inside
    exact (members _ (brings.sent call among)).2
  have taken : Pieces coded (calls.map fun call => call.arrival.piece) := by
    refine ⟨fun piece inside => (given piece inside).1, fun piece inside => ?_, ?_⟩
    · obtain ⟨among, proved⟩ := given piece inside
      obtain ⟨proof, found, verified⟩ := shard_verifies encoded among
      rw [proved, Option.some.injEq] at found
      exact found ▸ verified
    · rw [List.map_map]
      exact brings.distinct
  have size : (calls.map fun call => call.arrival.piece).length = coded.commitment.k := by
    rw [List.length_map, brings.enough, count]
  have room := room_of_limits limits encoded size given
  have several : 2 ≤ calls.length := by
    rw [brings.enough]
    exact (codingParams_small limits.block).1
  obtain ⟨first, middle, last, rfl⟩ := exists_first_last several
  have pieces : (first :: (middle ++ [last])).map (fun call => call.arrival.piece) =
      (first.arrival :: (middle.map Call.arrival ++ [last.arrival])).map Arrival.piece := by
    simp
  have arrivals := map_arrival sent
  rw [List.map_cons, List.map_append, List.map_singleton] at arrivals
  have enough : (middle.map Call.arrival).length + 2 = coded.commitment.k := by
    rw [← size]
    simp
  rw [pieces] at taken size room
  have results := fresh.returns taken enough (budget.symm ▸ room) (by
    show first.verifyAuth (shardOf _ _ (first.coded.shard, first.coded.proof)) = true
    rw [← sent first List.mem_cons_self]
    exact brings.accepted first List.mem_cons_self) canonical
  have fewer : (middle.map Call.arrival).length + 1 = dataShards proposal - 1 := by omega
  rw [arrivals, fewer] at results
  exact ⟨_, _, taken, size, results⟩

/-- Any shards of a proposal within the limits that the codec accepts, as many as its data takes and
in any order, deliver the proposal to a new assembler with the last of them. The shards reconstruct
the data that was encoded, and the data decodes to the proposal. -/
theorem honest_proposal_delivered (proposal : Proposal)
    (root : Chain.transactionRoot proposal.body = proposal.header.transactionRoot)
    (limits : WithinLimits proposal) (readable : Readable proposal) (available : Nat) :
    ∃ shards, codeProposal available proposal = .ok shards ∧
      ∀ assembler calls, NewAt proposal.header.height assembler → Brings proposal shards calls →
        returns assembler calls =
          List.replicate (dataShards proposal - 1) none ++ [some (.ok proposal)] := by
  obtain ⟨shards, coded, codes, encoded, delivers⟩ := coded_returns proposal limits available
  refine ⟨shards, codes, fun assembler calls new brings => ?_⟩
  obtain ⟨pieces, cores, taken, size, results⟩ := delivers assembler calls new brings
  have certificate : (justificationToBytes proposal.justification).length < 2 ^ 64 := by
    have small := limits.block
    unfold proposalBytes encodeChainBlock proposalBlock at small
    simp only [List.length_append, Codec.length_putBytes] at small
    have word : maxCodedBytes < 2 ^ 64 := by decide
    omega
  have honest : Honest proposal coded := by
    refine ⟨⟨available, ?_⟩, canonical_of_encode limits.block encoded,
      ⟨readable.header, certificate, readable.body⟩, readable.records, root⟩
    obtain ⟨-, top, -, rfl⟩ := encode_spec encoded
    exact encoded
  rw [results, honest.assemble taken size]

/-- Shards of bytes that the codec does not read back make nothing. -/
theorem Pieces.assemble_unread
    (encoded : encode available (proposalBytes proposal) coded.commitment.k coded.commitment.n =
      .ok coded) (canonical : commitmentCanonical coded.commitment = true)
    {pieces : List (Shard × ShardProof)} (taken : Pieces coded pieces)
    (enough : pieces.length = coded.commitment.k) (cores : Nat)
    (unread : (chainBlockFromBytes (proposalBytes proposal)).isOk = false) :
    ProposalAssembler.assemble cores (entryOf proposal coded.commitment pieces) =
      .error .decode := by
  have bounds : commitmentInBounds coded.commitment = true := by
    simp only [commitmentCanonical, Bool.and_eq_true] at canonical
    exact canonical.1.1
  have rebuilt := taken.reconstructBlock encoded bounds enough cores proposal.header
    (headerHash proposal.header)
  unfold ProposalAssembler.assemble entryOf
  dsimp only
  rw [rebuilt]
  cases found : chainBlockFromBytes (proposalBytes proposal) with
  | error error => rfl
  | ok block =>
    rw [found] at unread
    cases unread

end Delivery

theorem honest_proposal_delivered_empty :
    letI := endsSizes
    ∃ shards calls, codeProposal 1 emptyProposal = .ok shards ∧
      Brings emptyProposal shards calls ∧
      returns .new calls = [none, some (.ok emptyProposal)] := by
  let := endsSizes
  obtain ⟨coded, -, honest, -⟩ := emptyProposal_honest
  have bytes : proposalBytes emptyProposal = List.replicate 208 0 := encode_empty
  have limits : WithinLimits emptyProposal := by
    refine ⟨?_, by decide +kernel⟩
    rw [bytes, List.length_replicate]
    decide
  have readable : Readable emptyProposal := ⟨honest.block.header, honest.block.body, honest.records⟩
  obtain ⟨shards, codes, delivered⟩ :=
    honest_proposal_delivered emptyProposal honest.root limits readable 1
  obtain ⟨calls, brings⟩ := exists_brings limits codes firstLowest
  refine ⟨shards, calls, codes, brings, ?_⟩
  have two : dataShards emptyProposal = 2 := by
    unfold dataShards
    rw [bytes, List.length_replicate]
    decide
  have results := delivered .new calls (Or.inl rfl) brings
  rw [two] at results
  exact results

/-- A transfer under a scheme that there is not. -/
def unsupportedTransfer : Tx.Wrapper := { sampleTransfer (sampleAddress 1) with scheme := 255 }

/-- A proposal of one transaction that can be written, but not read. -/
def unreadableProposal : letI := endsSizes; Proposal :=
  letI := endsSizes
  { emptyProposal with
    header := { emptyHeader with transactionRoot := Chain.transactionRoot [unsupportedTransfer] }
    body := [unsupportedTransfer] }

/-- The shards of a proposal within the limits, whose body matches the root, return a failure with
the last of them, where the codec does not read a transaction back. -/
theorem unreadable_proposal_fails :
    letI := endsSizes
    Chain.transactionRoot unreadableProposal.body = unreadableProposal.header.transactionRoot ∧
      WithinLimits unreadableProposal ∧ ∃ shards calls,
      codeProposal 1 unreadableProposal = .ok shards ∧ Brings unreadableProposal shards calls ∧
      returns .new calls = [none, some (.error .decode)] := by
  let := endsSizes
  have limits : WithinLimits unreadableProposal := ⟨by decide +kernel, by decide +kernel⟩
  have unread : (chainBlockFromBytes (proposalBytes unreadableProposal)).isOk = false := by
    decide +kernel
  have two : dataShards unreadableProposal = 2 := by decide +kernel
  obtain ⟨shards, coded, codes, encoded, delivers⟩ := coded_returns unreadableProposal limits 1
  obtain ⟨calls, brings⟩ := exists_brings limits codes firstLowest
  obtain ⟨pieces, cores, taken, size, results⟩ := delivers .new calls (Or.inl rfl) brings
  have same : encode 1 (proposalBytes unreadableProposal) coded.commitment.k
      coded.commitment.n = .ok coded := by
    obtain ⟨-, top, -, rfl⟩ := encode_spec encoded
    exact encoded
  rw [taken.assemble_unread same (canonical_of_encode limits.block encoded) size cores unread,
    two] at results
  exact ⟨rfl, limits, shards, calls, codes, brings, results⟩

end QuantovaChain.Wire
