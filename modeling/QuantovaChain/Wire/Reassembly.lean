import QuantovaChain.Wire.Delivery

/-!
# Coded proposals reassemble to one proposal

Two assemblers that deliver a proposal for the same commitment deliver the same one, whatever shards
they were given and by whom, and the commitment that the leader signed is the one the delivered
proposal has. The leader may have chosen the commitment freely.
-/

namespace QuantovaChain.Wire

open State (Bytes Hash)
open Chain (Header)
open Net

section Agreement

variable [Sizes]

/-- Whatever shards two assemblers are given, proposals that they deliver for one commitment are the
same, and the commitment is the one that the delivered proposal has. What is delivered carries its
commitment, and a commitment carries one proposal. -/
theorem coded_proposals_reassemble_to_one :
    (∀ (events events' : List AssemblerEvent) (coded coded' : CodedProposal)
      (proposal proposal' : Proposal),
      (coded, .ok proposal) ∈ outcomes .new events →
      (coded', .ok proposal') ∈ outcomes .new events' →
      coded.commitment = coded'.commitment →
      (∀ available ours theirs,
        Net.encode available (encodeChainBlock (proposalBlock proposal.header proposal.body
          proposal.justification)) coded.commitment.k coded.commitment.n = .ok ours →
        Net.encode available (encodeChainBlock (proposalBlock proposal'.header proposal'.body
          proposal'.justification)) coded.commitment.k coded.commitment.n = .ok theirs →
        Net.CollisionFreePair ours theirs) →
      proposal.header = proposal'.header ∧ proposal.body = proposal'.body ∧
        proposal.justification = proposal'.justification) ∧
    ∀ (events : List AssemblerEvent) (coded : CodedProposal) (proposal : Proposal)
      (available : Nat), (coded, .ok proposal) ∈ outcomes .new events →
      proposalCommitment available proposal.header proposal.body proposal.justification =
        some coded.commitment := by
  constructor
  · intro events events' coded coded' proposal proposal' delivered delivered' same free
    have other := (outcomes_ok delivered').2
    rw [← same] at other
    exact (outcomes_ok delivered).2.unique other free
  · intro events coded proposal available delivered
    obtain ⟨canonical, carries⟩ := outcomes_ok delivered
    exact carries.proposalCommitment canonical available

end Agreement

/-! ## The empty proposal -/

/-- A hash by the ends of its input. -/
@[reducible] def endsSizes : Sizes :=
  { leastSizes with
    sha3 := fun input =>
      Vector.replicate 32 (if input = [] then 0 else 16 * input.headD 0 + input.getLastD 0 + 1) }

theorem symbol_zero {bytes : Bytes} (zeros : ∀ byte ∈ bytes, byte = 0) (place : Nat) :
    symbol bytes place = 0 := by
  have zero : bytes.getD place 0 = 0 := by
    rw [List.getD_eq_getElem?_getD]
    cases found : bytes[place]? with
    | none => rfl
    | some byte => exact zeros byte (List.mem_of_getElem? found)
  rw [symbol, zero]
  rfl

/-- The shards of zeros are zeros. -/
theorem shardBytes_zero {size k n : Nat} {top : Elimination.Square Net.Gf k}
    (turned : Net.TopInverse k top) {bytes : Bytes}
    (inside : bytes ∈ shardBytes (List.replicate size 0) top n) :
    bytes = List.replicate (shardLength (List.replicate size 0) k) 0 := by
  obtain ⟨place, there⟩ := List.getElem?_of_mem inside
  have codes := codes_of_getElem? turned there
  have pieces : ∀ column, pieceSymbols (List.replicate size 0) k column = 0 := by
    intro column
    funext piece
    refine symbol_zero (fun byte found => ?_) column
    rw [pieceOf] at found
    rcases List.mem_append.mp found with part | filling
    · exact List.eq_of_mem_replicate (List.mem_of_mem_drop (List.mem_of_mem_take part))
    · exact List.eq_of_mem_replicate filling
  refine eq_of_symbol (by rw [codes.length, List.length_replicate]) fun column below => ?_
  rw [codes.symbols column (codes.length ▸ below), pieces, dotProduct_zero]
  exact (symbol_zero (fun byte found => List.eq_of_mem_replicate found) column).symm

/-- The proposal of an empty block, in which every byte is zero. -/
def emptyHeader : Header where
  height := 0
  parentHash := Vector.replicate 32 0
  qRoot := Vector.replicate 32 0
  transactionRoot := Vector.replicate 32 0
  eventRoot := Vector.replicate 32 0
  beaconSeed := Vector.replicate 32 0
  proposer := ""
  time := 0
  extraData := []

def emptyProposal : letI := endsSizes; Proposal :=
  letI := endsSizes
  { view := 0
    header := emptyHeader
    body := []
    justification := []
    auth :=
      { sender := 0
        height := 0
        slot := 0
        view := 0
        committee := Vector.replicate 32 0
        block := { height := 0, val := Vector.replicate 32 0, parent := .genesis, cost := 0 }
        membership := { position := 0, preimage := Vector.replicate 32 0, siblings := [] }
        sig := Vector.replicate 3309 0 } }

theorem encode_empty :
    letI := endsSizes
    encodeChainBlock (proposalBlock emptyHeader [] []) = List.replicate 208 0 := by
  decide +kernel

/-- The nodes of the tree over four shards of zeros, from the leaves up. -/
def emptyLeaf : Hash :=
  letI := endsSizes
  leafHash 104 (List.replicate 104 0)

def emptyPair : Hash :=
  letI := endsSizes
  joinHash (.pair emptyLeaf emptyLeaf)

def emptyTop : Hash :=
  letI := endsSizes
  joinHash (.pair emptyPair emptyPair)

/-- What is hashed to code the empty proposal. -/
def emptyInputs : List Bytes :=
  [leafInput 104 (List.replicate 104 0), joinInput (.pair emptyLeaf emptyLeaf),
    joinInput (.pair emptyPair emptyPair), rootInput emptyTop 2 4 104 208]

theorem shardLength_empty : shardLength (List.replicate 208 0) 2 = 104 := by
  rw [shardLength, List.length_replicate]
  rfl

theorem shardLeaves_empty {top : Elimination.Square Net.Gf 2} (turned : Net.TopInverse 2 top) :
    letI := endsSizes
    shardLeaves (List.replicate 208 0) top 4 = List.replicate 4 emptyLeaf := by
  let := endsSizes
  refine List.eq_replicate_iff.mpr ⟨length_shardLeaves (by decide), fun leaf inside => ?_⟩
  obtain ⟨bytes, among, rfl⟩ := List.mem_map.mp inside
  rw [shardBytes_zero turned among, shardLength_empty]
  rfl

theorem top_empty :
    letI := endsSizes
    LevelTree.top joinHash (List.replicate 4 emptyLeaf) = some emptyTop := by
  let := endsSizes
  simp [LevelTree.top, LevelTree.above, LevelTree.joins, List.replicate_succ]
  rfl

theorem treeJoins_empty :
    letI := endsSizes
    LevelTree.treeJoins joinHash (List.replicate 4 emptyLeaf) =
      [.pair emptyLeaf emptyLeaf, .pair emptyLeaf emptyLeaf, .pair emptyPair emptyPair] := by
  let := endsSizes
  simp [LevelTree.treeJoins, LevelTree.above, LevelTree.joins, List.replicate_succ]
  rfl

theorem inputs_empty {top : Elimination.Square Net.Gf 2} (turned : Net.TopInverse 2 top) :
    letI := endsSizes
    ∀ input ∈ (codedOf (List.replicate 208 0) top 4).inputs, input ∈ emptyInputs := by
  let := endsSizes
  have leaves := shardLeaves_empty turned
  have root : treeRoot (shardTree (List.replicate 208 0) top 4) = emptyTop := by
    refine treeRoot_levels ?_
    rw [← top_empty, ← leaves]
    rfl
  intro input inside
  rw [Net.Coded.inputs] at inside
  simp only [codedOf, commitmentOf, map_leafHash_shardsOf] at inside
  rw [leaves, root, treeJoins_empty, shardLength_empty, List.length_replicate] at inside
  rcases List.mem_append.mp inside with below | top
  · rcases List.mem_append.mp below with leaf | join
    · obtain ⟨shard, among, rfl⟩ := List.mem_map.mp leaf
      obtain ⟨place, there, rfl⟩ := List.mem_mapIdx.mp among
      rw [shardBytes_zero turned (List.getElem_mem there), shardLength_empty]
      exact List.mem_cons_self
    · simp only [List.map_cons, List.map_nil, List.mem_cons, List.not_mem_nil, or_false] at join
      simp only [emptyInputs, List.mem_cons]
      tauto
  · rw [List.mem_singleton.mp top]
    simp [emptyInputs]

theorem inputs_free :
    letI := endsSizes
    ∀ ours ∈ emptyInputs, ∀ theirs ∈ emptyInputs,
      Platform.sha3 ours = Platform.sha3 theirs → ours = theirs := by
  decide +kernel

def emptyCommitment : Commitment :=
  letI := endsSizes
  { root := rootHash emptyTop 2 4 104 208, k := 2, n := 4, shardLen := 104, dataLen := 208 }

/-- A shard of zeros with its proof. -/
def emptyPiece (index : Nat) : Shard × ShardProof :=
  (⟨index, List.replicate 104 0⟩, ⟨[emptyLeaf, emptyPair]⟩)

/-- The empty proposal can be coded, under the commitment to four shards of zeros. -/
theorem emptyProposal_honest :
    letI := endsSizes
    ∃ coded, coded.commitment = emptyCommitment ∧ Honest emptyProposal coded ∧
      (∀ index < 4, (emptyPiece index).1 ∈ coded.shards) ∧ Net.CollisionFreePair coded coded := by
  let := endsSizes
  obtain ⟨top, turned⟩ := exists_topInverse (k := 2) (by decide)
  have encoded := encode_eq 1 (List.replicate 208 0) turned (n := 4) rfl
  have committed : commitmentOf (List.replicate 208 0) top 4 = emptyCommitment := by
    have root : treeRoot (shardTree (List.replicate 208 0) top 4) = emptyTop := by
      refine treeRoot_levels ?_
      rw [← top_empty, ← shardLeaves_empty turned]
      rfl
    rw [commitmentOf, root, shardLength_empty, List.length_replicate]
    rfl
  refine ⟨codedOf (List.replicate 208 0) top 4, committed, ?_, ?_, ?_⟩
  · refine ⟨⟨1, ?_⟩, ?_, ?_, ?_, ?_⟩
    · exact (congrArg (fun bytes => encode 1 bytes 2 4) encode_empty).trans encoded
    · change commitmentCanonical (commitmentOf (List.replicate 208 0) top 4) = true
      rw [committed]
      decide +kernel
    · exact ⟨⟨by decide +kernel, by decide +kernel⟩, by decide +kernel, Nat.two_pow_pos 64,
        fun _ none => absurd none List.not_mem_nil⟩
    · exact ⟨Nat.two_pow_pos 64, fun _ none => absurd none List.not_mem_nil⟩
    · decide +kernel
  · intro index inside
    have there : index < (shardBytes (List.replicate 208 0) top 4).length := by
      rw [length_shardBytes _ _ (by decide)]
      exact inside
    refine List.mem_mapIdx.mpr ⟨index, there, ?_⟩
    rw [shardBytes_zero turned (List.getElem_mem there), shardLength_empty]
    rfl
  · intro ours inOurs theirs inTheirs
    exact inputs_free ours (inputs_empty turned ours inOurs) theirs
      (inputs_empty turned theirs inTheirs)

/-- The first of the lowest entries. -/
def firstLowest : Lowest where
  choose entries := (entries.argmin fun entry => entry.2.val).map Prod.fst
  choose_mem {entries key} chosen := by
    obtain ⟨⟨found, height⟩, least, rfl⟩ := Option.map_eq_some_iff.mp chosen
    exact ⟨height, List.argmin_mem least, fun entry inside => List.le_of_mem_argmin inside least⟩
  choose_none {entries} none := List.argmin_eq_none.mp (Option.map_eq_none_iff.mp none)

/-- A shard of the empty proposal that arrives from a source whose authentication is accepted. -/
def emptyArrival (index : Nat) : letI := endsSizes; Arrival :=
  letI := endsSizes
  { lowest := firstLowest, available := 1, source := 0, verifyAuth := fun _ => true,
    piece := emptyPiece index }

/-- Two different shards deliver the empty proposal to a new assembler. -/
theorem delivered_empty (first last : Nat) (low : first < 4) (high : last < 4)
    (apart : first ≠ last) :
    letI := endsSizes
    (shardOf emptyProposal emptyCommitment (emptyPiece last), .ok emptyProposal) ∈
      outcomes .new (([emptyArrival first, emptyArrival last].map
        (Arrival.call emptyProposal emptyCommitment)).map Call.event) := by
  let := endsSizes
  obtain ⟨coded, committed, honest, shards, -⟩ := emptyProposal_honest
  have verified : ∀ index < 4, emptyCommitment.verifyShard (emptyPiece index).1
      (emptyPiece index).2 = true := by
    decide +kernel
  have weight : ∀ index < 4, ∀ other < 4, entryWeight (entryOf emptyProposal emptyCommitment
      [emptyPiece index, emptyPiece other]) ≤ maxAssemblerBytes := by
    decide +kernel
  have taken : Pieces coded [emptyPiece first, emptyPiece last] := by
    refine ⟨?_, ?_, ?_⟩
    · simpa using ⟨shards first low, shards last high⟩
    · rw [committed]
      simpa using ⟨verified first low, verified last high⟩
    · simpa [emptyPiece] using apart
  have fresh : ProposalAssembler.Fresh emptyProposal.header.height ProposalAssembler.new :=
    ⟨rfl, rfl, rfl, rfl, rfl, Or.inl rfl⟩
  have delivered : outcomes .new (((emptyArrival first :: ([] ++ [emptyArrival last])).map
      (Arrival.call emptyProposal coded.commitment)).map Call.event) =
        [(shardOf emptyProposal coded.commitment (emptyArrival last).piece, .ok emptyProposal)] := by
    refine Honest.outcomes_fresh fresh taken ?_ ?_ rfl honest
    · rw [committed]
      rfl
    · rw [committed]
      exact weight first low last high
  rw [committed] at delivered
  exact delivered ▸ List.mem_singleton.mpr rfl

/-- The first two shards of the empty proposal deliver it to one assembler, and the last two, in the
other order, deliver the same to another. -/
theorem coded_proposals_reassemble_to_one_empty :
    letI := endsSizes
    ∃ (events events' : List AssemblerEvent) (coded coded' : CodedProposal)
      (proposal proposal' : Proposal),
      (coded, .ok proposal) ∈ outcomes .new events ∧
      (coded', .ok proposal') ∈ outcomes .new events' ∧
      coded.shard ≠ coded'.shard ∧ coded.commitment = coded'.commitment ∧
      proposal.body = proposal'.body ∧ proposal.justification = proposal'.justification ∧
      proposalCommitment 1 proposal.header proposal.body proposal.justification =
        some coded.commitment := by
  let := endsSizes
  have delivered := delivered_empty 0 1 (by decide) (by decide) (by decide)
  have delivered' := delivered_empty 3 2 (by decide) (by decide) (by decide)
  have agree := coded_proposals_reassemble_to_one.1 _ _ _ _ _ _ delivered delivered' rfl ?_
  · exact ⟨_, _, _, _, _, _, delivered, delivered', by decide, rfl, agree.2.1, agree.2.2,
      coded_proposals_reassemble_to_one.2 _ _ _ 1 delivered⟩
  · intro available ours theirs encoded again
    obtain ⟨coded, committed, honest, -, free⟩ := emptyProposal_honest
    obtain ⟨cores, found⟩ := honest.encoded
    rw [committed] at found
    have same := Except.ok.inj (encoded.symm.trans (encode_any found))
    have same' := Except.ok.inj (again.symm.trans (encode_any found))
    rw [same, same']
    exact free

end QuantovaChain.Wire
