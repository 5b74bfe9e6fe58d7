import QuantovaChain.Wire.Assembler

/-!
# The byte counter of the assembler

The assembler counts the bytes that it holds. The counter is the weight of the pending entries
between calls. Within a call it misses the overhead of an entry that was just opened, and evictions
spare that entry, so that what is taken off the counter was always added to it.
-/

namespace QuantovaChain.Wire

open Net (Shard ShardProof)

variable [Sizes]

namespace ProposalAssembler

/-! ## Weights -/

abbrev PendingMap := AList fun _ : ProposalKey => Pending

theorem perm_erase {map : PendingMap} {key : ProposalKey} {entry : Pending}
    (found : map.lookup key = some entry) :
    map.entries.Perm (⟨key, entry⟩ :: (map.erase key).entries) := by
  obtain ⟨held, before, after, -, entries, erased⟩ :=
    List.exists_of_kerase (AList.mem_keys.mp (AList.lookup_isSome.mp (by rw [found]; rfl)))
  have same : held = entry := by
    have there := List.mem_dlookup map.nodupKeys (entries ▸ List.mem_append_right _ List.mem_cons_self)
    exact Option.some.inj (there.symm.trans found)
  rw [entries, same, show (map.erase key).entries = _ from erased]
  exact List.perm_middle

theorem erase_absent {map : PendingMap} {key : ProposalKey} (absent : map.lookup key = none) :
    (map.erase key).entries = map.entries :=
  List.kerase_of_notMem_keys (List.dlookup_eq_none.mp absent)

def weightOf (map : PendingMap) : Nat := (map.entries.map fun entry => entryWeight entry.2).sum

theorem weightOf_erase {map : PendingMap} {key : ProposalKey} {entry : Pending}
    (found : map.lookup key = some entry) :
    weightOf map = entryWeight entry + weightOf (map.erase key) := by
  rw [weightOf, ((perm_erase found).map _).sum_eq, List.map_cons, List.sum_cons, weightOf]

theorem weightOf_insert (map : PendingMap) (key : ProposalKey) (entry : Pending) :
    weightOf (map.insert key entry) = entryWeight entry + weightOf (map.erase key) := by
  rw [weightOf, AList.entries_insert, List.map_cons, List.sum_cons]
  rfl

theorem entryWeight_grown (entry : Pending) (piece : Shard × ShardProof) :
    entryWeight { entry with pieces := entry.pieces ++ [piece] } =
      entryWeight entry + pieceWeight piece := by
  simp [entryWeight, Nat.add_assoc]

/-- The counter is exact but for what an entry still owes. -/
structure Accounts (assembler : ProposalAssembler) (owed : Nat) : Prop where
  exact : weightOf assembler.pending = assembler.bytes + owed
  within : assembler.bytes ≤ assembler.maxBytes
  few : assembler.pending.entries.length ≤ maxPendingProposals

/-- The weight of an entry, if it is there. -/
def weightAt (assembler : ProposalAssembler) (key : ProposalKey) : Nat :=
  ((assembler.pending.lookup key).map entryWeight).getD 0

section

variable {assembler : ProposalAssembler} {owed : Nat} {keep key : ProposalKey} {entry : Pending}

/-! ## Evictions -/

theorem length_evict (found : assembler.pending.lookup key = some entry) :
    (assembler.evict key).pending.entries.length + 1 = assembler.pending.entries.length := by
  rw [evict, found, (perm_erase found).length_eq, List.length_cons]

/-- The counter holds the weight of every entry but the one that owes. -/
theorem Accounts.covers (accounts : Accounts assembler owed) (owes : owed ≤ assembler.weightAt keep)
    (apart : key ≠ keep) (found : assembler.pending.lookup key = some entry) :
    entryWeight entry ≤ assembler.bytes := by
  have total := accounts.exact
  rw [weightOf_erase found] at total
  rw [weightAt] at owes
  cases kept : assembler.pending.lookup keep with
  | none =>
    rw [kept] at owes
    exact Nat.le_trans (Nat.le_add_right ..) (Nat.le_trans (Nat.le_of_eq total) (by simpa using owes))
  | some other =>
    rw [kept] at owes
    rw [weightOf_erase ((AList.lookup_erase_ne apart.symm).trans kept)] at total
    simp only [Option.map_some, Option.getD_some] at owes
    omega

/-- An entry goes, and the counter with it by as much as it held of the entry. -/
theorem Accounts.erase (accounts : Accounts assembler owed)
    (found : assembler.pending.lookup key = some entry) {bytes rest : Nat}
    (left : assembler.bytes + owed = entryWeight entry + (bytes + rest))
    (lower : bytes ≤ assembler.bytes) :
    Accounts { assembler with pending := assembler.pending.erase key, bytes } rest where
  exact := Nat.add_left_cancel ((weightOf_erase found).symm.trans (accounts.exact.trans left))
  within := Nat.le_trans lower accounts.within
  few := Nat.le_of_succ_le ((perm_erase found).length_eq.ge.trans accounts.few)

theorem Accounts.evict (accounts : Accounts assembler owed) (owes : owed ≤ assembler.weightAt keep)
    (apart : key ≠ keep) : Accounts (assembler.evict key) owed := by
  unfold ProposalAssembler.evict
  split
  next => exact accounts
  next entry found =>
    have covered := accounts.covers owes apart found
    exact accounts.erase found (by omega) (Nat.sub_le ..)

theorem Accounts.evictUntilFits (lowest : Lowest) (weight rounds : Nat)
    (accounts : Accounts assembler owed) (owes : owed ≤ assembler.weightAt keep) :
    Accounts (evictUntilFits lowest weight keep rounds assembler) owed := by
  induction rounds generalizing assembler with
  | zero => exact accounts
  | succ rounds hypothesis =>
    rw [ProposalAssembler.evictUntilFits]
    split
    next => exact accounts
    next =>
    split
    next => exact accounts
    next key chosen =>
      obtain ⟨height, among, -⟩ := lowest.choose_mem chosen
      have apart : key ≠ keep := by simpa using (List.mem_filter.mp among).2
      refine hypothesis (accounts.evict owes apart) ?_
      rwa [weightAt, lookup_evict apart.symm]

theorem lookup_of_height {height : U64} (listed : (key, height) ∈ assembler.pendingHeights) :
    ∃ entry, assembler.pending.lookup key = some entry := by
  obtain ⟨⟨key, entry⟩, member, same⟩ := List.mem_map.mp listed
  cases same
  exact ⟨entry, List.mem_dlookup assembler.pending.nodupKeys member⟩

/-- The loop ends by its own condition: the weight fits, or nothing else is left to evict. -/
theorem evictUntilFits_exits (lowest : Lowest) (weight : Nat) {rounds : Nat}
    (enough : assembler.pending.entries.length < rounds) :
    (evictUntilFits lowest weight keep rounds assembler).bytes + weight ≤
        (evictUntilFits lowest weight keep rounds assembler).maxBytes ∨
      ∀ entry ∈ (evictUntilFits lowest weight keep rounds assembler).pending.entries,
        entry.1 = keep := by
  induction rounds generalizing assembler with
  | zero => exact absurd enough (Nat.not_lt_zero _)
  | succ rounds hypothesis =>
    rw [evictUntilFits]
    split
    next fits => exact .inl fits
    next =>
    split
    next none =>
      refine .inr fun entry member => ?_
      have listed : (entry.1, entry.2.height) ∈ assembler.pendingHeights := List.mem_map_of_mem member
      simpa using List.filter_eq_nil_iff.mp (lowest.choose_none none) _ listed
    next key chosen =>
      obtain ⟨height, among, -⟩ := lowest.choose_mem chosen
      obtain ⟨entry, found⟩ := lookup_of_height (List.mem_filter.mp among).1
      have shorter := length_evict found
      exact hypothesis (by omega)

/-! ## Admissions -/

theorem Accounts.prune (accounts : Accounts assembler 0) (height : U64) :
    Accounts (assembler.prune height) 0 := by
  unfold ProposalAssembler.prune
  split
  next => exact accounts
  next =>
    have kept := List.filter_sublist (l := assembler.pending.entries)
      (p := fun entry => decide (height.satSub 2 ≤ entry.2.height))
    refine ⟨rfl, ?_, Nat.le_trans kept.length_le accounts.few⟩
    exact Nat.le_trans ((kept.map _).sum_le_sum fun _ _ => Nat.zero_le _)
      (Nat.le_trans (Nat.le_of_eq accounts.exact) accounts.within)

theorem Accounts.pin (accounts : Accounts assembler 0) (coded : CodedProposal) (source : U64)
    (verifyAuth : CodedProposal → Bool) :
    Accounts (assembler.pin coded source verifyAuth).1 0 := by
  obtain ⟨exact, within, few⟩ := accounts
  unfold ProposalAssembler.pin spendToken observe
  dsimp only
  repeat' split
  all_goals exact ⟨exact, within, few⟩

/-- There is room for a new entry, after the eviction of the lowest one if need be. -/
theorem Accounts.room (accounts : Accounts assembler 0) (lowest : Lowest)
    (absent : assembler.pending.lookup key = none) :
    ∃ room, (if maxPendingProposals ≤ assembler.pending.entries.length then
        assembler.evictLowestPending lowest else assembler) = room ∧
      Accounts room 0 ∧ room.pending.lookup key = none ∧
      room.pending.entries.length < maxPendingProposals := by
  refine ⟨_, rfl, ?_⟩
  split
  next full =>
    unfold evictLowestPending
    split
    next none =>
      rw [List.map_eq_nil_iff.mp (lowest.choose_none none)] at full
      cases full
    next victim chosen =>
      obtain ⟨height, listed, -⟩ := lowest.choose_mem chosen
      obtain ⟨entry, found⟩ := lookup_of_height listed
      have apart : victim ≠ key := by
        rintro rfl
        cases absent.symm.trans found
      refine ⟨accounts.evict (Nat.zero_le _) apart, (lookup_evict apart.symm).trans absent, ?_⟩
      exact Nat.lt_of_succ_le (Nat.le_trans (Nat.le_of_eq (length_evict found)) accounts.few)
  next room => exact ⟨accounts, absent, Nat.lt_of_not_le room⟩

end

/-- What an entry owes until its first piece is counted. -/
def owedBy (entry : Pending) (isNew : Bool) : Nat := if isNew then entry.overhead else 0

/-- A shard has found its entry, or has opened it. -/
structure Entered (assembler : ProposalAssembler) (key : ProposalKey) (entry : Pending)
    (isNew : Bool) : Prop where
  found : assembler.pending.lookup key = some entry
  opened : isNew → entry.pieces = []
  accounts : Accounts assembler (owedBy entry isNew)

theorem Accounts.enter {assembler : ProposalAssembler} (accounts : Accounts assembler 0)
    (lowest : Lowest) (coded : CodedProposal) :
    ∃ stored entry isNew, assembler.enter lowest coded = (stored, entry, isNew) ∧
      Entered stored (coded.view, coded.commitment.root) entry isNew ∧
      (isNew → entry = ProposalAssembler.opened coded) := by
  cases held : assembler.pending.lookup (coded.view, coded.commitment.root) with
  | some entry =>
    exact ⟨assembler, entry, false, by simp only [ProposalAssembler.enter, held],
      ⟨held, nofun, accounts⟩, nofun⟩
  | none =>
    obtain ⟨room, made, accounts, absent, few⟩ := accounts.room lowest held
    refine ⟨{ room with pending := room.pending.insert _ (ProposalAssembler.opened coded) }, _, true,
      by simp only [ProposalAssembler.enter, held, made],
      ⟨AList.lookup_insert _, fun _ => rfl, ?_, accounts.within, ?_⟩, fun _ => rfl⟩
    · rw [weightOf_insert, weightOf, erase_absent absent, ← weightOf, accounts.exact, entryWeight]
      simp [ProposalAssembler.opened, owedBy, Nat.add_comm]
    · rw [AList.entries_insert, List.length_cons, show List.kerase _ _ = _ from erase_absent absent]
      exact few

namespace Entered

variable {assembler : ProposalAssembler} {key : ProposalKey} {entry : Pending} {isNew : Bool}

variable (entered : Entered assembler key entry isNew)

include entered

theorem owes : owedBy entry isNew ≤ assembler.weightAt key := by
  rw [weightAt, entered.found, Option.map_some, Option.getD_some, entryWeight, owedBy]
  split
  · exact Nat.le_add_right ..
  · exact Nat.zero_le _

theorem evictUntilFits (lowest : Lowest) (weight rounds : Nat) :
    Entered (evictUntilFits lowest weight key rounds assembler) key entry isNew :=
  ⟨(lookup_evictUntilFits ..).trans entered.found, entered.opened,
    entered.accounts.evictUntilFits lowest weight rounds entered.owes⟩

/-- An entry that was just opened takes back what it owes. -/
theorem withdraw : Accounts (assembler.withdraw key isNew) 0 := by
  obtain ⟨found, opened, accounts⟩ := entered
  unfold ProposalAssembler.withdraw
  cases isNew with
  | false => exact accounts
  | true =>
    refine accounts.erase found ?_ (Nat.le_refl _)
    rw [entryWeight, opened rfl, List.map_nil, List.sum_nil]
    exact Nat.add_comm ..

/-- The counter, raised by a piece, covers the entry that the piece completes. -/
theorem covers (piece : Shard × ShardProof) :
    entryWeight { entry with pieces := entry.pieces ++ [piece] } ≤
      assembler.bytes + (pieceWeight piece + owedBy entry isNew) := by
  have total := entered.accounts.exact
  rw [weightOf_erase entered.found] at total
  rw [entryWeight_grown]
  omega

/-- A piece pays for itself, and for the entry that it opens. -/
theorem addPiece (lowest : Lowest) (available : Nat) (piece : Shard × ShardProof)
    (fits : assembler.bytes + (pieceWeight piece + owedBy entry isNew) ≤ assembler.maxBytes) :
    Accounts (assembler.addPiece lowest available key piece
      (pieceWeight piece + owedBy entry isNew)).1 0 := by
  have covered := entered.covers piece
  obtain ⟨found, -, total, -, few⟩ := entered
  rw [weightOf_erase found] at total
  have added : Accounts { assembler with
      pending := assembler.pending.insert key { entry with pieces := entry.pieces ++ [piece] }
      bytes := assembler.bytes + (pieceWeight piece + owedBy entry isNew) } 0 := by
    refine ⟨?_, fits, (perm_erase found).length_eq ▸ few⟩
    rw [weightOf_insert, entryWeight_grown]
    dsimp only
    omega
  unfold ProposalAssembler.addPiece
  rw [found]
  dsimp only
  split
  · exact added
  · obtain ⟨exact, within, few⟩ : Accounts _ 0 := added.erase (AList.lookup_insert _)
      (Nat.add_sub_cancel' covered).symm (Nat.sub_le ..)
    unfold finish evictLowestDone
    dsimp only
    repeat' split
    all_goals exact ⟨exact, within, few⟩

theorem fitPiece (lowest : Lowest) (available : Nat) (piece : Shard × ShardProof) :
    Accounts (assembler.fitPiece lowest available key piece
      (pieceWeight piece + owedBy entry isNew) isNew).1 0 := by
  have fitted := entered.evictUntilFits lowest (pieceWeight piece + owedBy entry isNew)
    (assembler.pending.entries.length + 1)
  unfold ProposalAssembler.fitPiece
  dsimp only
  split
  · exact entered.withdraw
  split
  · exact fitted.withdraw
  next fits => exact fitted.addPiece lowest available piece (Nat.le_of_not_lt fits)

end Entered

namespace Accounts

variable {assembler : ProposalAssembler}

theorem collect (accounts : Accounts assembler 0) (lowest : Lowest) (available : Nat)
    (coded : CodedProposal) : Accounts (assembler.collect lowest available coded).1 0 := by
  obtain ⟨stored, entry, isNew, enters, entered, opens⟩ := accounts.enter lowest coded
  have fitted := entered.fitPiece lowest available (coded.shard, coded.proof)
  unfold ProposalAssembler.collect
  rw [enters]
  dsimp only
  rw [show (if isNew then entry.overhead else 0) = owedBy entry isNew from rfl]
  cases isNew with
  | false =>
    repeat' split
    all_goals first
      | exact entered.accounts
      | exact fitted
  | true =>
    cases opens rfl
    rw [if_neg (by simp [opened]), if_neg (by simp [opened]), if_neg (by simp [opened])]
    exact fitted

theorem admitCoded (accounts : Accounts assembler 0) (lowest : Lowest) (available : Nat)
    (coded : CodedProposal) (source : U64) (verifyAuth : CodedProposal → Bool) :
    Accounts (assembler.admitCoded lowest available coded source verifyAuth).1 0 := by
  have checked :=
    (accounts.prune (assembler.pruneFloor coded.header.height)).pin coded source verifyAuth
  unfold ProposalAssembler.admitCoded
  dsimp only
  repeat' split
  all_goals first
    | exact accounts
    | exact checked
    | exact checked.collect lowest available coded

end Accounts

/-- Whatever an admission takes off the counter is on it: the entry that makes place for a new one,
the entries that make room for a piece, and the entry that the piece completes. -/
structure Covered (lowest : Lowest) (assembler : ProposalAssembler) (coded : CodedProposal) :
    Prop where
  place : ∀ {key entry}, assembler.pending.lookup key = some entry →
    entryWeight entry ≤ assembler.bytes
  room : ∀ {stored entry isNew}, assembler.enter lowest coded = (stored, entry, isNew) →
    ∀ weight rounds {key other}, key ≠ (coded.view, coded.commitment.root) →
    (evictUntilFits lowest weight (coded.view, coded.commitment.root) rounds stored).pending.lookup
      key = some other →
    entryWeight other ≤
      (evictUntilFits lowest weight (coded.view, coded.commitment.root) rounds stored).bytes
  complete : ∀ {stored entry isNew}, assembler.enter lowest coded = (stored, entry, isNew) →
    ∀ weight rounds,
    entryWeight { entry with pieces := entry.pieces ++ [(coded.shard, coded.proof)] } ≤
      (evictUntilFits lowest weight (coded.view, coded.commitment.root) rounds stored).bytes +
        (pieceWeight (coded.shard, coded.proof) + if isNew then entry.overhead else 0)

theorem Accounts.covered {assembler : ProposalAssembler} (accounts : Accounts assembler 0)
    (lowest : Lowest) (coded : CodedProposal) : Covered lowest assembler coded := by
  obtain ⟨stored, entry, isNew, enters, entered, -⟩ := accounts.enter lowest coded
  refine ⟨fun found => ?_, ?_, ?_⟩
  · have total := accounts.exact
    rw [weightOf_erase found] at total
    omega
  · intro stored entry isNew same weight rounds key other apart found
    cases enters.symm.trans same
    have evicted := entered.evictUntilFits lowest weight rounds
    exact evicted.accounts.covers evicted.owes apart found
  · intro stored entry isNew same weight rounds
    cases enters.symm.trans same
    exact (entered.evictUntilFits lowest weight rounds).covers _

end ProposalAssembler

def AssemblerEvent.apply (assembler : ProposalAssembler) : AssemblerEvent → ProposalAssembler
  | .admitCoded lowest available coded source verifyAuth =>
    (assembler.admitCoded lowest available coded source verifyAuth).1
  | .tick => assembler.tick
  | .setRoundHeight height => assembler.setRoundHeight height
  | .takeObserved => assembler.takeObserved.1

open ProposalAssembler in
theorem accounts_run {assembler : ProposalAssembler} (accounts : Accounts assembler 0)
    (events : List AssemblerEvent) : Accounts (events.foldl AssemblerEvent.apply assembler) 0 := by
  induction events generalizing assembler with
  | nil => exact accounts
  | cons event events hypothesis =>
    refine hypothesis ?_
    cases event with
    | admitCoded lowest available coded source verifyAuth =>
      exact accounts.admitCoded lowest available coded source verifyAuth
    | tick => exact { accounts with }
    | setRoundHeight height => exact { accounts with }
    | takeObserved => exact { accounts with }

/-- After any run of an assembler with any budget, the counter is the weight of the pending entries,
within the budget, and there are at most as many entries as may be pending. No admission then takes
more off the counter than is on it, and its evictions end by themselves. By induction on the run,
with what an admission under way still owes to the counter. -/
theorem counter_exact (budget : Nat) (events : List AssemblerEvent) :
    let assembler :=
      events.foldl AssemblerEvent.apply { ProposalAssembler.new with maxBytes := budget }
    assembler.bytes = assembler.totalWeight ∧ assembler.bytes ≤ assembler.maxBytes ∧
    assembler.pending.entries.length ≤ maxPendingProposals ∧
    ∀ lowest, (∀ coded source verifyAuth, ProposalAssembler.Covered lowest ((assembler.prune
        (assembler.pruneFloor coded.header.height)).pin coded source verifyAuth).1 coded) ∧
      ∀ weight keep stored,
        let evicted := ProposalAssembler.evictUntilFits lowest weight keep
          (stored.pending.entries.length + 1) stored
        evicted.bytes + weight ≤ evicted.maxBytes ∨
          ∀ entry ∈ evicted.pending.entries, entry.1 = keep := by
  have start : ProposalAssembler.Accounts { ProposalAssembler.new with maxBytes := budget } 0 :=
    ⟨rfl, Nat.zero_le _, Nat.zero_le _⟩
  have accounts := accounts_run start events
  refine ⟨accounts.exact.symm, accounts.within, accounts.few, fun lowest => ⟨?_, ?_⟩⟩
  · intro coded source verifyAuth
    exact ((accounts.prune _).pin coded source verifyAuth).covered lowest coded
  · intro weight keep stored
    exact ProposalAssembler.evictUntilFits_exits lowest weight (Nat.lt_succ_self _)

end QuantovaChain.Wire
