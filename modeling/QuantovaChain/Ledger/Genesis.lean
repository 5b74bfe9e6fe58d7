import QuantovaChain.Ledger.Rewards

/-!
# From genesis past the largest word

A node adds up what its chain starts with, and refuses a genesis whose sum reaches the largest word.
After that, rewards are what the chain can grow by: they are drawn from a pool, and issued once the
pool is empty. One validator that saves its rewards outgrows the pool, so that what it bonds and
what another validator has bonded come to more than a word, and the total of the stake stops short
of them.
-/

namespace QuantovaChain.Ledger

open Idfmt (Text ascii)
open Governance (Id)
open Staking
open Transaction Transaction.State Leaves
open Transaction.Program (put each)

/-! ## Genesis -/

def stakingPool : U64 := 685714000000

structure GenesisAccount where
  address : Text
  balance : U64
  scheme : UInt8
  publicKey : State.Bytes

/-- What a chain starts with: accounts, and validators with their stakes in whole units. -/
structure Genesis where
  accounts : List GenesisAccount
  roster : List (Text × U64)
  time : U64

/-- The bond of a stake in whole units. -/
def genesisBond (stake : U64) : U64 := stake.satMul (Word.clamp 64 nativeUnit)

/-- What the accounts, the pool and some of the validators start with. -/
def genesisSum (genesis : Genesis) (counts : Text → Bool) : U64 :=
  let held := genesis.accounts.foldl (fun (supply : U64) account => supply.satAdd account.balance) 0
  (genesis.roster.filter fun validator => counts validator.1).foldl
    (fun supply validator => supply.satAdd (genesisBond validator.2)) (held.satAdd stakingPool)

/-- All that a chain starts with. -/
def genesisSupplyValue (genesis : Genesis) : U64 := genesisSum genesis fun _ => true

/-- A node does not open a chain that starts with the largest word. -/
def Genesis.opens (genesis : Genesis) : Prop := genesisSupplyValue genesis ≠ Word.top 64

/-- The leaves of accounts, stakes and supply at genesis, for a chain without a bridge. A validator
whose address does not read has no bond. -/
def initGenesis [Platform] (context : Context) (genesis : Genesis) : LedgerM Unit := do
  each (fun account : GenesisAccount => setAccount account.address
    ⟨0, account.balance, account.scheme, account.publicKey⟩) genesis.accounts
  let state ← leaves
  setAccount grantsAddress (state.account grantsAddress)
  setStakePool stakingPool
  each (fun validator : Text × U64 => seedValidatorBondAt context validator.1
    (genesisBond validator.2) (genesis.time.div 86400)) genesis.roster
  let ids := genesis.roster.filterMap fun validator => addressId validator.1
  put .stakeValidators (ids.insertionSort fun first second => first.toList ≤ second.toList).dedup
  setTotalSupply (genesisSum genesis fun address => (addressId address).isSome)

/-! ## A validator that saves its rewards -/

/-- Someone else, with the least stake that there is. -/
def saver : Id := Vector.replicate 32 8

/-- The height of a session. -/
def sessionHeight (round : Nat) : U64 := Word.clamp 64 (250000000 * round)

def sessionDay (round : Nat) : U64 := Word.clamp 64 (21 + 365 * round)

/-- The moment of a session: a year and a period of blocks after the one before. -/
def sessionMoment (round : Nat) : Moment where
  context := ⟨none, sessionHeight round, 10, []⟩
  now := Word.clamp 64 (86400 * (21 + 365 * round))

/-- What a claim or a bond costs. -/
def savingFee : U64 := 500

/-- What has been saved after some rounds. -/
def saved (round : Nat) : Nat := 18446743365995551614 + 33332833 * round

/-- What a round of saving reads: the network has started, two validators are bonded, and no one is
banned or blacklisted. -/
def savingLeaves (round : Nat) (account : Account) : Leaves
  | .stakeMainnet => some (21 : U64)
  | .stakeValidators => some [holder, saver]
  | .stakeBond id => some (some (if id = holder then ⟨10000000000, 0, none, 10000000000, 0⟩
      else ⟨2000000000, 0, none, 2000000000, 0⟩))
  | .stakeMeter => some ⟨sessionDay round, 0⟩
  | .account _ => some account
  | _ => none

def savingKeys : List LeafKey :=
  [.stakeMainnet, .stakeValidators, .stakeBond holder, .stakeBond saver, .stakeBanned holder,
    .stakeBanned saver, .govBlacklist holder, .govBlacklist saver, .stakeMeter,
    .account (.parsed holder)]

/-- Between two sessions, with the book and the account of the validator that saves. -/
structure Saving (round : Nat) (book : RewardBook) (account : Account) (ledger : Ledger) :
    Prop where
  leaves : ∀ key ∈ savingKeys, ledger.get key = savingLeaves round account key
  book : stakeRewards ledger.get holder = book

section Saving

variable {round : Nat} {book : RewardBook} {account : Account} {ledger before after : Ledger}

/-- The whole of a bond that was never raised counts. -/
theorem weightInEpoch_whole (amount day raised epoch heightsPerEpoch : U64) :
    Bond.weightInEpoch ⟨amount, day, none, amount, raised⟩ epoch heightsPerEpoch = amount := by
  have whole : min amount amount = amount := by
    ext
    rw [Word.val_min, min_self]
  simp [Bond.weightInEpoch, Bond.amountInEpoch, whole]

theorem day_sessionMoment {round : Nat} (soon : round ≤ 30000) :
    (sessionMoment round).day = sessionDay round := by
  ext
  simp only [sessionMoment, sessionDay, Moment.day, Word.val_div, Word.val_clamp]
  show _ / 86400 = _
  omega

section Reading

variable (saving : Saving round book account ledger)

include saving

theorem Saving.bonds : stakeBond ledger.get holder = some ⟨10000000000, 0, none, 10000000000, 0⟩ ∧
    stakeBond ledger.get saver = some ⟨2000000000, 0, none, 2000000000, 0⟩ := by
  have apart : saver ≠ holder := by decide
  rw [stakeBond, saving.leaves _ (by simp [savingKeys]), stakeBond,
    saving.leaves _ (by simp [savingKeys])]
  simp [savingLeaves, apart]

theorem Saving.free : ∀ id ∈ [holder, saver], isStakeBanned ledger.get id = false ∧
    isGovBlacklisted ledger.get id = false := by
  have unmarked : ∀ key ∈ [LeafKey.stakeBanned holder, .stakeBanned saver, .govBlacklist holder,
      .govBlacklist saver], ledger.get key = savingLeaves round account key := by
    intro key among
    exact saving.leaves key (by simp [savingKeys] at among ⊢; tauto)
  simp only [List.forall_mem_cons] at unmarked ⊢
  simp [isStakeBanned, isGovBlacklisted, unmarked, savingLeaves]

theorem Saving.funds :
    Leaves.account ledger.get (addressOf holder) = account := by
  rw [Leaves.account, accountRef_addressOf, saving.leaves _ (by simp [savingKeys])]
  rfl

theorem Saving.started : stakeMainnetStart ledger.get = 21 := by
  rw [stakeMainnetStart, saving.leaves _ (by simp [savingKeys])]
  rfl

theorem Saving.validators : validatorIds ledger.get = [holder, saver] := by
  rw [validatorIds, saving.leaves _ (by simp [savingKeys])]
  rfl

theorem Saving.denominator (context : Context) :
    rosterRewardDenominator ledger.get context = some 12000000000 := by
  have free := saving.free
  simp only [List.forall_mem_cons] at free
  simp [rosterRewardDenominator, saving.validators, free, saving.bonds, weightInEpoch_whole]
  decide

end Reading

/-- The validators are paid in turn, and the one that saves is paid for a whole period. -/
theorem Saving.accrue (saving : Saving (round + 1) ⟨[], sessionHeight round, 0⟩ account
    ledger) (soon : round < 30000) :
    Returns ledger (accrueEach (sessionMoment (round + 1)).context
        (sessionDay (round + 1)) [holder, saver])
      fun _ after => Saving (round + 1) ⟨[⟨sessionDay (round + 1), 33333333, 0⟩],
        sessionHeight (round + 1), 0⟩ account after := by
  have earned : earner ledger.get (sessionMoment (round + 1)).context holder
      (sessionDay (round + 1)) =
      some ⟨10000000000, 0, none, 10000000000, 0⟩ := by
    have ended : inBlackout (sessionDay (round + 1)) 21 = false := by
      simp only [inBlackout, sessionDay, Word.lt_def, decide_eq_false_iff_not, Word.val_satSub,
        Word.val_clamp]
      show ¬ _ - 21 < 365
      omega
    have free := saving.free holder List.mem_cons_self
    simp [earner, saving.started, ended, free, saving.bonds.1, saving.book, weightInEpoch_whole]
    decide
  have period : (sessionHeight (round + 1)).satSub (sessionHeight round) = 250000000 := by
    ext
    simp only [Word.val_satSub, sessionHeight, Word.val_clamp]
    show _ = 250000000
    omega
  have others : ∀ {id : Id} {before after : Ledger} {paid : U64},
      Accrued (sessionMoment (round + 1)).context (sessionDay (round + 1)) id before paid after →
      ∀ key ∈ savingKeys, after.get key = before.get key := by
    intro id before after paid accrued key among
    refine accrued.others key ?_ ?_ ?_ <;> rintro rfl <;> simp [savingKeys] at among
  simp only [accrueEach, returns_bind, returns_pure]
  refine (accrueRewardById_returns _ _).mono fun paid first accrued => ?_
  refine (accrueRewardById_returns _ _).mono fun _ after alsoAccrued => ?_
  refine ⟨fun key among => ?_, ?_⟩
  · rw [others alsoAccrued key among, others accrued key among, saving.leaves key among]
  · rw [alsoAccrued.others_book (by decide)]
    rcases accrued.book with ⟨absent, _⟩ | ⟨bond, found, due, written⟩
    · rw [earned] at absent
      cases absent
    · rw [earned] at found
      obtain rfl := Option.some.inj found
      have stays : anchored ⟨[], sessionHeight round, 0⟩ ⟨10000000000, 0, none, 10000000000, 0⟩ =
          ⟨[], sessionHeight round, 0⟩ := by
        have later : max (sessionHeight round) 0 = sessionHeight round := by
          ext
          rw [Word.val_max, Word.val_zero, Nat.max_zero]
        simp [anchored, later]
      have whole : paid = 33333333 := by
        rw [due, saving.book, stays, rewardDue]
        show (validatorReward
          ((sessionHeight (round + 1)).satSub (sessionHeight round))).satSub 0 = _
        rw [period]
        decide
      rw [written, whole, saving.book, stays, if_neg (by decide)]
      unfold paidOut
      dsimp only [sessionMoment]
      rw [period, if_pos (by decide)]
      rfl

/-- A session pays the validator for a whole period. -/
theorem Saving.settle (saving : Saving round ⟨[], sessionHeight round, 0⟩ account ledger)
    (soon : round < 30000) :
    Returns ledger
      (settlePayments (sessionMoment (round + 1)).context (sessionMoment (round + 1)).day 0)
      fun _ after => Saving (round + 1) ⟨[⟨sessionDay (round + 1), 33333333, 0⟩],
        sessionHeight (round + 1), 0⟩ account after := by
  rw [day_sessionMoment soon]
  have closes : ((sessionMeter ledger.get).record 0).windowClosed
      (sessionDay (round + 1)) = true := by
    rw [sessionMeter, saving.leaves _ (by simp [savingKeys])]
    simp only [savingLeaves, Option.getD_some, SessionMeter.record, SessionMeter.windowClosed,
      Word.le_def, decide_eq_true_eq, Word.val_satSub, sessionDay, Word.val_clamp]
    show 182 ≤ _
    omega
  unfold settlePayments recordSession
  simp only [returns_bind, returns_leaves, saving.started]
  rw [if_neg (by decide)]
  simp only [setSessionMeter, SessionMeter.close, if_pos closes, returns_bind, returns_leaves,
    returns_put, returns_pure, Option.isNone_some, Bool.false_eq_true, if_false, returns_expect]
  generalize recording : ledger.write .stakeMeter _ = recorded
  have recorded_saving : Saving (round + 1) ⟨[], sessionHeight round, 0⟩ account
      recorded := by
    refine ⟨fun key among => ?_, ?_⟩
    · by_cases meter : key = .stakeMeter
      · subst meter
        rw [← recording, get_write_self]
        rfl
      · rw [← recording, get_write_ne _ (Ne.symm meter), saving.leaves key among]
        cases key <;> first | rfl | exact absurd rfl meter
    · rw [← saving.book, ← recording]
      simp [stakeRewards]
  refine ⟨_, recorded_saving.denominator _, ?_⟩
  rw [recorded_saving.validators]
  exact recorded_saving.accrue soon

/-- What follows when the account is paid from or into. -/
theorem Saving.rewrite {paid : Account} (saving : Saving round book account before)
    (written : after.get (.account (.parsed holder)) = some paid)
    (same : ∀ key ∈ savingKeys, key ≠ .account (.parsed holder) → after.get key = before.get key)
    (sameBook : after.get (.stakeRewards holder) = before.get (.stakeRewards holder)) :
    Saving round book paid after := by
  refine ⟨fun key among => ?_, by rw [stakeRewards, sameBook]; exact saving.book⟩
  by_cases other : key = .account (.parsed holder)
  · subst other
    exact written
  · rw [same key among other, saving.leaves key among]
    cases key <;> first | rfl | (simp_all [savingKeys])

/-- A year after a session the whole of what it paid is claimed. -/
theorem Saving.claimed (saving : Saving round ⟨[⟨sessionDay round, 33333333, 0⟩],
      sessionHeight round, 0⟩ account ledger) (soon : round < 30000) :
    Returns ledger (claimReward (addressOf holder) (sessionDay (round + 1)))
      fun _ after => Saving round ⟨[], sessionHeight round, 0⟩
        { account with balance := account.balance.satAdd 33333333 } after := by
  have year : (sessionDay (round + 1)).satSub (sessionDay round) = 365 := by
    ext
    simp only [Word.val_satSub, sessionDay, Word.val_clamp]
    show _ = 365
    omega
  have vested : vestAll [⟨sessionDay round, 33333333, 0⟩] (sessionDay (round + 1)) =
      [(33333333, ⟨sessionDay round, 33333333, 33333333⟩)] := by
    have whole : released 33333333 365 = 33333333 := by decide
    simp only [vestAll, List.map_cons, List.map_nil, RewardTranche.vest, year, whole,
      Word.satSub_zero]
  have rest : unvested
      [((33333333 : U64), (⟨sessionDay round, 33333333, 33333333⟩ : RewardTranche))] = [] := by
    simp [unvested, Word.lt_def]
  have free := saving.free holder List.mem_cons_self
  unfold claimReward
  rw [addressId_addressOf]
  simp only [returns_bind, returns_leaves, free, saving.book, vested, rest, Bool.or_self,
    Bool.false_eq_true, if_false, returns_expect]
  have sum : Word.checkedAdd (0 : U64) 33333333 = some 33333333 := by decide
  refine ⟨33333333, by simp [sum], ?_⟩
  rw [if_neg (by decide)]
  simp only [setStakeRewards, setAccount, returns_bind, returns_put, returns_leaves,
    returns_emitSide, returns_pure]
  have emptied : Saving round ⟨[], sessionHeight round, 0⟩ account
      (ledger.write (.stakeRewards holder) (some ⟨[], sessionHeight round, 0⟩)) := by
    refine ⟨fun key among => ?_, by rw [stakeRewards, get_write_self]; rfl⟩
    rw [get_write_ne _ (by rintro rfl; simp [savingKeys] at among), saving.leaves key among]
  rw [emptied.funds, accountRef_addressOf]
  refine emptied.rewrite ?_ (fun key _ other => ?_) ?_
  · rw [get_pushSide, get_write_self]
  · rw [get_pushSide, get_write_ne _ (Ne.symm other)]
  · rw [get_pushSide, get_write_ne _ (by rintro ⟨⟩)]

section Charges

variable [Platform] {nonce balance debit : U64} {scheme : UInt8} {publicKey : State.Bytes}
  {α : Type} {later : Nat}

/-- A debit with a fee leaves all but the nonce and the balance of the account as it was. -/
theorem Saving.charge {next : LedgerM α} {post : α → Ledger → Prop}
    (saving : Saving round book ⟨nonce, balance, scheme, publicKey⟩ ledger)
    (grants : accountRef grantsAddress ≠ .parsed holder) (counts : nonce.val + 1 < 2 ^ 64)
    (pays : debit.val ≤ balance.val)
    (continues : ∀ charged, Saving round book
      ⟨Word.clamp 64 (nonce.val + 1), balance.satSub debit, scheme, publicKey⟩ charged →
      Returns charged next post) :
    Returns ledger (do
      setAccount (addressOf holder) (← Account.pay ⟨nonce, balance, scheme, publicKey⟩ debit)
      collectFee (sessionMoment later).context savingFee
      next) post := by
  unfold Account.pay
  simp only [returns_bind, returns_expect, returns_pure, setAccount, returns_put]
  refine ⟨Word.clamp 64 (nonce.val + 1), ?_, balance.satSub debit, ?_, ?_⟩
  · rw [Word.checkedAdd_eq_some, Word.val_clamp]
    show _ = nonce.val + 1
    omega
  · rw [Word.checkedSub_eq_some]
    exact ⟨pays, Word.val_satSub _ _⟩
  rw [accountRef_addressOf]
  refine (collectFee_returns _ savingFee).mono fun _ charged same => continues charged ?_
  -- Without a proposer its part goes to the grants as well.
  replace same key (apart : key ≠ .account (accountRef grantsAddress)) := same key apart apart
  refine saving.rewrite ?_ (fun key among other => ?_) ?_
  · rw [same _ (by simpa using Ne.symm grants) (by rintro ⟨⟩), get_write_self]
  · rw [same key ?_ (by rintro rfl; simp [savingKeys] at among), get_write_ne _ (Ne.symm other)]
    rintro rfl
    simp [savingKeys, grants] at among
  · rw [same _ (by rintro ⟨⟩) (by rintro ⟨⟩), get_write_ne _ (by rintro ⟨⟩)]

/-- A year later the validator claims what it was paid. -/
theorem Saving.claim
    (saving : Saving round ⟨[⟨sessionDay round, 33333333, 0⟩], sessionHeight round, 0⟩
      ⟨nonce, balance, scheme, publicKey⟩ ledger)
    (grants : accountRef grantsAddress ≠ .parsed holder) (soon : round < 30000)
    (counts : nonce.val + 1 < 2 ^ 64) (pays : savingFee.val ≤ balance.val)
    (fits : balance.val + 33333333 < 2 ^ 64) :
    Returns ledger (claimWithFee (sessionMoment (round + 1)).context (addressOf holder) savingFee
        (sessionMoment (round + 1)).day)
      fun done after => done = true ∧ Saving round ⟨[], sessionHeight round, 0⟩
        ⟨Word.clamp 64 (nonce.val + 1), Word.clamp 64 (balance.val + 33332833), scheme,
          publicKey⟩ after := by
  rw [day_sessionMoment soon]
  unfold claimWithFee
  rw [returns_bind, returns_leaves, saving.funds]
  rw [if_neg (by simpa [Word.lt_def] using pays)]
  refine saving.charge grants counts pays fun charged paid => ?_
  refine (paid.claimed soon).bind fun _ after claimed => ?_
  have balances : (balance.satSub savingFee).satAdd 33333333 =
      Word.clamp 64 (balance.val + 33332833) := by
    have paying : savingFee.val = 500 := rfl
    ext
    rw [Word.val_satAdd, Word.val_satSub, Word.val_clamp]
    show min (_ + 33333333) _ = _
    omega
  rw [balances] at claimed
  exact returns_pure.mpr ⟨rfl, claimed⟩

/-- What the validator bonds besides what it has bonded at genesis. -/
def restStake : U64 := 18446744063709551615

/-- The validator bonds all that a bond can hold. -/
theorem Saving.bond (later : Nat)
    (saving : Saving round book ⟨nonce, balance, scheme, publicKey⟩ ledger)
    (grants : accountRef grantsAddress ≠ .parsed holder) (counts : nonce.val + 1 < 2 ^ 64)
    (pays : restStake.val + savingFee.val ≤ balance.val) :
    Returns ledger (bondWithFee (sessionMoment later).context (addressOf holder) restStake savingFee
        (sessionMoment later).day)
      fun done after => done = true ∧ (∃ bond, stakeBond after.get holder = some bond ∧
        bond.amount = Word.top 64) ∧
        stakeBond after.get saver = some ⟨2000000000, 0, none, 2000000000, 0⟩ := by
  have free := saving.free holder List.mem_cons_self
  have debit : restStake.checkedAdd savingFee = some 18446744063709552115 := by decide
  have total : Word.checkedAdd (10000000000 : U64) restStake = some (Word.top 64) := by decide
  unfold bondWithFee
  rw [addressId_addressOf]
  rw [returns_bind, returns_leaves]
  simp only [free, saving.funds, debit, saving.bonds.1, total, Bool.or_self, Bool.false_eq_true,
    if_false, Option.map_some, Option.getD_some]
  rw [if_neg (by rw [Word.lt_def]; exact Nat.not_lt.mpr pays), if_neg (by decide)]
  refine saving.charge grants counts pays fun charged paid => ?_
  have bonds := paid.bonds
  unfold creditStaked
  rw [if_neg (by decide)]
  simp only [setStakeBond, setTotalStakedActive, setTotalStakedRaisedAt, setTotalStaked,
    recordBondEvent, recordNativeEvent, returns_bind, returns_leaves, returns_put, returns_emit,
    returns_emitSide, returns_pure]
  refine ⟨trivial, ?_, ?_⟩
  · simp [stakeBond, raisedBond, Bond.raiseTo]
  · have apart : holder ≠ saver := by decide
    simpa [stakeBond, apart] using bonds.2

end Charges

end Saving

/-! ## Along a run -/

/-- One moment is not before another. -/
def Moment.upTo (earlier later : Moment) : Prop :=
  earlier.context.executionHeight ≤ later.context.executionHeight ∧ earlier.now ≤ later.now

theorem sessionMoment_upTo {earlier later : Nat} (ordered : earlier ≤ later) :
    (sessionMoment earlier).upTo (sessionMoment later) := by
  simp only [Moment.upTo, sessionMoment, sessionHeight, Word.le_def, Word.val_clamp]
  omega

section Runs

variable [Platform] {start ledger : Ledger} {trace : List Transition} {last : Moment}

/-- Whether an operation is one of transactions and of the ends of blocks, and not a write of its
own or a bond that is seeded. -/
def Operation.ordinary {α : Type} : Operation α → Bool
  | .seedValidatorBondAt .. | .elsewhere .. => false
  | _ => true

/-- The transitions are ordinary and in order, with epochs of ten blocks. -/
structure Orderly (last : Moment) (trace : List Transition) : Prop where
  ordinary : ∀ next ∈ trace, next.operation.ordinary = true ∧
    next.moment.context.heightsPerEpoch = 10
  ordered : trace.Pairwise fun earlier later => earlier.moment.upTo later.moment
  past : ∀ next ∈ trace, next.moment.upTo last

theorem Orderly.advance (orderly : Orderly last trace) (later : Moment) (onward : last.upTo later) :
    Orderly later trace :=
  ⟨orderly.ordinary, orderly.ordered, fun next among =>
    ⟨Nat.le_trans (orderly.past next among).1 onward.1,
      Nat.le_trans (orderly.past next among).2 onward.2⟩⟩

theorem Orderly.step (orderly : Orderly last trace) (next : Transition)
    (later : last.upTo next.moment) (ordinary : next.operation.ordinary = true)
    (length : next.moment.context.heightsPerEpoch = 10) :
    Orderly next.moment (trace ++ [next]) := by
  have past := (orderly.advance next.moment later).past
  refine ⟨?_, ?_, ?_⟩
  · exact List.forall_mem_append.mpr ⟨orderly.ordinary,
      List.forall_mem_singleton.mpr ⟨ordinary, length⟩⟩
  · refine List.pairwise_append.mpr ⟨orderly.ordered, List.pairwise_singleton _ _, ?_⟩
    intro earlier among final same
    rw [List.mem_singleton.mp same]
    exact past earlier among
  · exact List.forall_mem_append.mpr
      ⟨past, List.forall_mem_singleton.mpr ⟨Nat.le_refl _, Nat.le_refl _⟩⟩

/-- An operation that returns is one more transition. -/
theorem Run.extend {α : Type} (run : Run start trace ledger) (orderly : Orderly last trace)
    {moment : Moment} (later : last.upTo moment) (length : moment.context.heightsPerEpoch = 10)
    (operation : Operation α) (ordinary : operation.ordinary = true)
    {post : α → Ledger → Prop} (returns : Returns ledger (operation.program moment) post) :
    ∃ (longer : List Transition) (value : α) (after : Ledger), Run start longer after ∧
      Orderly moment longer ∧ post value after := by
  obtain ⟨value, returned, reached⟩ := returns
  let next : Transition := .take moment operation ledger value returned
  have ordered : Orderly next.moment (trace ++ [next]) :=
    orderly.step next later ordinary length
  exact ⟨trace ++ [next], value, next.after, run.step next rfl, ordered, reached⟩

/-- Round after round, a session pays the validator and a year later it claims. By induction on the
rounds: each one adds the session and the claim to the run. -/
theorem Run.save (run : Run start trace ledger) (orderly : Orderly (sessionMoment 1) trace)
    (grants : accountRef grantsAddress ≠ .parsed holder)
    (saving : Saving 0 ⟨[], sessionHeight 0, 0⟩ ⟨0, Word.clamp 64 (saved 0), 1, [1]⟩ ledger)
    (rounds : Nat) (few : rounds ≤ 21000) :
    ∃ (longer : List Transition) (after : Ledger), Run start longer after ∧
      Orderly (sessionMoment (rounds + 1)) longer ∧
      Saving rounds ⟨[], sessionHeight rounds, 0⟩
        ⟨Word.clamp 64 rounds, Word.clamp 64 (saved rounds), 1, [1]⟩ after := by
  induction rounds with
  | zero => exact ⟨trace, ledger, run, orderly, saving⟩
  | succ round hypothesis =>
    obtain ⟨earlier, before, ran, ordered, held⟩ := hypothesis (by omega)
    obtain ⟨_, _, _, settled, settledOrder, paid⟩ := ran.extend ordered
      (sessionMoment_upTo le_rfl) rfl (.settleSession 0) rfl (held.settle (by omega))
    have balances : (Word.clamp 64 (saved round) : U64).val = saved round := by
      simp only [Word.val_clamp, saved]
      omega
    have nonces : (Word.clamp 64 round : U64).val = round := by
      rw [Word.val_clamp]
      omega
    have fee : savingFee.val = 500 := rfl
    obtain ⟨longer, _, after, claimed, claimedOrder, _, rest⟩ := settled.extend settledOrder
      (sessionMoment_upTo (Nat.le_succ _)) rfl (.claimWithFee (addressOf holder) savingFee) rfl
      (paid.claim grants (by omega) (by omega) (by rw [balances, saved]; omega)
        (by rw [balances, saved]; omega))
    refine ⟨longer, after, claimed, claimedOrder, ?_⟩
    rwa [balances, nonces, show saved round + 33332833 = saved (round + 1) by
      simp only [saved]; omega] at rest

end Runs

/-- One account holds nearly all, and its owner and another are validators. -/
def richGenesis : Genesis where
  accounts := [⟨addressOf holder, 18446743375995551614, 1, [1]⟩]
  roster := [(addressOf holder, 10000), (addressOf saver, 2000)]
  time := 0

/-- The ledger that the genesis leaves. -/
def richLedger : Ledger :=
  letI := Platform.blank
  ((initGenesis genesisMoment.context richGenesis).plain emptyLedger).2

/-- The validator proposes that the network starts. -/
def startProposal : @Transition Platform.blank :=
  letI := Platform.blank
  .take (momentAt 0) (.govPropose (addressOf holder) .chainUpgrade
    (.parameter (ascii "mainnet_start") [21, 0, 0, 0, 0, 0, 0, 0])) richLedger (some 1)
    (by decide +kernel)

/-- The validator votes for it with all of its stake. -/
def startVote : @Transition Platform.blank :=
  letI := Platform.blank
  .take (momentAt 1) (.govVote (addressOf holder) 1 true .liquid 10000000000)
    (@Transition.after Platform.blank startProposal) true (by decide +kernel)

/-- The network starts. -/
def networkStart : @Transition Platform.blank :=
  letI := Platform.blank
  .take (momentAt 1814400) (.govEnact 1 0) (@Transition.after Platform.blank startVote) (.ok ())
    (by decide +kernel)

theorem networkStart_saving : Saving 0 ⟨[], sessionHeight 0, 0⟩ ⟨0, Word.clamp 64 (saved 0), 1, [1]⟩
    (@Transition.after Platform.blank networkStart) := by
  refine ⟨?_, by decide +kernel⟩
  simp only [savingKeys, List.forall_mem_cons, List.not_mem_nil, false_implies, implies_true,
    and_true]
  decide +kernel

/-- From a genesis that a node opens, ordinary transactions and ends of blocks lead to bonds that
add up to more than the total of the stake can be: the network starts, one validator claims the
rewards of 21000 sessions and bonds all it has, and its bond alone is the largest word. -/
theorem electorate_saturates :
    letI := Platform.blank
    richGenesis.opens ∧
      (initGenesis genesisMoment.context richGenesis).plain emptyLedger = (some (), richLedger) ∧
      ∃ (trace : List Transition) (last : Moment) (finish : Ledger), Run richLedger trace finish ∧
        Orderly last trace ∧
        ((Leaves.totalStaked finish.get).val : ℤ) ≠ bondsBy amountOf finish := by
  let := Platform.blank
  have run : Run richLedger [startProposal, startVote, networkStart] networkStart.after :=
    .step (.step (.step .nil startProposal (Transition.take_before ..)) startVote
      (Transition.take_before ..)) networkStart (Transition.take_before ..)
  have none : Orderly (momentAt 0) [] := ⟨by simp, .nil, by simp⟩
  have proposed := none.step startProposal ⟨by decide, by decide⟩ rfl rfl
  have voted := proposed.step startVote ⟨by decide, by decide⟩ rfl rfl
  have started := voted.step networkStart ⟨by decide, by decide⟩ rfl rfl
  have orderly := started.advance (sessionMoment 1) ⟨by decide, by decide⟩
  have grants : accountRef grantsAddress ≠ .parsed holder := by decide +kernel
  -- The number stays a variable, so that nothing counts up to it.
  obtain ⟨rounds, many⟩ : ∃ rounds, rounds = 21000 := ⟨_, rfl⟩
  obtain ⟨trace, _, ran, ordered, saving⟩ := run.save orderly grants networkStart_saving rounds
    many.le
  have nonces : (Word.clamp 64 rounds : U64).val + 1 < 2 ^ 64 := by
    rw [Word.val_clamp]
    omega
  have pays : restStake.val + savingFee.val ≤ (Word.clamp 64 (saved rounds) : U64).val := by
    have stake : restStake.val = 18446744063709551615 := rfl
    have fee : savingFee.val = 500 := rfl
    rw [Word.val_clamp, saved]
    omega
  have bonds := saving.bond (rounds + 1) grants nonces pays
  obtain ⟨longer, _, finish, bonded, bondedOrder, _, ⟨bond, found, whole⟩, other⟩ :=
    ran.extend ordered (sessionMoment_upTo le_rfl) rfl
      (.bondWithFee (addressOf holder) restStake savingFee) rfl bonds
  refine ⟨by unfold Genesis.opens; decide, ?_, longer, _, finish, bonded, bondedOrder, ?_⟩
  · exact Prod.ext (by decide +kernel) (by rw [richLedger])
  · have both := partBy_add_le_bondsBy amountOf finish (show holder ≠ saver by decide)
    have bound := (totalStaked finish.get).bound
    rw [found, other] at both
    simp only [partBy, amountOf, whole] at both
    have top : ((Word.top 64 : U64).val : ℤ) = 2 ^ 64 - 1 := rfl
    have least : ((2000000000 : U64).val : ℤ) = 2000000000 := rfl
    omega

end QuantovaChain.Ledger
