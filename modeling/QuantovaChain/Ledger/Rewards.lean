import QuantovaChain.Ledger.Electorate

/-!
# The rate of rewards

A validator earns by the blocks since the anchor of its period, in steps that jump at the tiers. The
anchor moves to the height of the last change of the bond and, at the end of a period, to the height
of the last payment. What keeps any of this from paying a block twice is that a bond is only ever
changed at the current height: an anchor that moves skips blocks, and never goes back over blocks
that were paid. So over every run a validator is paid at most what the top tier pays for the blocks.

What a validator is paid is what `accrueRewardById` returns. The same call books it: as a new tranche,
out of the pool as far as the pool lasts, and as new supply from there on.
-/

namespace QuantovaChain.Ledger

open Idfmt (Text)
open Governance (Id)
open Staking
open Transaction Transaction.State Leaves
open Transaction.Program (emitSide expect)

/-! ## The reward of blocks -/

/-- What the top tier pays for a period. -/
def topReward : Nat := (rewardUsdToQuon rewardUsdTierTop).val

theorem topReward_eq : topReward = 33333333 := rfl

theorem rewardUsdToQuon_rate (usd : Nat) : (rewardUsdToQuon usd).val * 3 ≤ usd * 1000 := by
  unfold rewardUsdToQuon nativeUnit rewardAnchorUsdPerQtov
  rw [Word.val_clamp]
  omega

/-- No number of blocks earns more than the rate of the top tier. -/
theorem validatorReward_rate (blocks : U64) :
    (validatorReward blocks).val * rewardBlocksTierTop ≤ topReward * blocks.val := by
  rw [topReward_eq]
  unfold validatorReward rewardBlocksTierTop rewardBlocksTierHigh rewardBlocksTierMid rewardUsdTierTop
    rewardUsdTierHigh rewardUsdTierMid rewardUsdTierLowCap
  dsimp only
  split
  · have top := rewardUsdToQuon_rate 100000
    generalize (rewardUsdToQuon 100000).val = quon at top ⊢
    omega
  split
  · have high := rewardUsdToQuon_rate 80000
    generalize (rewardUsdToQuon 80000).val = quon at high ⊢
    omega
  split
  · have mid := rewardUsdToQuon_rate 50000
    generalize (rewardUsdToQuon 50000).val = quon at mid ⊢
    omega
  · have low := rewardUsdToQuon_rate (min (blocks.val * 30000 / 150000000) 30000)
    omega

/-! ## Books -/

/-- What was paid before the period of a book is covered by the blocks before its anchor. The total
counts from some point on, and may be less than what the book has paid in its period. -/
def BookPaced (total : ℤ) (book : RewardBook) : Prop :=
  (total - book.paidInPeriod.val) * rewardBlocksTierTop ≤ topReward * book.periodAnchor.val

/-- What was paid is covered by the blocks up to a height. -/
def Covered (total : ℤ) (height : U64) : Prop := total * rewardBlocksTierTop ≤ topReward * height.val

theorem Covered.mono {total : ℤ} {height later : U64} (covered : Covered total height)
    (onward : height ≤ later) : Covered total later := by
  have onward := Word.le_def.mp onward
  unfold Covered at *
  rw [topReward_eq] at *
  omega

theorem anchored_paced {total : ℤ} {book : RewardBook} {bond : Bond} (paced : BookPaced total book)
    (raised : bond.raisedAtHeight ≤ book.periodAnchor ∨ Covered total bond.raisedAtHeight) :
    BookPaced total (anchored book bond) ∧
      bond.raisedAtHeight ≤ (anchored book bond).periodAnchor := by
  have larger := Word.val_max book.periodAnchor bond.raisedAtHeight
  unfold anchored
  dsimp only
  split
  next moves =>
    refine ⟨?_, Word.le_def.mpr ?_⟩
    · have ahead : ¬ bond.raisedAtHeight ≤ book.periodAnchor := by
        intro behind
        refine moves (Word.ext ?_)
        have behind := Word.le_def.mp behind
        omega
      have covered := raised.resolve_left ahead
      unfold BookPaced
      unfold Covered at covered
      rw [topReward_eq] at *
      unfold rewardBlocksTierTop at *
      rw [Word.val_zero]
      dsimp only
      omega
    · show bond.raisedAtHeight.val ≤ (max book.periodAnchor bond.raisedAtHeight).val
      omega
  next stays =>
    have same := congrArg Word.val (not_not.mp stays)
    refine ⟨paced, Word.le_def.mpr ?_⟩
    omega

/-- A payment is covered by the blocks up to its height, and so is all that was paid before. -/
theorem paidOut_paced {total : ℤ} {book : RewardBook} {height : U64} (nowDay : U64)
    (paced : BookPaced total book) (due : rewardDue book height ≠ 0) :
    BookPaced (total + (rewardDue book height).val)
        (paidOut book (rewardDue book height) nowDay height) ∧
      Covered (total + (rewardDue book height).val) height ∧
      book.periodAnchor ≤ (paidOut book (rewardDue book height) nowDay height).periodAnchor := by
  have rate := validatorReward_rate (height.satSub book.periodAnchor)
  have positive : 0 < (rewardDue book height).val := Nat.pos_of_ne_zero fun zero =>
    due (Word.eq_zero_iff.mpr zero)
  have earned : (rewardDue book height).val =
      (validatorReward (height.satSub book.periodAnchor)).val - book.paidInPeriod.val := by
    rw [rewardDue, Word.val_satSub]
  have sum := Word.val_satAdd book.paidInPeriod (rewardDue book height)
  have bound := (validatorReward (height.satSub book.periodAnchor)).bound
  rw [Word.val_satSub] at rate
  have covered : Covered (total + (rewardDue book height).val) height := by
    unfold Covered
    unfold BookPaced at paced
    rw [topReward_eq] at *
    unfold rewardBlocksTierTop at *
    omega
  refine ⟨?_, covered, ?_⟩
  · unfold paidOut
    dsimp only
    split
    · unfold BookPaced
      unfold Covered at covered
      simpa using covered
    · unfold BookPaced at *
      rw [topReward_eq] at *
      unfold rewardBlocksTierTop at *
      dsimp only
      omega
  · unfold paidOut
    dsimp only
    split
    · refine Word.le_def.mpr ?_
      rw [topReward_eq] at rate
      unfold rewardBlocksTierTop at rate
      dsimp only
      omega
    · exact Nat.le_refl _

/-! ## What does not disturb a validator -/

/-- A bond that was changed carries the height of the change, or that of genesis. -/
def Aged (height : U64) (id : Id) (before after : Ledger) : Prop :=
  ∀ bond, stakeBond after.get id = some bond →
    bond.raisedAtHeight = height ∨ bond.raisedAtHeight = 0 ∨
      ∃ old, stakeBond before.get id = some old ∧ bond.raisedAtHeight = old.raisedAtHeight

/-- At a height, the anchor and what was paid in the period stay as they are unless the validator is
banned, and a bond that was changed carries the height. -/
structure Undisturbed (height : U64) (id : Id) (before after : Ledger) : Prop where
  banned : isStakeBanned before.get id = true → isStakeBanned after.get id = true
  book : isStakeBanned after.get id = true ∨
    (stakeRewards after.get id).periodAnchor = (stakeRewards before.get id).periodAnchor ∧
      (stakeRewards after.get id).paidInPeriod = (stakeRewards before.get id).paidInPeriod
  bond : Aged height id before after

section Aged

variable {height : U64} {id : Id} {before middle after : Ledger}

theorem Aged.of_bond (same : stakeBond after.get id = stakeBond before.get id) :
    Aged height id before after :=
  fun bond found => .inr (.inr ⟨bond, same ▸ found, rfl⟩)

theorem Aged.trans (first : Aged height id before middle) (second : Aged height id middle after) :
    Aged height id before after := by
  intro bond found
  rcases second bond found with now | zero | ⟨old, foundOld, same⟩
  · exact .inl now
  · exact .inr (.inl zero)
  · rw [same]
    exact first old foundOld

theorem Aged.of_same (same : SameIn .stakes before after) : Aged height id before after :=
  .of_bond (congrArg Option.join (same (.stakeBond id) rfl))

end Aged

namespace Undisturbed

variable {height : U64} {id : Id} {before middle after ledger : Ledger}

/-- Where the books and the bans are the same. -/
theorem of_books (aged : Aged height id before after) (books : SameIn .books before after) :
    Undisturbed height id before after where
  banned there := by rwa [isStakeBanned, books _ rfl]
  book := .inr (by simp only [stakeRewards, books (.stakeRewards id) rfl, and_self])
  bond := aged

theorem of_same (stakes : SameIn .stakes before after) (books : SameIn .books before after) :
    Undisturbed height id before after :=
  .of_books (.of_same stakes) books

theorem trans (first : Undisturbed height id before middle)
    (second : Undisturbed height id middle after) : Undisturbed height id before after where
  banned there := second.banned (first.banned there)
  book := by
    rcases second.book with banned | ⟨anchor, paid⟩
    · exact .inl banned
    rcases first.book with banned | ⟨firstAnchor, firstPaid⟩
    · exact .inl (second.banned banned)
    · exact .inr ⟨anchor.trans firstAnchor, paid.trans firstPaid⟩
  bond := first.bond.trans second.bond

theorem writeBond (other : Id) {bond : Option Bond}
    (raised : ∀ written, bond = some written →
      written.raisedAtHeight = height ∨ written.raisedAtHeight = 0) :
    Undisturbed height id ledger (ledger.write (.stakeBond other) bond) where
  banned there := by rwa [isStakeBanned, get_write_ne _ (by simp)]
  book := .inr (by simp [stakeRewards])
  bond found foundAfter := by
    by_cases here : other = id
    · subst here
      rw [stakeBond, get_write_self] at foundAfter
      exact (raised found foundAfter).imp_right .inl
    · rw [stakeBond, get_write_ne _ (by simpa using here)] at foundAfter
      exact .inr (.inr ⟨found, foundAfter, rfl⟩)

theorem ban (other : Id) : Undisturbed height id ledger (ledger.write (.stakeBanned other) ()) where
  banned there := by
    by_cases here : other = id
    · subst here
      rw [isStakeBanned, get_write_self, Option.isSome_some]
    · rwa [isStakeBanned, get_write_ne _ (by simpa using here)]
  book := .inr (by simp [stakeRewards])
  bond := .of_bond (congrArg Option.join (get_write_ne _ (by simp)))

/-- The book of someone else, or of someone banned, or with its anchor and payments kept. -/
theorem writeBook (other : Id) {book : Option RewardBook}
    (keeps : other = id → isStakeBanned ledger.get other = true ∨
      (book.getD default).periodAnchor = (stakeRewards ledger.get other).periodAnchor ∧
        (book.getD default).paidInPeriod = (stakeRewards ledger.get other).paidInPeriod) :
    Undisturbed height id ledger (ledger.write (.stakeRewards other) book) where
  banned there := by rwa [isStakeBanned, get_write_ne _ (by simp)]
  book := by
    by_cases here : other = id
    · subst here
      rw [isStakeBanned, get_write_ne _ (by simp), stakeRewards, get_write_self]
      exact keeps rfl
    · rw [stakeRewards, get_write_ne _ (by simpa using here)]
      exact .inr ⟨rfl, rfl⟩
  bond := .of_bond (congrArg Option.join (get_write_ne _ (by simp)))

end Undisturbed

/-- The program does not disturb any validator, wherever it starts. -/
class Gentle {α : Type} (height : U64) (program : LedgerM α) : Prop where
  spares (ledger : Ledger) :
    Ensures ledger program fun _ after => ∀ id, Undisturbed height id ledger after

section Gentle

variable {α β : Type} {height : U64} {program : LedgerM α}

theorem Gentle.bind {next : α → LedgerM β} (first : Gentle height program)
    (rest : ∀ value, Gentle height (next value)) : Gentle height (program >>= next) :=
  ⟨fun ledger => (first.spares ledger).bind fun value middle undisturbed =>
    ((rest value).spares middle).mono fun _ _ later id => (undisturbed id).trans (later id)⟩

/-- Where neither stakes nor books are written, no one is disturbed. -/
instance gentle_confined [confined : Confined [.other] program] : Gentle height program := by
  constructor
  intro ledger
  have stakes : Region.stakes ∉ [Region.other] := by decide
  have books : Region.books ∉ [Region.other] := by decide
  exact ((confined.same ledger stakes).and (confined.same ledger books)).mono
    fun _ _ same _ => .of_same same.1 same.2

/-- Where the totals of the stake are written and no bond. -/
theorem gentle_totals [confined : Confined [.other, .stakes] program]
    (bonds : ∀ ledger : Ledger, Ensures ledger program fun _ after =>
      ∀ id, stakeBond after.get id = stakeBond ledger.get id) : Gentle height program := by
  constructor
  intro ledger
  have books : Region.books ∉ [Region.other, .stakes] := by decide
  exact ((bonds ledger).and (confined.same ledger books)).mono
    fun _ _ same id => .of_books (.of_bond (same.1 id)) same.2

theorem setStakeBond_gentle {other : Id} {bond : Bond}
    (raised : bond.raisedAtHeight = height ∨ bond.raisedAtHeight = 0) :
    Gentle height (setStakeBond other bond) :=
  ⟨fun _ => ensures_put.mpr fun _ => .writeBond other fun written same => by
    obtain rfl := Option.some.inj same
    exact raised⟩

instance (other : Id) : Gentle height (clearStakeBond other) :=
  ⟨fun _ => ensures_put.mpr fun _ => .writeBond other fun _ same => by cases same⟩

end Gentle

/-! ## Operations on bonds -/

section Bonds

variable {height : U64} (context : Context) (address : Text) (amount fee day : U64)

instance : Gentle height (debitStaked amount) := gentle_totals fun _ => debitStaked_bonds amount

instance : Gentle height (creditStaked context amount) :=
  gentle_totals fun _ => creditStaked_bonds amount

instance (bondedAtDay : U64) :
    Gentle height (seedValidatorBondAt context address amount bondedAtDay) := by
  unfold seedValidatorBondAt
  repeat' first
    | infer_instance | split | refine .bind ?_ fun _ => ?_ | exact setStakeBond_gentle (.inr rfl)

instance : Gentle context.executionHeight (bond context address amount day) := by
  unfold bond
  repeat' first
    | infer_instance | dsimp only | split | refine .bind ?_ fun _ => ?_
    | exact setStakeBond_gentle (.inl rfl) | exact @gentle_confined _ _ _ confined_put

instance : Gentle context.executionHeight (requestStakeExit context address day) := by
  unfold requestStakeExit
  repeat' first | infer_instance | split | refine .bind ?_ fun _ => ?_
  next exited granted =>
  refine setStakeBond_gentle (.inl ?_)
  unfold Bond.requestExitAt at granted
  split at granted
  · cases granted
  · obtain rfl := Option.some.inj granted
    rfl

instance : Gentle height (withdrawStake address day) := by
  unfold withdrawStake
  repeat' first
    | infer_instance | split | refine .bind ?_ fun _ => ?_
    | exact @gentle_confined _ _ _ confined_put | exact @gentle_confined _ _ _ (confined_emit _)

instance : Gentle height (claimReward address day) := by
  constructor
  intro ledger
  unfold claimReward
  split
  swap
  · exact Gentle.spares ledger
  next other _ =>
  rw [ensures_bind, ensures_leaves]
  split
  · exact Gentle.spares ledger
  dsimp only
  rw [ensures_bind, ensures_expect]
  intro credited _
  split
  · exact Gentle.spares ledger
  rw [setStakeRewards, ensures_bind, ensures_put]
  have paid : Confined [.other] (do
      let state ← leaves
      let account := state.account address
      setAccount address { account with balance := account.balance.satAdd credited }
      emitSide (.rewardClaim address credited)
      return credited) := by
    repeat' first | infer_instance | refine .bind ?_ fun _ => ?_ | exact confined_put
  refine (gentle_confined.spares _).mono fun _ _ later id =>
    .trans (.writeBook other fun _ => .inr ?_) (later id)
  exact ⟨rfl, rfl⟩

instance (other : Id) (bond : Bond) : Gentle height (burnBond address other bond) := by
  unfold burnBond
  repeat' first
    | infer_instance | refine .bind ?_ fun _ => ?_ | exact @gentle_confined _ _ _ (confined_emit _)

instance (source : Id) (remaining : U64) : Gentle height (seizeBond source remaining) := by
  unfold seizeBond
  repeat' first | infer_instance | dsimp only | split | refine .bind ?_ fun _ => ?_

/-- In the middle of a slash: someone is banned, and no one is disturbed. -/
structure Slashing (height : U64) (other : Id) (before ledger : Ledger) : Prop where
  undisturbed : ∀ id, Undisturbed height id before ledger
  banned : isStakeBanned ledger.get other = true

section Slashing

variable {before ledger : Ledger} {other : Id} {α β : Type}

theorem slashing_ban (height : U64) (ledger : Ledger) (other : Id) :
    Slashing height other ledger (ledger.write (.stakeBanned other) ()) where
  undisturbed _ := .ban other
  banned := by rw [isStakeBanned, get_write_self, Option.isSome_some]

theorem Slashing.bind (slashing : Slashing height other before ledger) {program : LedgerM α}
    {next : α → LedgerM β} {post : β → Ledger → Prop} [gentle : Gentle height program]
    (rest : ∀ value middle, Slashing height other before middle → Ensures middle (next value) post) :
    Ensures ledger (program >>= next) post :=
  (gentle.spares ledger).bind fun value middle later => rest value middle
    ⟨fun id => (slashing.undisturbed id).trans (later id), (later other).banned slashing.banned⟩

/-- What someone banned has not claimed is forfeited. -/
theorem Slashing.forfeit (slashing : Slashing height other before ledger) (value : α) :
    Ensures ledger (do
      clearStakeRewards other
      return value) fun _ after => ∀ id, Undisturbed height id before after := by
  rw [clearStakeRewards, ensures_bind, ensures_put, ensures_pure]
  exact fun id => (slashing.undisturbed id).trans (.writeBook other fun _ => .inl slashing.banned)

end Slashing

instance : Gentle height (slashValidator address) := by
  constructor
  intro ledger
  unfold slashValidator
  split
  swap
  · exact Gentle.spares ledger
  next other _ =>
  rw [ensures_bind, ensures_leaves]
  split
  · exact Gentle.spares ledger
  rw [setStakeBanned, ensures_bind, ensures_put]
  have forfeits : ∀ middle, Slashing height other ledger middle → Ensures middle (do
      let forfeited ← expect (stakeRewardsOutstanding ledger.get other)
      debitSupply forfeited
      clearStakeRewards other
      return true) fun _ after => ∀ id, Undisturbed height id ledger after :=
    fun middle slashing => slashing.bind fun _ _ slashing =>
      slashing.bind fun _ _ slashing => slashing.forfeit true
  have slashing := slashing_ban height ledger other
  split
  · exact slashing.bind fun _ => forfeits
  · exact forfeits _ slashing

instance (fault : Fault) : Gentle height (slashStake address fault) := by
  unfold slashStake
  split
  swap
  · infer_instance
  next other _ =>
  have treasury : ∀ value, Gentle height (setStakeTreasury value) := fun _ =>
    @gentle_confined _ _ _ confined_put
  have closing : ∀ taken, Gentle height (do
      setStakeBanned other
      let state ← leaves
      let forfeited ← expect (state.stakeRewardsOutstanding other)
      if forfeited ≠ 0 then setStakeTreasury (state.stakeTreasury.satAdd forfeited)
      clearStakeRewards other
      return taken : LedgerM U64) := by
    intro taken
    constructor
    intro ledger
    rw [setStakeBanned, ensures_bind, ensures_put]
    refine (slashing_ban height ledger other).bind fun _ _ slashing => ?_
    refine slashing.bind fun _ _ slashing => ?_
    split
    · exact slashing.bind fun _ _ slashing => slashing.forfeit taken
    · exact slashing.forfeit taken
  repeat' first
    | exact closing _ | infer_instance | split | refine .bind ?_ fun _ => ?_
    | exact @gentle_confined _ _ _ (confined_emit _)

variable [Platform]

instance : Gentle height (claimWithFee context address fee day) := by
  unfold claimWithFee
  repeat' first
    | infer_instance | dsimp only | split | refine .bind ?_ fun _ => ?_
    | exact @gentle_confined _ _ _ confined_put

instance : Gentle context.executionHeight (requestExitWithFee context address fee day) := by
  unfold requestExitWithFee
  repeat' first
    | infer_instance | dsimp only | split | refine .bind ?_ fun _ => ?_
    | exact @gentle_confined _ _ _ confined_put

instance : Gentle height (withdrawWithFee context address fee day) := by
  unfold withdrawWithFee
  repeat' first
    | infer_instance | dsimp only | split | refine .bind ?_ fun _ => ?_
    | exact @gentle_confined _ _ _ confined_put

instance : Gentle context.executionHeight (bondWithFee context address amount fee day) := by
  unfold bondWithFee
  repeat' first
    | infer_instance | dsimp only | split | refine .bind ?_ fun _ => ?_
    | exact setStakeBond_gentle (.inl rfl) | exact @gentle_confined _ _ _ confined_put
    | exact @gentle_confined _ _ _ (confined_emit _)

/-- Whether an operation settles a session. -/
def Operation.settles {α : Type} : Operation α → Bool
  | .settleSession _ => true
  | _ => false

/-- An enacted action disturbs no one: a recovery drops the bonds that it seizes, and no other step
of an enactment writes a bond or a book. -/
theorem govEnact_undisturbed {before after : Ledger} {referendumId now chainId : U64}
    {result : Enactment}
    (ran : (govEnact context referendumId now chainId).plain before = (some result, after))
    (books : SameIn .books before after) (id : Id) : Undisturbed height id before after := by
  rcases govEnact_within .stakes ran (by decide) with
    ⟨_, same⟩ | ⟨_, action, concluded, executed, _, sameBefore, executes, sameAfter⟩
  · exact .of_same same books
  have outside : Region.stakes ∉ [Region.other, .freezes] := by decide
  have votes : Region.stakes ∉ [Region.votes] := by decide
  have seizes : ∀ {ledger : Ledger} source remaining, Aged height id before ledger →
      Ensures ledger (seizeBond source remaining) fun _ after => Aged height id before after := by
    intro ledger source remaining held
    exact (Gentle.spares ledger).mono fun _ after later => held.trans (later id).bond
  have done := (executeAction_keeps outside (fun held same => held.trans (.of_same same)) seizes
    (fun _ _ held => (Confined.same _ votes).mono fun _ _ same => held.trans (.of_same same))
    (.of_same sameBefore) action now chainId).ended executes
  exact .of_books (done.trans (.of_same sameAfter)) books

/-- Only the end of a session disturbs a validator. The operations on bonds and rewards are gentle
step by step, a recovery only drops bonds, and everything else writes neither bonds nor books. -/
theorem Transition.undisturbed (next : Transition) (unpaid : next.operation.settles = false)
    (id : Id) :
    Undisturbed next.moment.context.executionHeight id next.before next.after := by
  by_cases apart : .stakes ∉ next.operation.regions ∧ .books ∉ next.operation.regions
  · exact .of_same (next.same apart.1) (next.same apart.2)
  obtain ⟨moment, operation, result, before, after, ran⟩ := next
  cases operation
  case govEnact referendumId chainId =>
    have books : Region.books ∉ (Operation.govEnact referendumId chainId).regions := by
      simp [Operation.regions]
    exact govEnact_undisturbed _ ran (((Operation.confined _ moment).same before books).ended ran) id
  case settleSession => cases unpaid
  all_goals
    dsimp only [Operation.program] at ran ⊢
    first
      | exact (Gentle.spares before).ended ran id
      | exact absurd ⟨by simp [Operation.regions], by simp [Operation.regions]⟩ apart

end Bonds

/-! ## Payments -/

/-- A validator was paid a total by a height: the total is covered, and as long as the validator is
not banned, its book is paced and its bond was last changed before the anchor or after all
payments. -/
structure Paced (id : Id) (total : ℤ) (height : U64) (ledger : Ledger) : Prop where
  covered : Covered total height
  book : isStakeBanned ledger.get id = false → BookPaced total (stakeRewards ledger.get id)
  bond : isStakeBanned ledger.get id = false →
    ∀ bond, stakeBond ledger.get id = some bond →
      bond.raisedAtHeight ≤ (stakeRewards ledger.get id).periodAnchor ∨
        Covered total bond.raisedAtHeight

/-- Nothing has been paid yet, whatever the books say. -/
theorem paced_start (id : Id) (height : U64) (ledger : Ledger) : Paced id 0 height ledger where
  covered := by
    unfold Covered
    rw [topReward_eq]
    omega
  book _ := by
    unfold BookPaced
    rw [topReward_eq]
    unfold rewardBlocksTierTop
    omega
  bond _ bond _ := by
    right
    unfold Covered
    rw [topReward_eq]
    omega

/-- What a call of `accrueRewardById` has done that returned an amount. Besides the book of the
validator, the pool and the supply nothing has changed. The amount was taken out of the pool, what
the pool did not have was issued, and the book of a validator that takes part is the anchored one
with the amount that was due paid out of it. -/
structure Accrued (context : Context) (nowDay : U64) (id : Id) (before : Ledger) (paid : U64)
    (after : Ledger) : Prop where
  others : ∀ key : LeafKey, key ≠ .stakeRewards id → key ≠ .stakePool → key ≠ .supply →
    after.get key = before.get key
  pool : stakePool after.get = (stakePool before.get).satSub paid
  supply : totalSupply after.get =
    (totalSupply before.get).satAdd (paid.satSub (stakePool before.get))
  book : earner before.get context id nowDay = none ∧ paid = 0 ∧
      stakeRewards after.get id = stakeRewards before.get id ∨
    ∃ bond, earner before.get context id nowDay = some bond ∧
      paid = rewardDue (anchored (stakeRewards before.get id) bond) context.executionHeight ∧
      stakeRewards after.get id = if paid = 0 then anchored (stakeRewards before.get id) bond
        else paidOut (anchored (stakeRewards before.get id) bond) paid nowDay context.executionHeight

section Payments

variable {id : Id} {total : ℤ} {height : U64} {before after ledger : Ledger}

theorem Paced.undisturbed {later : U64} (paced : Paced id total height before)
    (onward : height ≤ later) (undisturbed : Undisturbed later id before after) :
    Paced id total later after := by
  have covered := paced.covered.mono onward
  have stood : isStakeBanned after.get id = false →
      isStakeBanned before.get id = false := by
    intro free
    cases there : isStakeBanned before.get id with
    | false => rfl
    | true => rw [undisturbed.banned there] at free; cases free
  have kept : isStakeBanned after.get id = false → _ := fun free =>
    undisturbed.book.resolve_left (by rw [free]; exact Bool.false_ne_true)
  refine ⟨covered, fun free => ?_, fun free bond found => ?_⟩
  · have book := paced.book (stood free)
    unfold BookPaced at book ⊢
    rwa [(kept free).1, (kept free).2]
  · rw [(kept free).1]
    rcases undisturbed.bond bond found with now | zero | ⟨old, foundOld, same⟩
    · rw [now]
      exact .inr covered
    · rw [zero, Word.le_def, Word.val_zero]
      exact .inl (Nat.zero_le _)
    · rw [same]
      exact paced.bond (stood free) old foundOld

theorem creditSupply_returns (amount : U64) :
    Returns ledger (creditSupply amount) fun _ after =>
      totalSupply after.get = (totalSupply ledger.get).satAdd amount ∧
        ∀ key : LeafKey, key ≠ .supply → after.get key = ledger.get key := by
  unfold creditSupply
  split
  next zero => simp [zero, Word.satAdd_zero]
  next =>
    simp only [setTotalSupply, returns_bind, returns_leaves, returns_put]
    exact ⟨by simp [totalSupply], fun key apart => get_write_ne _ apart.symm⟩

theorem bookReward_returns (context : Context) (nowDay : U64) (book : RewardBook)
    (paid fromPool : U64) :
    Returns ledger (bookReward context nowDay id book paid fromPool) fun _ after =>
      totalSupply after.get = (totalSupply ledger.get).satAdd (paid.satSub fromPool) ∧
        stakeRewards after.get id = paidOut book paid nowDay context.executionHeight ∧
        ∀ key : LeafKey, key ≠ .stakeRewards id → key ≠ .supply → after.get key = ledger.get key := by
  unfold bookReward
  refine (creditSupply_returns _).bind ?_
  rintro _ issued ⟨supply, same⟩
  simp only [setStakeRewards, recordRewardEvent, recordAmountEvent, recordNativeEvent, returns_bind,
    returns_put, returns_emit, returns_emitSide]
  refine ⟨?_, ?_, ?_⟩
  · rw [← supply]
    simp [totalSupply]
  · simp [stakeRewards]
  · intro key noBook noSupply
    rw [get_pushSide, get_push, get_write_ne _ (Ne.symm noBook), same key noSupply]

theorem earner_spec {state : Leaves} {context : Context} {nowDay : U64} {bond : Bond}
    (earns : state.earner context id nowDay = some bond) :
    state.isStakeBanned id = false ∧ state.stakeBond id = some bond := by
  unfold Leaves.earner at earns
  split at earns
  · cases earns
  next free =>
    simp only [Bool.or_eq_true, not_or, Bool.not_eq_true] at free
    cases found : state.stakeBond id with
    | none => simp [found] at earns
    | some current =>
      rw [found] at earns
      dsimp only at earns
      split at earns
      · cases earns
      · exact ⟨free.1.2, earns⟩

/-- A payment never panics, and what it returns is what it has booked. -/
theorem accrueRewardById_returns (context : Context) (nowDay : U64) :
    Returns ledger (accrueRewardById context nowDay id) (Accrued context nowDay id ledger) := by
  unfold accrueRewardById
  rw [returns_bind, returns_leaves]
  cases earned : earner ledger.get context id nowDay with
  | none =>
    rw [returns_pure]
    refine ⟨fun _ _ _ _ => rfl, (Word.satSub_zero _).symm, ?_, .inl ⟨earned, rfl, rfl⟩⟩
    rw [Word.zero_satSub, Word.satAdd_zero]
  | some bond =>
  dsimp only
  split
  next nothing =>
    rw [setStakeRewards, returns_bind, returns_put, returns_pure]
    refine ⟨fun key noBook _ _ => get_write_ne _ noBook.symm, ?_, ?_,
      .inr ⟨bond, earned, nothing.symm, ?_⟩⟩
    · simp [stakePool, Word.satSub_zero]
    · simp [totalSupply, Word.zero_satSub, Word.satAdd_zero]
    · rw [if_pos rfl, stakeRewards, get_write_self]
      rfl
  next due =>
  generalize paying : rewardDue (anchored (stakeRewards ledger.get id) bond)
    context.executionHeight = paid at due ⊢
  have drawn : (stakePool ledger.get).satSub (min paid (stakePool ledger.get)) =
      (stakePool ledger.get).satSub paid := by
    ext
    simp only [Word.val_satSub, Word.val_min]
    omega
  have rest : paid.satSub (min paid (stakePool ledger.get)) =
      paid.satSub (stakePool ledger.get) := by
    ext
    simp only [Word.val_satSub, Word.val_min]
    omega
  -- Whether or not there was anything to draw, what follows finds the pool without the payment.
  have booked : ∀ middle : Ledger, stakePool middle.get = (stakePool ledger.get).satSub paid →
      (∀ key : LeafKey, key ≠ .stakePool → middle.get key = ledger.get key) →
      Returns middle (do
        bookReward context nowDay id (anchored (stakeRewards ledger.get id) bond) paid
          (min paid (stakePool ledger.get))
        return paid) (Accrued context nowDay id ledger) := by
    intro middle pool same
    refine (bookReward_returns context nowDay _ paid _).bind ?_
    rintro _ after ⟨supply, book, others⟩
    rw [returns_pure]
    refine ⟨fun key noBook noPool noSupply => (others key noBook noSupply).trans (same key noPool),
      ?_, ?_, .inr ⟨bond, earned, paying.symm, ?_⟩⟩
    · rw [stakePool, others _ (by simp) (by simp), ← pool]
      rfl
    · rw [supply, rest, totalSupply, same _ (by simp)]
      rfl
    · rw [if_neg due]
      exact book
  split
  next =>
    rw [setStakePool, returns_bind, returns_put, drawn]
    exact booked _ (by simp [stakePool]) fun key apart => get_write_ne _ apart.symm
  next none =>
    refine booked _ ?_ fun _ _ => rfl
    rw [← drawn, not_not.mp none, Word.satSub_zero]

namespace Accrued

variable {context : Context} {nowDay paid : U64}
variable (accrued : Accrued context nowDay id before paid after)

include accrued

/-- No bond and no ban is written. -/
theorem stands (other : Id) : isStakeBanned after.get other = isStakeBanned before.get other ∧
    stakeBond after.get other = stakeBond before.get other :=
  ⟨congrArg Option.isSome (accrued.others _ (by simp) (by simp) (by simp)),
    congrArg Option.join (accrued.others _ (by simp) (by simp) (by simp))⟩

/-- The books of others stay as they are. -/
theorem others_book {other : Id} (apart : other ≠ id) :
    stakeRewards after.get other = stakeRewards before.get other := by
  rw [stakeRewards, accrued.others _ (by simpa using apart) (by simp) (by simp)]
  rfl

theorem undisturbed {other : Id}
    (same : stakeRewards after.get other = stakeRewards before.get other) :
    Undisturbed height other before after where
  banned there := (accrued.stands other).1.trans there
  book := .inr (by simp only [same, and_self])
  bond := .of_bond (accrued.stands other).2

/-- A payment is a new tranche. -/
theorem tranches : (stakeRewards after.get id).tranches = (stakeRewards before.get id).tranches ++
    if paid = 0 then [] else [⟨nowDay, paid, 0⟩] := by
  have moved : ∀ bond, (anchored (stakeRewards before.get id) bond).tranches =
      (stakeRewards before.get id).tranches := by
    intro bond
    unfold anchored
    dsimp only
    split <;> rfl
  rcases accrued.book with ⟨_, nothing, same⟩ | ⟨bond, _, _, book⟩
  · rw [same, if_pos nothing, List.append_nil]
  · rw [book]
    split
    next => rw [moved, List.append_nil]
    next =>
      unfold paidOut
      dsimp only
      split <;> rw [moved]

/-- A validator that is paid what is due stays within the rate. -/
theorem paced (paced : Paced id total context.executionHeight before) :
    Paced id (total + paid.val) context.executionHeight after := by
  rcases accrued.book with ⟨_, nothing, same⟩ | ⟨bond, earned, due, written⟩
  · rw [nothing, Word.val_zero, Nat.cast_zero, add_zero]
    exact paced.undisturbed (Nat.le_refl _) (accrued.undisturbed same)
  obtain ⟨free, found⟩ := earner_spec earned
  obtain ⟨book, raised⟩ := anchored_paced (paced.book free) (paced.bond free bond found)
  have reached : ∀ next, stakeRewards after.get id = next → Covered (total + paid.val)
      context.executionHeight → BookPaced (total + paid.val) next →
      bond.raisedAtHeight ≤ next.periodAnchor →
      Paced id (total + paid.val) context.executionHeight after := by
    rintro _ rfl covered paced raised
    refine ⟨covered, fun _ => paced, fun _ current still => .inl ?_⟩
    obtain rfl : bond = current :=
      Option.some.inj (found.symm.trans ((accrued.stands id).2.symm.trans still))
    exact raised
  split at written
  next nothing =>
    rw [nothing, Word.val_zero, Nat.cast_zero, add_zero] at reached ⊢
    exact reached _ written paced.covered book raised
  next some =>
    rw [due] at some written ⊢ reached
    obtain ⟨paidBook, covered, onward⟩ := paidOut_paced nowDay book some
    exact reached _ written covered paidBook (Nat.le_trans raised onward)

end Accrued

/-! ## Sessions -/

/-- What a list of payments pays to a validator. -/
def paidTo (id : Id) (payments : List (Id × U64)) : Nat :=
  ((payments.filter fun payment => payment.1 == id).map fun payment => payment.2.val).sum

/-- What a list of payments pays. -/
def paidInAll (payments : List (Id × U64)) : Nat := (payments.map fun payment => payment.2.val).sum

/-- The tranches that the payments to a validator add to its book. -/
def tranchesOf (nowDay : U64) (id : Id) (payments : List (Id × U64)) : List RewardTranche :=
  (payments.filter fun payment => payment.1 == id && payment.2 != 0).map
    fun payment => ⟨nowDay, payment.2, 0⟩

/-- The payments of a day are booked: each of them is a tranche, and together they are taken out of
the pool as far as it lasts and issued from there on. -/
structure Booked (nowDay : U64) (payments : List (Id × U64)) (before after : Ledger) : Prop where
  tranches : ∀ id, (stakeRewards after.get id).tranches =
    (stakeRewards before.get id).tranches ++ tranchesOf nowDay id payments
  pool : (stakePool after.get).val = (stakePool before.get).val - paidInAll payments
  supply : (totalSupply after.get).val =
    min ((totalSupply before.get).val + (paidInAll payments - (stakePool before.get).val))
      (2 ^ 64 - 1)

theorem booked_nil {nowDay : U64} (books : ∀ id, stakeRewards after.get id = stakeRewards before.get id)
    (pool : stakePool after.get = stakePool before.get)
    (supply : totalSupply after.get = totalSupply before.get) : Booked nowDay [] before after where
  tranches id := by simp [tranchesOf, books id]
  pool := by simp [paidInAll, pool]
  supply := by
    have bound := (totalSupply before.get).bound
    simp only [paidInAll, List.map_nil, List.sum_nil, supply]
    omega

/-- One more payment before those of a list. -/
theorem Accrued.booked {context : Context} {nowDay paid : U64} {middle : Ledger}
    {payments : List (Id × U64)} (accrued : Accrued context nowDay id before paid middle)
    (booked : Booked nowDay payments middle after) :
    Booked nowDay ((id, paid) :: payments) before after where
  tranches other := by
    rw [booked.tranches]
    by_cases here : other = id
    · subst here
      rw [accrued.tranches, List.append_assoc]
      by_cases nothing : paid = 0 <;> simp [tranchesOf, nothing]
    · rw [accrued.others_book here]
      simp [tranchesOf, Ne.symm here]
  pool := by
    rw [booked.pool, accrued.pool, Word.val_satSub]
    simp only [paidInAll, List.map_cons, List.sum_cons]
    omega
  supply := by
    rw [booked.supply, accrued.supply, accrued.pool, Word.val_satAdd, Word.val_satSub,
      Word.val_satSub]
    simp only [paidInAll, List.map_cons, List.sum_cons]
    omega

/-- Validators are paid in turn. Whatever one of them was paid before, it stays within the rate. -/
theorem accrueEach_spec (context : Context) (nowDay : U64) (ids : List Id) :
    Returns ledger (accrueEach context nowDay ids) fun payments after =>
      Booked nowDay payments ledger after ∧
      ∀ (id : Id) (total : ℤ), Paced id total context.executionHeight ledger →
        Paced id (total + paidTo id payments) context.executionHeight after := by
  induction ids generalizing ledger with
  | nil =>
    refine returns_pure.mpr ⟨booked_nil (fun _ => rfl) rfl rfl, fun id total paced => ?_⟩
    simpa [paidTo] using paced
  | cons first rest hypothesis =>
    refine (accrueRewardById_returns context nowDay).bind fun paid middle accrued => ?_
    refine hypothesis.bind fun payments after rested => ?_
    refine returns_pure.mpr ⟨accrued.booked rested.1, fun id total paced => ?_⟩
    by_cases here : first = id
    · subst here
      have later := rested.2 first _ (accrued.paced paced)
      rw [add_assoc] at later
      simpa [paidTo] using later
    · have still := paced.undisturbed (Nat.le_refl _)
        (accrued.undisturbed (accrued.others_book (Ne.symm here)))
      simpa [paidTo, here] using rested.2 id total still

/-- The end of a block pays nothing, or the validators in turn. -/
theorem settlePayments_spec (context : Context) (nowDay transactions : U64) :
    Ensures ledger (settlePayments context nowDay transactions) fun payments after =>
      Booked nowDay payments ledger after ∧
      ∀ (id : Id) (total : ℤ), Paced id total context.executionHeight ledger →
        Paced id (total + paidTo id payments) context.executionHeight after := by
  unfold settlePayments recordSession
  simp only [ensures_bind, ensures_leaves]
  split
  · refine ensures_pure.mpr ⟨booked_nil (fun _ => rfl) rfl rfl, fun id total paced => ?_⟩
    simpa [paidTo] using paced
  simp only [setSessionMeter, ensures_bind, ensures_leaves, ensures_put, ensures_pure]
  generalize (SessionMeter.close _ nowDay).2 = meter
  have metered : ∀ {id : Id} {total : ℤ}, Paced id total context.executionHeight ledger →
      Paced id total context.executionHeight (ledger.write .stakeMeter meter) := fun paced =>
    paced.undisturbed (Nat.le_refl _) (.of_same
      (fun key inside => get_write_ne _ (by rintro rfl; cases inside))
      fun key inside => get_write_ne _ (by rintro rfl; cases inside))
  split
  · refine ensures_pure.mpr ⟨booked_nil ?_ ?_ ?_, fun id total paced => ?_⟩
    · simp [stakeRewards]
    · simp [stakePool]
    · simp [totalSupply]
    · simpa [paidTo] using metered paced
  simp only [ensures_bind, ensures_leaves, ensures_expect]
  intro _ _
  refine (accrueEach_spec context nowDay _).ensures.mono fun payments after spec => ⟨?_, ?_⟩
  · obtain ⟨tranches, pool, supply⟩ := spec.1
    exact ⟨by simpa [stakeRewards] using tranches, by simpa [stakePool] using pool,
      by simpa [stakePool, totalSupply] using supply⟩
  · exact fun id total paced => spec.2 id total (metered paced)

end Payments

/-! ## Along a run -/

section Runs

variable [Platform]

/-- What an operation returns as its payments. Only the end of a session pays. -/
def Operation.payments {α : Type} : Operation α → α → List (Id × U64)
  | .settleSession _, payments => payments
  | _, _ => []

def Transition.payments (next : Transition) : List (Id × U64) := next.operation.payments next.result

/-- What the transitions of a run have paid to a validator. -/
def rewardsTo (id : Id) (trace : List Transition) : Nat :=
  (trace.map fun next => paidTo id next.payments).sum

theorem Transition.settled (next : Transition) (settles : next.operation.settles = true) :
    Booked next.moment.day next.payments next.before next.after ∧
      ∀ (id : Id) (total : ℤ), Paced id total next.moment.context.executionHeight next.before →
        Paced id (total + paidTo id next.payments) next.moment.context.executionHeight
          next.after := by
  obtain ⟨moment, operation, result, before, after, ran⟩ := next
  cases operation with
  | settleSession transactions => exact (settlePayments_spec _ _ transactions).ended ran
  | _ => cases settles

theorem Transition.paced (next : Transition) {id : Id} {total : ℤ} {height : U64}
    (paced : Paced id total height next.before)
    (onward : height ≤ next.moment.context.executionHeight) :
    Paced id (total + paidTo id next.payments) next.moment.context.executionHeight
      next.after := by
  cases settles : next.operation.settles with
  | true =>
    exact (next.settled settles).2 id total
      (paced.undisturbed onward (.of_same (.refl _ _) (.refl _ _)))
  | false =>
    have nothing : next.payments = [] := by
      obtain ⟨moment, operation, result, before, after, ran⟩ := next
      cases operation with
      | settleSession => cases settles
      | _ => rfl
    simpa [nothing, paidTo] using paced.undisturbed onward (next.undisturbed settles id)

/-- Along a run at heights that do not decrease, every validator stays within the rate. -/
theorem Run.paced {start finish : Ledger} {trace : List Transition} (run : Run start trace finish)
    (ordered : trace.Pairwise fun earlier later =>
      earlier.moment.context.executionHeight ≤ later.moment.context.executionHeight)
    (id : Id) {height : U64}
    (onward : ∀ next ∈ trace, next.moment.context.executionHeight ≤ height) :
    Paced id (rewardsTo id trace) height finish := by
  induction run generalizing height with
  | nil => exact paced_start id height start
  | @step trace _ earlier next continues hypothesis =>
    subst continues
    obtain ⟨orderedBefore, _, orderedLast⟩ := List.pairwise_append.mp ordered
    have paced := next.paced (hypothesis orderedBefore fun past among =>
      orderedLast past among next List.mem_cons_self) (Nat.le_refl _)
    have last : next ∈ trace ++ [next] := List.mem_append_right _ List.mem_cons_self
    have reached := paced.undisturbed (onward next last) (.of_same (.refl _ _) (.refl _ _))
    simpa [rewardsTo] using reached
  | drain earlier drained same hypothesis =>
    exact (hypothesis ordered onward).undisturbed (Nat.le_refl _)
      (.of_same (.of_get same) (.of_get same))

/-- However bonds are raised, left, slashed, seized and made anew, and whenever sessions are settled
and rewards claimed, no validator is paid more than the rate of the top tier for the blocks so far.
What is counted is what the payments at the ends of sessions return, and that is what they book as
tranches, draw from the pool and issue. A payment moves an anchor only past the blocks that it pays
for, and a changed bond carries the height of the change, so no block is paid for twice. -/
theorem rewards_within_top_rate {start finish : Ledger} {trace : List Transition}
    (run : Run start trace finish)
    (ordered : trace.Pairwise fun earlier later =>
      earlier.moment.context.executionHeight ≤ later.moment.context.executionHeight)
    (validator : Id) (height : U64)
    (onward : ∀ next ∈ trace, next.moment.context.executionHeight ≤ height) :
    rewardsTo validator trace * rewardBlocksTierTop ≤
        (rewardUsdToQuon rewardUsdTierTop).val * height.val ∧
      ∀ next ∈ trace, next.operation.settles = true →
        Booked next.moment.day next.payments next.before next.after := by
  have covered := (run.paced ordered validator onward).covered
  unfold Covered topReward at covered
  exact ⟨by exact_mod_cast covered, fun next _ settles => (next.settled settles).1⟩

end Runs

/-- A ledger long after the start of the network, with one bond and no rewards. -/
def unpaidLedger : Ledger :=
  ((emptyLedger.write .stakeMainnet 0).write .stakeValidators [holder]).write (.stakeBond holder)
    (some ⟨2000000000, 0, none, 2000000000, 0⟩)

/-- A session that is settled at the end of a whole period pays the whole rate. -/
theorem rewards_within_top_rate_settled :
    letI := Platform.blank
    ∃ settled : Transition, Run unpaidLedger [settled] settled.after ∧
      rewardsTo holder [settled] = 33333333 ∧
      33333333 * rewardBlocksTierTop ≤
        (rewardUsdToQuon rewardUsdTierTop).val * (250000000 : U64).val := by
  let := Platform.blank
  let settled : Transition := .take ⟨⟨none, 250000000, 10, []⟩, 34560000⟩ (.settleSession 0)
    unpaidLedger [(holder, 33333333)] (by decide +kernel)
  have run : Run unpaidLedger [settled] settled.after := .step .nil settled rfl
  have paid : rewardsTo holder [settled] = 33333333 := by decide +kernel
  have bound := rewards_within_top_rate run (List.pairwise_singleton _ _) holder 250000000
    fun next among => by
      rw [List.mem_singleton.mp among]
      exact Nat.le_refl _
  rw [paid] at bound
  exact ⟨settled, run, paid, bound.1⟩

end QuantovaChain.Ledger
