import QuantovaChain.Ledger.Freeze

/-!
# Bonds and rewards

Validators bond part of their balance, leave after a notice and withdraw after the unbonding time.
Rewards accrue in tranches when a session closes, out of the pool first and then as new supply, and
each tranche is claimed whole once it has vested. Evidence burns the bond and what is not claimed.
-/

namespace QuantovaChain.Ledger

open Idfmt (Text)
open Governance (Id Lock)
open Staking
open Transaction.Program (put emitSide expect each)

namespace Leaves

variable (state : Leaves)

def stakeMainnetStart : U64 := (state .stakeMainnet).getD (Word.top 64)

def sessionMeter : SessionMeter := (state .stakeMeter).getD (.new 0)

def stakeRewards (id : Id) : RewardBook := ((state (.stakeRewards id)).join).getD default

/-- What is accrued and not claimed. A sum past the largest word has no value. -/
def stakeRewardsOutstanding (id : Id) : Option U64 :=
  (state.stakeRewards id).tranches.foldlM
    (fun sum tranche => sum.checkedAdd (tranche.amount.satSub tranche.claimed)) 0

/-- The weight of the validators that may earn. A sum past the largest word has no value. -/
def rosterRewardDenominator (context : Context) : Option U64 :=
  (state.validatorIds.filter fun id => !state.isStakeBanned id && !state.isGovBlacklisted id).foldlM
    (fun sum id =>
      match state.stakeBond id with
      | some bond =>
        sum.checkedAdd (bond.weightInEpoch context.currentEpoch context.heightsPerEpoch)
      | none => some sum) 0

def govLock (voter : Id) : Option Lock := (state (.govLock voter)).join

def exitVoteLocked (id : Id) (nowDay : U64) : Bool :=
  (state.govLock id).any fun lock =>
    0 < lock.amount.val && decide (nowDay.satMul 86400 < lock.untilTime)

def stakePayee (id : Id) : Option Id := state (.stakePayee id)

end Leaves

def setStakeRewards (id : Id) (book : RewardBook) : LedgerM Unit := put (.stakeRewards id) (some book)

def clearStakeRewards (id : Id) : LedgerM Unit := put (.stakeRewards id) none

def setSessionMeter (meter : SessionMeter) : LedgerM Unit := put .stakeMeter meter

/-- Burns a bond. -/
def burnBond (address : Text) (id : Id) (bond : Bond) : LedgerM Unit := do
  debitSupply bond.amount
  debitStaked bond.amount
  clearStakeBond id
  recordSlashEvent address bond.amount
  emitSide (.slash address bond.amount slashDispositionBurn)

/-- Bans a validator, and burns its bond and what it has not claimed. -/
def slashValidator (address : Text) : LedgerM Bool := do
  let some id := addressId address | return false
  let state ← leaves
  if state.isStakeBanned id then return false
  setStakeBanned id
  match state.stakeBond id with
  | some bond => burnBond address id bond
  | none => pure ()
  let forfeited ← expect (state.stakeRewardsOutstanding id)
  debitSupply forfeited
  clearStakeRewards id
  return true

/-- Bans a validator, and moves its bond to the treasury as far as the fault costs. -/
def slashStake (address : Text) (fault : Fault) : LedgerM U64 := do
  let some id := addressId address | return 0
  let state ← leaves
  let some bond := state.stakeBond id | return 0
  let taken := min (slash bond.amount fault) bond.amount
  setStakeTreasury (state.stakeTreasury.satAdd taken)
  debitStaked bond.amount
  creditAccount address (bond.amount.satSub taken)
  if taken ≠ 0 then
    recordSlashEvent address taken
    emitSide (.slash address taken slashDispositionTreasury)
  clearStakeBond id
  setStakeBanned id
  let state ← leaves
  let forfeited ← expect (state.stakeRewardsOutstanding id)
  if forfeited ≠ 0 then setStakeTreasury (state.stakeTreasury.satAdd forfeited)
  clearStakeRewards id
  return taken

/-- The book after the anchor of its period moved to the last raise of the bond. -/
def anchored (book : RewardBook) (bond : Bond) : RewardBook :=
  let anchor := max book.periodAnchor bond.raisedAtHeight
  if book.periodAnchor ≠ anchor then { book with periodAnchor := anchor, paidInPeriod := 0 } else book

/-- The book after a payment. -/
def paidOut (book : RewardBook) (paid nowDay height : U64) : RewardBook :=
  let blocks := height.satSub book.periodAnchor
  let book := { book with
    paidInPeriod := book.paidInPeriod.satAdd paid
    tranches := book.tranches ++ [{ earnedDay := nowDay, amount := paid, claimed := 0 }] }
  if rewardPeriodBlocks ≤ blocks.val then { book with periodAnchor := height, paidInPeriod := 0 }
  else book

/-- What a validator has earned in its period and was not paid yet. -/
def rewardDue (book : RewardBook) (height : U64) : U64 :=
  (validatorReward (height.satSub book.periodAnchor)).satSub book.paidInPeriod

/-- Whether a validator takes part in the rewards of a day, and its bond. -/
def Leaves.earner (state : Leaves) (context : Context) (id : Id) (nowDay : U64) : Option Bond :=
  if inBlackout nowDay state.stakeMainnetStart || state.isStakeBanned id ||
      state.isGovBlacklisted id then none
  else match state.stakeBond id with
    | none => none
    | some bond =>
      if bond.weightInEpoch context.currentEpoch context.heightsPerEpoch = 0 ||
          (state.stakeRewards id).tranches.any fun tranche => tranche.earnedDay == nowDay then none
      else some bond

section Bonds

variable (context : Context) (address : Text)

/-- Books a reward of which a part came out of the pool. -/
def bookReward (nowDay : U64) (id : Id) (book : RewardBook) (paid fromPool : U64) :
    LedgerM Unit := do
  creditSupply (paid.satSub fromPool)
  setStakeRewards id (paidOut book paid nowDay context.executionHeight)
  recordRewardEvent (addressOf id) paid
  emitSide (.reward (addressOf id) paid)

/-- Pays a validator what is due, and returns what was paid. -/
def accrueRewardById (nowDay : U64) (id : Id) : LedgerM U64 := do
  let state ← leaves
  let some bond := state.earner context id nowDay | return 0
  let book := anchored (state.stakeRewards id) bond
  let paid := rewardDue book context.executionHeight
  if paid = 0 then
    setStakeRewards id book
    return 0
  let fromPool := min paid state.stakePool
  if fromPool ≠ 0 then setStakePool (state.stakePool.satSub fromPool)
  bookReward context nowDay id book paid fromPool
  return paid

/-- Pays validators in turn, and returns what each of them was paid. -/
def accrueEach (context : Context) (nowDay : U64) : List Id → LedgerM (List (Id × U64))
  | [] => return []
  | id :: rest => do
    let paid ← accrueRewardById context nowDay id
    return (id, paid) :: (← accrueEach context nowDay rest)

def recordSession (transactions nowDay : U64) : LedgerM (Option Session) := do
  let state ← leaves
  let (closed, meter) := (state.sessionMeter.record transactions).close nowDay
  setSessionMeter meter
  return closed

/-- Counts a block into the session, and pays the rewards of a session that closes. -/
def settlePayments (nowDay transactions : U64) : LedgerM (List (Id × U64)) := do
  let state ← leaves
  if state.stakeMainnetStart = Word.top 64 then return []
  let closed ← recordSession transactions nowDay
  if closed.isNone then return []
  let state ← leaves
  let _ ← expect (state.rosterRewardDenominator context)
  accrueEach context nowDay state.validatorIds

/-- The end of a block. What was paid is dropped. -/
def settleSession (nowDay transactions : U64) : LedgerM Unit := do
  let _ ← settlePayments context nowDay transactions
  return

/-- What of a tranche has vested and is not claimed, and the tranche with all of that claimed. -/
def RewardTranche.vest (tranche : RewardTranche) (nowDay : U64) : U64 × RewardTranche :=
  let vested := released tranche.amount (nowDay.satSub tranche.earnedDay)
  (vested.satSub tranche.claimed, { tranche with claimed := vested })

def vestAll (tranches : List RewardTranche) (nowDay : U64) : List (U64 × RewardTranche) :=
  tranches.map fun tranche => RewardTranche.vest tranche nowDay

/-- The tranches of which something is left to claim. -/
def unvested (vested : List (U64 × RewardTranche)) : List RewardTranche :=
  (vested.map Prod.snd).filter fun tranche => tranche.claimed < tranche.amount

def claimReward (nowDay : U64) : LedgerM U64 := do
  let some id := addressId address | return 0
  let state ← leaves
  if state.isStakeBanned id || state.isGovBlacklisted id then return 0
  let book := state.stakeRewards id
  let vested := vestAll book.tranches nowDay
  let credited ← expect (vested.foldlM (fun sum part => sum.checkedAdd part.1) (0 : U64))
  if credited = 0 then return 0
  setStakeRewards id { book with tranches := unvested vested }
  let state ← leaves
  let account := state.account address
  setAccount address { account with balance := account.balance.satAdd credited }
  emitSide (.rewardClaim address credited)
  return credited

def requestStakeExit (nowDay : U64) : LedgerM Bool := do
  let some id := addressId address | return false
  let state ← leaves
  let some bond := state.stakeBond id | return false
  if state.exitVoteLocked id nowDay then return false
  let some exited :=
      bond.requestExitAt nowDay context.executionHeight context.heightsPerEpoch
    | return false
  setStakeBond id exited
  return true

def withdrawStake (nowDay : U64) : LedgerM Bool := do
  let some id := addressId address | return false
  let state ← leaves
  let some bond := state.stakeBond id | return false
  let ready ← expect (bond.canWithdraw nowDay)
  if !ready then return false
  clearStakeBond id
  debitStaked bond.amount
  let payee := ((state.stakePayee id).map addressOf).getD address
  let state ← leaves
  let account := state.account payee
  setAccount payee { account with balance := account.balance.satAdd bond.amount }
  recordUnbondEvent address bond.amount
  emitSide (.unbond address bond.amount)
  return true

/-- Gives a validator the bond it has at genesis. -/
def seedValidatorBondAt (amount bondedAtDay : U64) : LedgerM Unit := do
  let some id := addressId address | return
  let state ← leaves
  let existing := ((state.stakeBond id).map Bond.amount).getD 0
  setStakeBond id ⟨amount, bondedAtDay, none, amount, 0⟩
  if existing ≤ amount then creditStaked context (amount.satSub existing)
  else debitStaked (existing.satSub amount)

/-- The bond that a validator without one starts from. -/
def freshBond (day : U64) : Bond := ⟨0, day, none, 0, 0⟩

/-- The bond of a validator after it was raised to a total on a day. -/
def raisedBond (bond : Option Bond) (total day : U64) : Bond :=
  let bond := bond.getD (freshBond day)
  let rejoined :=
    Bond.rejoin { bond with bondedAtDay := day } context.executionHeight context.heightsPerEpoch
  rejoined.raiseTo total context.executionHeight context.heightsPerEpoch

def bond (amount day : U64) : LedgerM Bool := do
  let some id := addressId address | return false
  let state ← leaves
  if state.isStakeBanned id || state.isGovBlacklisted id then return false
  let account := state.account address
  let some balance := account.balance.checkedSub amount | return false
  let existing := ((state.stakeBond id).map Bond.amount).getD 0
  let some total := existing.checkedAdd amount | return false
  if !eligible total then return false
  setAccount address { account with balance }
  setStakeBond id (raisedBond context (state.stakeBond id) total day)
  creditStaked context amount
  return true

end Bonds

/-! ## The lanes that pay a fee -/

variable [Platform] (context : Context) (address : Text)

def claimWithFee (fee nowDay : U64) : LedgerM Bool := do
  let state ← leaves
  let account := state.account address
  if account.balance < fee then return false
  setAccount address (← account.pay fee)
  collectFee context fee
  let _ ← claimReward address nowDay
  return true

def requestExitWithFee (fee nowDay : U64) : LedgerM Bool := do
  let some id := addressId address | return false
  let state ← leaves
  let ready := ((state.stakeBond id).any fun bond =>
    bond.exitRequestedAt.isNone && bond.canRequestExit nowDay) && !state.exitVoteLocked id nowDay
  if !ready then return false
  let account := state.account address
  if account.balance < fee then return false
  setAccount address (← account.pay fee)
  collectFee context fee
  requestStakeExit context address nowDay

def withdrawWithFee (fee nowDay : U64) : LedgerM Bool := do
  let some id := addressId address | return false
  let state ← leaves
  let some bond := state.stakeBond id | return false
  let ready ← expect (bond.canWithdraw nowDay)
  if !ready then return false
  let account := state.account address
  if account.balance < fee then return false
  setAccount address (← account.pay fee)
  collectFee context fee
  withdrawStake address nowDay

def bondWithFee (amount fee day : U64) : LedgerM Bool := do
  let some id := addressId address | return false
  let state ← leaves
  if state.isStakeBanned id || state.isGovBlacklisted id then return false
  let some debit := amount.checkedAdd fee | return false
  let account := state.account address
  if account.balance < debit then return false
  let existing := ((state.stakeBond id).map Bond.amount).getD 0
  let some total := existing.checkedAdd amount | return false
  if !eligible total then return false
  setAccount address (← account.pay debit)
  collectFee context fee
  setStakeBond id (raisedBond context (state.stakeBond id) total day)
  creditStaked context amount
  recordBondEvent address amount fee
  emitSide (.bond address amount fee)
  return true

def designateStakePayeeWithFee (payee : Id) (fee : U64) : LedgerM Bool := do
  let some id := addressId address | return false
  let state ← leaves
  if (state.stakePayee id).isSome || payee == Vector.replicate 32 0 then return false
  let account := state.account address
  if account.balance < fee then return false
  setAccount address (← account.pay fee)
  collectFee context fee
  put (.stakePayee id) payee
  return true

end QuantovaChain.Ledger
