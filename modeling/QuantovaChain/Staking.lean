import QuantovaChain.Library.Word

/-!
# Staking rules

Bonds, reward schedules and session meters, as plain functions of their records. Whole epochs decide
how much of a bond counts: an amount raised within an epoch counts from the next one on.
-/

namespace QuantovaChain.Staking

def nativeUnit : Nat := 1000000

def minStake : U64 := Word.clamp 64 (2000 * nativeUnit)

def rewardVestDays : U64 := 365

def highSessionTx : U64 := 50000000000

def sessionDays : U64 := 182

def mainnetBlackoutDays : U64 := 365

def bondLockDays : U64 := 90

def unbondingDays : U64 := 21

def rewardAnchorUsdPerQtov : Nat := 3000

def rewardBlocksTierTop : Nat := 250000000

def rewardBlocksTierHigh : Nat := 200000000

def rewardBlocksTierMid : Nat := 150000000

def rewardUsdTierTop : Nat := 100000

def rewardUsdTierHigh : Nat := 80000

def rewardUsdTierMid : Nat := 50000

def rewardUsdTierLowCap : Nat := 30000

def rewardPeriodBlocks : Nat := rewardBlocksTierTop

def rewardUsdToQuon (usd : Nat) : U64 :=
  Word.clamp 64 (usd * nativeUnit / rewardAnchorUsdPerQtov)

/-- The reward of a validator for a number of completed blocks, by tiers. -/
def validatorReward (blocksCompleted : U64) : U64 :=
  let usd :=
    if blocksCompleted.val ≥ rewardBlocksTierTop then rewardUsdTierTop
    else if blocksCompleted.val ≥ rewardBlocksTierHigh then rewardUsdTierHigh
    else if blocksCompleted.val ≥ rewardBlocksTierMid then rewardUsdTierMid
    else min (blocksCompleted.val * rewardUsdTierLowCap / rewardBlocksTierMid) rewardUsdTierLowCap
  rewardUsdToQuon usd

inductive Session
  | low
  | high
  deriving DecidableEq, Repr

def Session.classify (transactions : U64) : Session :=
  if transactions ≥ highSessionTx then .high else .low

def eligible (stake : U64) : Bool := minStake ≤ stake

def inBlackout (nowDay mainnetStartDay : U64) : Bool :=
  nowDay.satSub mainnetStartDay < mainnetBlackoutDays

/-- Rewards vest all at once. -/
def released (earned ageDays : U64) : U64 := if ageDays < rewardVestDays then 0 else earned

def bpsDenom : Nat := 10000

def slashAttributableBps : Nat := 10000

inductive Fault
  | attributable
  deriving DecidableEq, Repr

/-- What a fault costs. -/
def slash (bond : U64) : Fault → U64
  | .attributable => Word.clamp 64 (bond.val * slashAttributableBps / bpsDenom)

structure Bond where
  amount : U64
  bondedAtDay : U64
  exitRequestedAt : Option U64
  activeAmount : U64
  raisedAtHeight : U64
  deriving DecidableEq, Repr

namespace Bond

def amountInEpoch (bond : Bond) (epoch heightsPerEpoch : U64) : U64 :=
  if heightsPerEpoch = 0 then bond.amount
  else if bond.raisedAtHeight.div heightsPerEpoch < epoch then bond.amount
  else min bond.activeAmount bond.amount

def weightInEpoch (bond : Bond) (epoch heightsPerEpoch : U64) : U64 :=
  if bond.exitRequestedAt.isNone then bond.amountInEpoch epoch heightsPerEpoch
  else if heightsPerEpoch = 0 ∨ bond.raisedAtHeight.div heightsPerEpoch < epoch then 0
  else min bond.activeAmount bond.amount

def canRequestExit (bond : Bond) (nowDay : U64) : Bool :=
  bondLockDays ≤ nowDay.satSub bond.bondedAtDay

/-- The bond after an exit request, if it is granted. -/
def requestExitAt (bond : Bond) (nowDay height heightsPerEpoch : U64) : Option Bond :=
  if bond.exitRequestedAt.isSome || !bond.canRequestExit nowDay then none
  else some { bond with
    activeAmount := bond.amountInEpoch (height.div heightsPerEpoch) heightsPerEpoch
    raisedAtHeight := height
    exitRequestedAt := some nowDay }

def rejoin (bond : Bond) (height heightsPerEpoch : U64) : Bond :=
  if bond.exitRequestedAt.isNone then bond
  else { bond with
    activeAmount := bond.weightInEpoch (height.div heightsPerEpoch) heightsPerEpoch
    raisedAtHeight := height
    exitRequestedAt := none }

def raiseTo (bond : Bond) (total height heightsPerEpoch : U64) : Bond :=
  { bond with
    activeAmount := bond.amountInEpoch (height.div heightsPerEpoch) heightsPerEpoch
    amount := total
    raisedAtHeight := height }

/-- Whether the unbonding time is over. The sum of days has no value past the largest day. -/
def canWithdraw (bond : Bond) (nowDay : U64) : Option Bool :=
  match bond.exitRequestedAt with
  | some day => (day.checkedAdd unbondingDays).map fun ends => decide (ends ≤ nowDay)
  | none => some false

theorem requestExitAt_amount {bond exited : Bond} {nowDay height heightsPerEpoch : U64}
    (granted : bond.requestExitAt nowDay height heightsPerEpoch = some exited) :
    exited.amount = bond.amount := by
  unfold requestExitAt at granted
  split at granted
  · cases granted
  · cases granted
    rfl

end Bond

structure RewardTranche where
  earnedDay : U64
  amount : U64
  claimed : U64
  deriving DecidableEq, Repr

structure RewardBook where
  tranches : List RewardTranche
  periodAnchor : U64
  paidInPeriod : U64
  deriving DecidableEq, Repr

instance : Inhabited RewardBook := ⟨⟨[], 0, 0⟩⟩

structure SessionMeter where
  windowStartDay : U64
  count : U64
  deriving DecidableEq, Repr

namespace SessionMeter

def new (startDay : U64) : SessionMeter := ⟨startDay, 0⟩

def record (meter : SessionMeter) (transactions : U64) : SessionMeter :=
  { meter with count := meter.count.satAdd transactions }

def windowClosed (meter : SessionMeter) (nowDay : U64) : Bool :=
  sessionDays ≤ nowDay.satSub meter.windowStartDay

/-- Closes the window if it is over, and says what session it was. -/
def close (meter : SessionMeter) (nowDay : U64) : Option Session × SessionMeter :=
  if meter.windowClosed nowDay then (some (.classify meter.count), ⟨nowDay, 0⟩)
  else (none, meter)

end SessionMeter

end QuantovaChain.Staking
