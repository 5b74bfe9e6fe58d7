import QuantovaChain.Ledger.Reserves
import QuantovaChain.Ledger.Stake

/-!
# Governance on the ledger

Referenda are proposed with a deposit, voted on with locked stake, concluded when their time is over
and enacted after a delay. Enacting an approved referendum runs its action. An enactment that fails
leaves what it wrote before the failure, and the transaction that asked for it still counts.
-/

namespace QuantovaChain.Ledger

open State (Bytes Hash)
open Idfmt (Text ascii)
open Governance
open Bridge (OperatorSet)
open Transaction.Program (put emitSide expect each)

inductive EnactError
  | unknown
  | notApproved
  | constitution (violation : Violation)
  | badAddress
  | unknownParameter
  | badValue
  | bridgeNotFrozen
  | noCommittee
  | notImplemented
  | overflow
  | expired
  deriving DecidableEq, Repr

abbrev Enactment := Except EnactError Unit

namespace Leaves

variable (state : Leaves)

def govTotalLocked : U128 := (state .govLocked).getD 0

def govElectorate (id : U64) : Option U64 := state (.govElectorate id)

def govTrackDeposit (track : Track) : U64 := (state (.govDeposit track.code)).getD track.deposit

def govBallot (referendum : U64) (voter : Id) : Option Ballot := state (.govBallot referendum voter)

def govMintedInPeriod (period : U64) : U128 := (state (.govMintPeriod period)).getD 0

def guardianEnactNonce : U64 := (state .guardianEnactNonce).getD 0

def guardianPendingEnact : Option (U64 × Bytes) := (state .guardianPendingEnact).join

def featureVersion (feature : Bytes) : U64 := (state (.govFeature feature)).getD 0

end Leaves

def setGovNextId (id : U64) : LedgerM Unit := put .govNext id

def setGovTotalLocked (amount : U128) : LedgerM Unit := put .govLocked amount

def setGovReferendum (id : U64) (referendum : Referendum) : LedgerM Unit :=
  put (.govReferendum id) referendum

def setGovAction (id : U64) (action : Action) : LedgerM Unit := put (.govAction id) (some action)

def clearGovAction (id : U64) : LedgerM Unit := put (.govAction id) none

def setGovElectorate (id : U64) (amount : U64) : LedgerM Unit := put (.govElectorate id) amount

def setGovBallot (referendum : U64) (voter : Id) (ballot : Ballot) : LedgerM Unit :=
  put (.govBallot referendum voter) ballot

def setGovLock (voter : Id) (lock : Lock) : LedgerM Unit := put (.govLock voter) (some lock)

def clearGovLock (voter : Id) : LedgerM Unit := put (.govLock voter) none

def setGovReceipt (id : U64) (receipt : EnactmentReceipt) : LedgerM Unit :=
  put (.govReceipt id) receipt

def govPropose (context : Context) (proposer : Text) (track : Track) (action : Action) (now : U64) :
    LedgerM (Option U64) := do
  if action.track ≠ track then return none
  if !action.isEnactable then return none
  let some proposerId := addressId proposer | return none
  let state ← leaves
  let deposit := state.govTrackDeposit track
  let account := state.account proposer
  let some balance := account.balance.checkedSub deposit | return none
  setAccount proposer { account with balance }
  let state ← leaves
  let id := state.govNextId
  setGovReferendum id (.openReferendum id track proposerId.toList now deposit)
  setGovAction id action
  setGovElectorate id (state.maturedTotalStaked context)
  setGovNextId (← expect (id.checkedAdd 1))
  emitSide (.govPropose id proposer track.code (ascii action.kind) deposit)
  return some id

/-- The lock of a voter after one more vote. -/
def Leaves.lockedFor (state : Leaves) (voter : Id) (stake release : U64) : Lock :=
  let lock := (state.govLock voter).getD ⟨0, 0⟩
  { amount := lock.amount.satAdd stake, untilTime := max lock.untilTime release }

def govVote (context : Context) (voter : Text) (referendumId : U64) (aye : Bool)
    (conviction : Conviction) (stake now : U64) : LedgerM Bool := do
  let some voterId := addressId voter | return false
  let state ← leaves
  let some referendum := state.govReferendum referendumId | return false
  if referendum.status ≠ .deciding || referendum.ready now then return false
  if (state.govBallot referendumId voterId).isSome then return false
  if (state.stakeBond voterId).any fun bond => bond.exitRequestedAt.isSome then return false
  let account := state.account voter
  let some balance := account.balance.checkedSub stake | return false
  let bonded := (state.governanceStakeInEpoch context voter context.currentEpoch).val *
    Staking.nativeUnit
  if bonded < stake.val then return false
  setAccount voter { account with balance }
  let release := max (now.satAdd conviction.lockSeconds) referendum.decidesAt
  setGovLock voterId (state.lockedFor voterId stake release)
  setGovTotalLocked (← expect (Word.ofNat? 128 (state.govTotalLocked.val + stake.val)))
  setGovReferendum referendumId
    { referendum with tally := referendum.tally.recordConviction aye conviction stake }
  setGovBallot referendumId voterId { aye, conviction, stake }
  emitSide (.govVote referendumId voter aye conviction.code stake)
  return true

/-- Gives an account, or the treasury where there is none, an amount. -/
def payOut (address : Option Text) (amount : U64) : LedgerM Unit := do
  let state ← leaves
  match address with
  | some address =>
    let account := state.account address
    setAccount address { account with balance := account.balance.satAdd amount }
  | none => setStakeTreasury (state.stakeTreasury.satAdd amount)

def govConclude (context : Context) (referendumId now : U64) : LedgerM (Option Status) := do
  let state ← leaves
  let some referendum := state.govReferendum referendumId | return none
  if referendum.status ≠ .deciding then return some referendum.status
  let live := state.maturedTotalStaked context
  let electorate : U128 :=
    Word.clamp 128 (max ((state.govElectorate referendumId).getD live) live).val
  let (status, resolved) := referendum.resolve now electorate
  if status = .deciding then return some status
  payOut (if referendum.depositRefunded electorate then idBytesToAddress referendum.proposer
    else none) referendum.deposit
  setGovReferendum referendumId resolved
  emitSide (.govTally referendumId (ascii status.kind) resolved.tally.ayeStake
    resolved.tally.nayStake)
  return some status

def govRelease (voter : Text) (now : U64) : LedgerM U64 := do
  let some voterId := addressId voter | return 0
  let state ← leaves
  let some lock := state.govLock voterId | return 0
  if !lock.withdrawable now then return 0
  clearGovLock voterId
  setGovTotalLocked (state.govTotalLocked.satSub (Word.clamp 128 lock.amount.val))
  let account := state.account voter
  setAccount voter { account with balance := account.balance.satAdd lock.amount }
  return lock.amount

/-! ## Actions -/

def guardianEnactDelaySeconds : U64 := Word.clamp 64 (24 * 60 * 60)

/-- What a recovery still takes from a frozen bond, with the rest of the bond given back. -/
def seizeBond (source : Id) (remaining : U64) : LedgerM U64 := do
  let state ← leaves
  let some bond := state.stakeBond source | return 0
  let fromBond := min bond.amount remaining
  if fromBond = 0 then return 0
  clearStakeBond source
  debitStaked bond.amount
  creditAccount (addressOf source) (bond.amount.satSub fromBond)
  return fromBond

/-- What a recovery still takes from a frozen lock. -/
def seizeLock (source : Id) (still : U64) : LedgerM U64 := do
  let state ← leaves
  let some lock := state.govLock source | return 0
  let fromLock := min lock.amount still
  if fromLock = 0 then return 0
  let rest := lock.amount.satSub fromLock
  if rest = 0 then clearGovLock source else setGovLock source { lock with amount := rest }
  setGovTotalLocked (state.govTotalLocked.satSub (Word.clamp 128 fromLock.val))
  return fromLock

/-- Takes an amount from an account, and from what it has bonded and locked when it is frozen. -/
def seize (source : Id) (amount : U64) : LedgerM U64 := do
  let state ← leaves
  let account := state.account (addressOf source)
  let take := min account.balance amount
  setAccount (addressOf source) { account with balance := account.balance.satSub take }
  if amount.satSub take = 0 || !state.isFrozenId source then return take
  let fromBond ← seizeBond source (amount.satSub take)
  let take := take.satAdd fromBond
  if amount.satSub take = 0 then return take
  let fromLock ← seizeLock source (amount.satSub take)
  return take.satAdd fromLock

/-- Goes through the seizures with what was recovered so far. -/
def seizeAll (victim : Text) (scope : Hash) : List Seizure → U64 → LedgerM U64
  | [], recovered => return recovered
  | seizure :: rest, recovered => do
    match idFromSlice seizure.source with
    | none => seizeAll victim scope rest recovered
    | some source =>
      let take ← seize source seizure.amount
      emitSide (.recoverySeizure victim (addressOf source) take scope)
      seizeAll victim scope rest (recovered.satAdd take)

def freezeAll (action : Id → LedgerM Unit) (event : Text → SideEvent) (targets : List Bytes) :
    LedgerM Unit := do
  let handled := targets.filterMap idFromSlice
  each (fun id => do
    action id
    emitSide (event (addressOf id))) handled

/-- Moves what a vault holds of an asset to another vault. -/
def carryCustody (oldVault vault : Id) (assetId : AssetId) : LedgerM Unit := do
  let state ← leaves
  let held := state.bridgeVaultCustody oldVault assetId
  if held = 0 then return
  setBridgeVaultCustody oldVault assetId 0
  let state ← leaves
  setBridgeVaultCustody vault assetId ((state.bridgeVaultCustody vault assetId).satAdd held)

def migrateBridge (vault : Id) : LedgerM Unit := do
  let state ← leaves
  match state.bridgePoolVault with
  | some oldVault =>
    if oldVault ≠ vault then each (carryCustody oldVault vault) state.bridgeAssetIds
  | none => pure ()
  put .bridgeVault vault
  emitSide (.bridgeMigration (addressOf vault))

/-- The committee of a rotation whose operators are distinct and prove to hold their keys. -/
def rotatedOperators [Platform] (chainId : U64) :
    List OperatorClaim → List (U32 × Bytes) → Option (List (U32 × Bytes))
  | [], operators => some operators
  | claim :: rest, operators =>
    if operators.any (fun entry => entry.1 == claim.operatorId || entry.2 == claim.publicKey) ||
        !Bridge.operatorPopOk claim.operatorId claim.publicKey claim.pop chainId then none
    else rotatedOperators chainId rest (operators ++ [(claim.operatorId, claim.publicKey)])

/-- Sets of less than two operators are not stored. -/
def seedBridgeOperatorSet (set : OperatorSet) : LedgerM Unit := do
  if set.threshold.val < 2 then return
  put .bridgeOperators set

def applyParameter (key value : Bytes) (now : U64) : LedgerM Enactment := do
  let state ← leaves
  if key = ascii "price" then
    let some price := Word.ofLe? 128 value | return .error .badValue
    put .stakePrice price
    return .ok ()
  if key = ascii "mainnet_start" then
    let some day := Word.ofLe? 64 value | return .error .badValue
    if state.stakeMainnetStart ≠ Word.top 64 then return .error .badValue
    if day < now.div 86400 then return .error .badValue
    put .stakeMainnet day
    setSessionMeter (.new day)
    return .ok ()
  if key = ascii "bridge_gateway" then
    let some gateway := idFromSlice value | return .error .badValue
    put .bridgeGateway gateway
    return .ok ()
  if key = ascii "bridge_exits" then
    if value = [0] then
      put .bridgeExits false
      return .ok ()
    if value = [1] then
      put .bridgeExits true
      return .ok ()
    return .error .badValue
  if key = ascii "bridge_payout_cap" then
    let some cap := Word.ofLe? 128 value | return .error .badValue
    let ceiling := (state.bridgeAssetIds.filterMap state.bridgedAsset).foldl
      (fun sum asset => sum.satAdd asset.epochCap) (0 : U128)
    if ceiling < cap then return .error .badValue
    put .bridgePayoutCap cap
    return .ok ()
  if key = ascii "gov_deposit" then
    let some track := value.head?.bind Track.fromCode | return .error .badValue
    let some amount := Word.ofLe? 64 value.tail | return .error .badValue
    let (floor, ceiling) := govDepositBounds state.totalSupply
    if amount < floor || ceiling < amount then return .error .badValue
    put (.govDeposit track.code) amount
    return .ok ()
  return .error .unknownParameter

section Actions

variable [Platform]

def govUnfreezeBridge (now : U64) : LedgerM Enactment := do
  let state ← leaves
  if state.bridgeFreeze.isNone then return .error .bridgeNotFrozen
  liftBridgeFreeze now .slash
  return .ok ()

def enactMint (recipient : Bytes) (amount now : U64) : LedgerM Enactment := do
  let some address := idBytesToAddress recipient | return .error .badAddress
  let period := now.div (Word.clamp 64 yearSeconds)
  let state ← leaves
  let some afterPeriod := Word.ofNat? 128 ((state.govMintedInPeriod period).val + amount.val)
    | return .error .overflow
  let account := state.account address
  let some balance := account.balance.checkedAdd amount | return .error .overflow
  let some supply := state.totalSupply.checkedAdd amount | return .error .overflow
  setAccount address { account with balance }
  setTotalSupply supply
  put (.govMintPeriod period) afterPeriod
  recordMintEvent address amount
  emitSide (.mint address amount)
  return .ok ()

def enactSpend (source recipient : Bytes) (amount : U64) : LedgerM Enactment := do
  let some address := idBytesToAddress recipient | return .error .badAddress
  let some sourceId := idFromSlice source | return .error .badAddress
  let state ← leaves
  if sourceId = Platform.sha3 (ascii "qtv/gov/grants") then
    let pot := state.account grantsAddress
    let some balance := pot.balance.checkedSub amount | return .error .badValue
    setAccount grantsAddress { pot with balance }
    payOut (some address) amount
    emitSide (.spend (ascii "gov/grants") address amount)
    return .ok ()
  if sourceId = Platform.sha3 (ascii "qtv/stake/treasury") then
    let some treasury := state.stakeTreasury.checkedSub amount | return .error .badValue
    setStakeTreasury treasury
    payOut (some address) amount
    emitSide (.spend (ascii "stake/treasury") address amount)
    return .ok ()
  return .error .badAddress

def enactRecovery (scope : Hash) (victim : Bytes) (seizures : List Seizure) :
    LedgerM Enactment := do
  let some address := idBytesToAddress victim | return .error .badAddress
  let recovered ← seizeAll address scope seizures 0
  payOut (some address) recovered
  emitSide (.recoveryCredit address recovered scope)
  guardianFreezeForget (seizures.filterMap fun seizure => idFromSlice seizure.source)
  return .ok ()

def enactRotation (rotation : CommitteeRotation) (chainId : U64) : LedgerM Enactment := do
  if rotation.threshold.val < 2 then return .error .badValue
  let some operators := rotatedOperators chainId rotation.operators [] | return .error .badValue
  if operators.length < rotation.threshold.val then return .error .badValue
  if rotation.threshold.val * 3 ≤ operators.length * 2 then return .error .badValue
  seedBridgeOperatorSet { operators, threshold := rotation.threshold, revoked := [] }
  emitSide (.committeeRotate operators.length rotation.threshold)
  return .ok ()

def enactRegister (assetId : AssetId) (cap epochCap : U128) (requiresStark : Bool) :
    LedgerM Enactment := do
  if cap = 0 || epochCap = 0 then return .error .badValue
  if requiresStark then return .error .badValue
  registerBridgedAsset assetId cap epochCap requiresStark
  emitSide (.assetRegister assetId cap epochCap requiresStark)
  return .ok ()

def executeAction (action : Action) (now chainId : U64) : LedgerM Enactment := do
  let state ← leaves
  match action with
  | .mint recipient amount => enactMint recipient amount now
  | .parameter key value =>
    match (← applyParameter key value now) with
    | .error error => return .error error
    | .ok () =>
      emitSide (.parameter key value)
      return .ok ()
  | .spend source recipient amount => enactSpend source recipient amount
  | .blacklist target =>
    freezeAll setGovBlacklisted .blacklist [target]
    return .ok ()
  | .freezeRecovery scope victim seizures => enactRecovery scope victim seizures
  | .freeze targets =>
    freezeAll setFrozen .freeze targets
    guardianFreezeForget (targets.filterMap idFromSlice)
    return .ok ()
  | .unfreeze targets =>
    freezeAll clearFrozen .unfreeze targets
    guardianFreezeForget (targets.filterMap idFromSlice)
    return .ok ()
  | .bridgeMigration vault =>
    if !state.bridgeIsFrozen then return .error .bridgeNotFrozen
    let some vaultId := idFromSlice vault | return .error .badAddress
    migrateBridge vaultId
    return .ok ()
  | .bridgeUnfreeze =>
    match (← govUnfreezeBridge now) with
    | .error error => return .error error
    | .ok () =>
      emitSide .bridgeUnfreeze
      return .ok ()
  | .guardianRotate set =>
    if !set.wellFormed then return .error .badValue
    setGuardianSet set
    emitSide (.guardianRotate set.members.length set.threshold)
    return .ok ()
  | .committeeRotate rotation => enactRotation rotation chainId
  | .operatorRevoke operatorId =>
    let some set := state.bridgeOperatorSet | return .error .noCommittee
    let some revoked := set.revoke operatorId | return .error .badValue
    seedBridgeOperatorSet revoked
    emitSide (.operatorRevoke operatorId)
    return .ok ()
  | .assetRegister assetId cap epochCap requiresStark =>
    enactRegister assetId cap epochCap requiresStark
  | .bridgeAnchorSet _ _ => return .error .badValue
  | .epochAdvance =>
    let some next := state.bridgeEpoch.checkedAdd 1 | return .error .badValue
    put .bridgeEpoch next
    emitSide (.epochAdvance next)
    return .ok ()
  | .activate feature version =>
    if feature.isEmpty || version ≤ state.featureVersion feature then return .error .badValue
    put (.govFeature feature) version
    emitSide (.activate feature version)
    return .ok ()

/-- Whether the scope of a recovery is the hash of what it does. -/
def recoveryScopeOk (action : Action) (chainId : U64) : Bool :=
  match action with
  | .freezeRecovery scope victim seizures =>
    Platform.sha3 (Action.recoveryScopePreimage chainId victim seizures) == scope
  | _ => true

def recoveryScope : Action → Hash
  | .freezeRecovery scope _ _ => scope
  | _ => Vector.replicate 32 0

def govEnact (context : Context) (referendumId now chainId : U64) : LedgerM Enactment := do
  let some status ← govConclude context referendumId now | return .error .unknown
  if status ≠ .approved then return .error .notApproved
  let state ← leaves
  let some action := state.govAction referendumId | return .error .unknown
  let some referendum := state.govReferendum referendumId | return .error .unknown
  if referendum.enactmentExpired now then
    clearGovAction referendumId
    return .error .expired
  if !referendum.enactable now then return .error .notApproved
  match checkEnactment referendum.track action (recoveryScopeOk action chainId) isProtectedAccount with
  | .error violation => return .error (.constitution violation)
  | .ok () =>
    match (← executeAction action now chainId) with
    | .error error => return .error error
    | .ok () =>
      let proposalHash := Platform.sha3 action.encode
      setGovReceipt referendumId
        { referendum := referendumId, proposalHash, scope := recoveryScope action,
          tally := referendum.tally, enactedAt := now }
      clearGovAction referendumId
      emitSide (.govEnact referendumId (ascii action.kind) proposalHash)
      return .ok ()

/-- Puts off an action of the guardians. -/
def guardianEnactBridgeAction (action : Action) (enactNonce now : U64) : LedgerM Bool := do
  let state ← leaves
  if state.guardianEnactNonce ≠ enactNonce then return false
  let .bridgeAnchorSet _ _ := action | return false
  if state.guardianPendingEnact.isSome then return false
  put .guardianPendingEnact (some (now.satAdd guardianEnactDelaySeconds, action.encode))
  put .guardianEnactNonce (enactNonce.satAdd 1)
  return true

def guardianApplyDueEnact (now : U64) : LedgerM Unit := do
  let state ← leaves
  let some (effectiveAt, actionBytes) := state.guardianPendingEnact | return
  if now < effectiveAt then return
  put .guardianPendingEnact none
  if state.bridgeFreeze.isSome then return
  match Codec.Reader.whole Action.decode actionBytes with
  | some (.bridgeAnchorSet corridor anchor) =>
    let _ ← executeAction (.bridgeAnchorSet corridor anchor) now 0
  | _ => return

end Actions

end QuantovaChain.Ledger
