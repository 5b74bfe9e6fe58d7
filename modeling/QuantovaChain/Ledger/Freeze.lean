import QuantovaChain.Ledger.Core

/-!
# Freezes

Two kinds of freeze. Guardians, and votes, freeze single accounts for a time. Anyone may freeze the
bridge by posting a bond, which sits in a pot account until the freeze is lifted and then goes back
to the depositor or to the treasury.
-/

namespace QuantovaChain.Ledger

open State (Bytes)
open Idfmt (Text)
open Governance
open Transaction.Program (put emitSide expect each)

namespace Leaves

variable (state : Leaves)

def assetIssuerIsStopped (assetId : AssetId) : Bool := (state (.govStoppedAsset assetId)).getD false

def guardianSet : GuardianSet := (state .govGuardians).getD .empty

def guardianFreezeEpoch : U64 := (state .govGuardianEpoch).getD 0

def guardianFreezeEntries : List (Id × U64) := (state .govGuardianFreezeTargets).getD []

def bridgeFreeze : Option BridgeFreeze := (state .bridgeFreeze).join

def bridgeIsFrozen : Bool := state.bridgeFreeze.isSome

def bridgeLastLift : Option U64 := state .bridgeLastLift

/-- Whether the last freezer must still wait. -/
def bridgeFreezerResting (id : Id) (now : U64) : Bool :=
  match state.bridgeLastLift with
  | none => false
  | some last =>
    state .bridgeLastFreezer == some id && decide (now < last.satAdd bridgeFreezeDuration)

def bridgePoolVault : Option Id := state .bridgeVault

def bridgeGateway : Option Id := state .bridgeGateway

def isBridgeGateway (address : Text) : Bool :=
  match state.bridgeGateway, addressId address with
  | some gateway, some id => gateway == id
  | _, _ => false

def bridgeExitsEnabled : Bool := (state .bridgeExits).getD false

def bridgeExitMaxAmount : U128 := (state .bridgeExitMax).getD 0

def bridgeFederatedEnabled : Bool := (state .bridgeFederated).getD false

def govNextId : U64 := (state .govNext).getD 1

def govReferendum (id : U64) : Option Referendum := state (.govReferendum id)

def govAction (id : U64) : Option Action := (state (.govAction id)).join

/-- Whether a referendum on a migration may still pass. -/
def migrationPending (id now : U64) : Bool :=
  match state.govReferendum id, state.govAction id with
  | some referendum, some (.bridgeMigration _) =>
    !referendum.killed && referendum.status != .rejected && !referendum.enactmentExpired now
  | _, _ => false

def bridgeMigrationPending (now : U64) : Bool :=
  (List.range' 1 (state.govNextId.val - 1)).any fun id =>
    state.migrationPending (Word.clamp 64 id) now

end Leaves

def guardianFreezeWindowSeconds : U64 := Word.clamp 64 (7 * 86400)

variable [Platform]

def isProtectedAccount (address : Bytes) : Bool := (idFromSlice address).any isReservedPot

def recordStopped (id : Id) : LedgerM Unit := put (.govStoppedAsset (assetIdOf id)) true

def forgetStopped (id : Id) : LedgerM Unit := put (.govStoppedAsset (assetIdOf id)) false

def setGovBlacklisted (id : Id) : LedgerM Unit := do
  put (.govBlacklist id) ()
  recordStopped id

def setFrozen (id : Id) : LedgerM Unit := do
  put (.govFreeze id) true
  recordStopped id

def clearFrozen (id : Id) : LedgerM Unit := do
  put (.govFreeze id) false
  let state ← leaves
  if state.isGovBlacklisted id then return
  forgetStopped id

def setGuardianSet (set : GuardianSet) : LedgerM Unit := put .govGuardians set

def setGuardianFreezeEpoch (epoch : U64) : LedgerM Unit := put .govGuardianEpoch epoch

def writeGuardianFreezeEntries (entries : List (Id × U64)) : LedgerM Unit :=
  put .govGuardianFreezeTargets entries

/-- The entries with the time of one target renewed, or the target added. -/
def renewEntry (entries : List (Id × U64)) (target : Id) (untilTime : U64) : List (Id × U64) :=
  match entries with
  | [] => [(target, untilTime)]
  | (id, time) :: rest =>
    if id = target then (id, untilTime) :: rest else (id, time) :: renewEntry rest target untilTime

/-- Freezes accounts for a window, once for each epoch of freezes. -/
def guardianFreeze (bound : U64) (targets approvers : List Id) (now : U64) : LedgerM Bool := do
  let state ← leaves
  if targets.isEmpty || !state.guardianSet.authorizes approvers then return false
  if bound ≠ state.guardianFreezeEpoch then return false
  if targets.any fun target => isProtectedAccount target.toList then return false
  let held := state.guardianFreezeEntries
  if targets.any fun target =>
      state.isFrozenId target && !(held.any fun entry => entry.1 == target) then
    return false
  let untilTime := now.satAdd guardianFreezeWindowSeconds
  each (fun target => do
    setFrozen target
    emitSide (.guardianFreeze (addressOf target) bound)) targets
  writeGuardianFreezeEntries
    (targets.foldl (fun entries target => renewEntry entries target untilTime) held)
  setGuardianFreezeEpoch (bound.satAdd 1)
  return true

def guardianExpire (now : U64) : LedgerM Unit := do
  let state ← leaves
  let entries := state.guardianFreezeEntries
  if entries.isEmpty then return
  each (fun entry => clearFrozen entry.1) (entries.filter fun entry => entry.2 ≤ now)
  writeGuardianFreezeEntries (entries.filter fun entry => now < entry.2)

def guardianFreezeForget (targets : List Id) : LedgerM Unit := do
  let state ← leaves
  writeGuardianFreezeEntries
    (state.guardianFreezeEntries.filter fun entry => !targets.contains entry.1)

def setBridgeFreeze (record : BridgeFreeze) : LedgerM Unit := put .bridgeFreeze (some record)

def clearBridgeFreeze : LedgerM Unit := put .bridgeFreeze none

inductive FreezeLift
  | refund
  | slash
  deriving DecidableEq, Repr

/-- Takes the bond out of the pot and gives it back or keeps it. -/
def liftBridgeFreeze (now : U64) (outcome : FreezeLift) : LedgerM Unit := do
  let state ← leaves
  let some record := state.bridgeFreeze | return
  let pot := state.account bridgeBondAddress
  setAccount bridgeBondAddress { pot with balance := pot.balance.satSub record.bond }
  match outcome with
  | .refund =>
    let state ← leaves
    let account := state.account (addressOf record.who)
    setAccount (addressOf record.who) { account with balance := account.balance.satAdd record.bond }
  | .slash =>
    let state ← leaves
    setStakeTreasury (state.stakeTreasury.satAdd record.bond)
  clearBridgeFreeze
  put .bridgeLastLift now
  put .bridgeLastFreezer record.who

/-- What an account pays for: its balance and nonce after a debit. -/
def Account.pay (account : Account) (debit : U64) : LedgerM Account := do
  let nonce ← expect (account.nonce.checkedAdd 1)
  let balance ← expect (account.balance.checkedSub debit)
  return { account with nonce, balance }

def bridgeFreezeWithFee (context : Context) (caller : Text) (fee now : U64) : LedgerM Bool := do
  let some id := addressId caller | return false
  let state ← leaves
  if state.isGovBlacklisted id then return false
  if state.bridgeFreeze.isSome then return false
  if state.bridgeLastLift.any fun last => now < last.satAdd bridgeFreezeCooldown then return false
  if state.bridgeFreezerResting id now then return false
  let bond := bridgeFreezeBond
  let some debit := fee.checkedAdd bond | return false
  let account := state.account caller
  if account.balance < debit then return false
  setAccount caller (← account.pay debit)
  collectFee context fee
  let state ← leaves
  let pot := state.account bridgeBondAddress
  setAccount bridgeBondAddress { pot with balance := pot.balance.satAdd bond }
  setBridgeFreeze { who := id, bond, untilTime := now.satAdd bridgeFreezeDuration }
  return true

def bridgeUnfreezeWithFee (context : Context) (caller : Text) (fee now : U64) : LedgerM Bool := do
  let some id := addressId caller | return false
  let state ← leaves
  let some record := state.bridgeFreeze | return false
  if record.who ≠ id then return false
  let account := state.account caller
  if account.balance < fee then return false
  setAccount caller (← account.pay fee)
  collectFee context fee
  let started := record.untilTime.satSub bridgeFreezeDuration
  liftBridgeFreeze now (if now ≤ started.satAdd bridgeFreezeRefundGrace then .refund else .slash)
  return true

def guardianBridgeUnfreeze (approvers : List Id) (now : U64) : LedgerM Bool := do
  let state ← leaves
  if state.bridgeFreeze.isNone then return false
  if !state.guardianSet.authorizes approvers then return false
  liftBridgeFreeze now .slash
  return true

def bridgeExpire (now : U64) : LedgerM Unit := do
  let state ← leaves
  let some record := state.bridgeFreeze | return
  if record.untilTime ≤ now && !state.bridgeMigrationPending now then
    liftBridgeFreeze now .slash

end QuantovaChain.Ledger
