import QuantovaChain.Ledger.Freeze

/-!
# Bridged assets and contract assets

A bridged asset is minted against a deposit on the other chain, which the pool vault holds in
custody here, and burnt to be paid out there. A burn stays outstanding until operators report it as
paid, which takes it out of custody, or as failed, which mints it back. Contracts issue assets of
their own, which only have a supply and balances.
-/

namespace QuantovaChain.Ledger

open State (Bytes Hash)
open Idfmt (ascii)
open Governance
open Codec
open Bridge (Fact ExitFact OperatorSet)
open Transaction.Program (put delete emitSide)

namespace Leaves

variable (state : Leaves) (assetId : AssetId)

def bridgedAsset : Option QAsset := state (.bridgeAsset assetId)

def bridgeAssetIds : List AssetId := (state .bridgeAssetList).getD []

def bridgedSupply : U128 :=
  ((state.bridgedAsset assetId).map QAsset.supply).getD 0

def bridgedBalance (holder : Id) : U128 :=
  (state (.bridgeBalance assetId holder)).getD 0

def assetBalance (holder : Id) : U128 :=
  (state (.assetBalance assetId holder)).getD 0

def assetSupply : U128 := (state (.assetSupply assetId)).getD 0

def bridgeVaultCustody (vault : Id) (assetId : AssetId) : U128 :=
  (state (.bridgeVaultCustody vault assetId)).getD 0

def bridgeOperatorSet : Option OperatorSet := state .bridgeOperators

def bridgeDestChain : Option U32 := state .bridgeDestChain

def bridgeEra : Hash := (state .bridgeEra).getD (Vector.replicate 32 0)

def bridgeEpoch : U64 := (state .bridgeEpoch).getD 0

def bridgeReferenceSeen (sourceChain : U32) (sourceRef : Id) : Bool :=
  (state (.bridgeSeen sourceChain sourceRef)).isSome

def bridgeEpochMinted (epoch : U64) : U128 :=
  (state (.bridgeEpochmint assetId epoch)).getD 0

def bridgeExitSettled (burnRef : Id) : Bool := (state (.bridgeExitSeen burnRef)).isSome

def bridgeOutstandingBurn (burnRef : Id) : Option OutstandingBurn :=
  state (.bridgeOutstanding burnRef)

def outstandingBurnMatches (fact : ExitFact) : Bool :=
  match state.bridgeOutstandingBurn fact.burnRef with
  | some record =>
    record.assetId == fact.assetId && record.amount == fact.amount &&
      record.destination == fact.destination && record.beneficiary == fact.holder
  | none => false

def bridgeEpochPaid (epoch : U64) : U128 :=
  (state (.bridgeEpochpay assetId epoch)).getD 0

def bridgeEpochPaidGlobal (epoch : U64) : U128 := (state (.bridgeEpochpayGlobal epoch)).getD 0

def bridgePayoutCap : U128 := (state .bridgePayoutCap).getD 0

end Leaves

def recordBridgeMintEvent (assetId : AssetId) (recipient : Id) (amount : U128) : LedgerM Unit :=
  recordNativeEvent eventBridgeMint
    (putBytes assetId.toList ++ putBytes recipient.toList ++ putU128 amount)

def recordBridgeBurnEvent (assetId : AssetId) (holder : Id) (amount : U128) (destination : Id)
    (chainId senderNonce eventIndex : U64) (burnRef : Id) : LedgerM Unit :=
  recordNativeEvent eventBridgeBurn
    (putBytes assetId.toList ++ putBytes holder.toList ++ putU128 amount ++
      putBytes destination.toList ++ putU64 chainId ++ putU64 senderNonce ++ putU64 eventIndex ++
      putBytes burnRef.toList)

/-- An event about the end of a burn. -/
def recordBridgeExitEvent (kind : Selector) (assetId : AssetId) (beneficiary : Id) (amount : U128)
    (burnRef : Id) : LedgerM Unit :=
  recordNativeEvent kind
    (putBytes assetId.toList ++ putBytes beneficiary.toList ++ putU128 amount ++
      putBytes burnRef.toList)

def recordBridgeSettleEvent : AssetId → Id → U128 → Id → LedgerM Unit :=
  recordBridgeExitEvent eventBridgeSettle

def recordBridgeSlashEvent : AssetId → Id → U128 → Id → LedgerM Unit :=
  recordBridgeExitEvent eventBridgeSlash

def setBridgedAsset (assetId : AssetId) (asset : QAsset) : LedgerM Unit :=
  put (.bridgeAsset assetId) asset

def setBridgedBalance (assetId : AssetId) (holder : Id) (amount : U128) : LedgerM Unit :=
  put (.bridgeBalance assetId holder) amount

def setBridgeVaultCustody (vault : Id) (assetId : AssetId) (amount : U128) : LedgerM Unit :=
  put (.bridgeVaultCustody vault assetId) amount

def recordBridgeAssetId (assetId : AssetId) : LedgerM Unit := do
  let state ← leaves
  let ids := state.bridgeAssetIds
  if ids.contains assetId then return
  put .bridgeAssetList (ids ++ [assetId])

/-- Registers an asset, or changes its limits and keeps its supply. -/
def registerBridgedAsset (assetId : AssetId) (cap epochCap : U128) (requiresStark : Bool) :
    LedgerM Unit := do
  let state ← leaves
  setBridgedAsset assetId { supply := state.bridgedSupply assetId, cap, epochCap, requiresStark }
  recordBridgeAssetId assetId

def creditVaultCustody (assetId : AssetId) (amount : U128) : LedgerM Bool := do
  let state ← leaves
  let some vault := state.bridgePoolVault | return true
  let some held := (state.bridgeVaultCustody vault assetId).checkedAdd amount | return false
  setBridgeVaultCustody vault assetId held
  return true

def bridgeMint (context : Context) (fact : Fact) : LedgerM Bool := do
  if fact.amount = 0 then return false
  let state ← leaves
  if state.bridgePoolVault.isNone then return false
  if fact.expiryHeight < context.executionHeight then return false
  let some asset := state.bridgedAsset fact.assetId | return false
  if state.bridgeReferenceSeen fact.sourceChain fact.sourceRef then return false
  let some newSupply := asset.supply.checkedAdd fact.amount | return false
  if asset.cap < newSupply then return false
  let epoch := state.bridgeEpoch
  let some newMinted := (state.bridgeEpochMinted fact.assetId epoch).checkedAdd fact.amount
    | return false
  if asset.epochCap < newMinted then return false
  let some credited := (state.bridgedBalance fact.assetId fact.recipient).checkedAdd fact.amount
    | return false
  if !(← creditVaultCustody fact.assetId fact.amount) then return false
  setBridgedBalance fact.assetId fact.recipient credited
  setBridgedAsset fact.assetId { asset with supply := newSupply }
  put (.bridgeSeen fact.sourceChain fact.sourceRef) ()
  put (.bridgeEpochmint fact.assetId epoch) newMinted
  recordBridgeMintEvent fact.assetId fact.recipient fact.amount
  emitSide (.bridgeMint fact.assetId fact.recipient fact.amount)
  return true

/-- Everything that a burn reference is the hash of. -/
structure BurnInput where
  chainId : U64
  genesis : Hash
  assetId : AssetId
  holder : Id
  amount : U128
  destination : Id
  senderNonce : U64
  eventIndex : U64
  deriving DecidableEq, Repr

def BurnInput.encode (input : BurnInput) : Bytes :=
  putBytes (ascii "qtv/bridge/burn-ref/v2") ++ putU64 input.chainId ++
    putBytes input.genesis.toList ++ putBytes input.assetId.toList ++ putBytes input.holder.toList ++
    putU128 input.amount ++ putBytes input.destination.toList ++ putU64 input.senderNonce ++
    putU64 input.eventIndex

def bridgeBurnRef [Platform] (input : BurnInput) : Id := Platform.sha3 input.encode

def recordOutstandingBurn (burnRef : Id) (record : OutstandingBurn) : LedgerM Unit :=
  put (.bridgeOutstanding burnRef) record

def consumeOutstandingBurn (burnRef : Id) : LedgerM Unit := do
  let _ ← delete (.bridgeOutstanding burnRef)

def markBridgeExitSettled (burnRef : Id) : LedgerM Unit := put (.bridgeExitSeen burnRef) ()

/-- How many events the block has so far. -/
def eventCount : LedgerM Nat := .read fun view => .done view.events.length

@[simp] theorem ensures_eventCount {ledger : Ledger} {post : Nat → Ledger → Prop} :
    Transaction.Ensures ledger eventCount post ↔ post ledger.events.length ledger :=
  Transaction.ensures_of_plain rfl

def bridgeBurn [Platform] (assetId : AssetId) (holder : Id) (amount : U128) (destination : Id)
    (chainId senderNonce : U64) : LedgerM Bool := do
  if amount = 0 then return false
  let state ← leaves
  let some asset := state.bridgedAsset assetId | return false
  let balance := state.bridgedBalance assetId holder
  if balance < amount then return false
  let some newSupply := asset.supply.checkedSub amount | return false
  setBridgedBalance assetId holder (balance.satSub amount)
  setBridgedAsset assetId { asset with supply := newSupply }
  let eventIndex : U64 := Word.clamp 64 (← eventCount)
  let state ← leaves
  let burnRef := bridgeBurnRef
    { chainId, genesis := state.chainGenesisHash, assetId, holder, amount, destination, senderNonce,
      eventIndex }
  recordOutstandingBurn burnRef { assetId, amount, beneficiary := holder, destination }
  recordBridgeBurnEvent assetId holder amount destination chainId senderNonce eventIndex burnRef
  emitSide (.bridgeBurn assetId holder amount destination chainId burnRef)
  return true

/-- What the end of a burn needs: the vault and the asset, while exits are open and the burn is
outstanding. -/
def Leaves.exitTerms (state : Leaves) (fact : ExitFact) : Option (Id × QAsset) :=
  if !state.bridgeExitsEnabled || state.bridgeIsFrozen || fact.amount == 0 ||
      state.bridgeExitSettled fact.burnRef || !state.outstandingBurnMatches fact then none
  else do
    let vault ← state.bridgePoolVault
    let asset ← state.bridgedAsset fact.assetId
    return (vault, asset)

def bridgeSettle (fact : ExitFact) : LedgerM Bool := do
  let state ← leaves
  let some (vault, asset) := state.exitTerms fact | return false
  let some held := (state.bridgeVaultCustody vault fact.assetId).checkedSub fact.amount
    | return false
  if held < asset.supply then return false
  markBridgeExitSettled fact.burnRef
  consumeOutstandingBurn fact.burnRef
  setBridgeVaultCustody vault fact.assetId held
  recordBridgeSettleEvent fact.assetId fact.destination fact.amount fact.burnRef
  emitSide (.bridgeSettle fact.assetId fact.destination fact.amount fact.burnRef)
  return true

def bridgeSlash (fact : ExitFact) : LedgerM Bool := do
  let state ← leaves
  let some (vault, asset) := state.exitTerms fact | return false
  let epoch := state.bridgeEpoch
  let some newAssetPaid := (state.bridgeEpochPaid fact.assetId epoch).checkedAdd fact.amount
    | return false
  if asset.epochCap < newAssetPaid then return false
  let some newGlobalPaid := (state.bridgeEpochPaidGlobal epoch).checkedAdd fact.amount
    | return false
  if state.bridgePayoutCap < newGlobalPaid then return false
  let some newSupply := asset.supply.checkedAdd fact.amount | return false
  if asset.cap < newSupply then return false
  if state.bridgeVaultCustody vault fact.assetId < newSupply then return false
  let some credited := (state.bridgedBalance fact.assetId fact.holder).checkedAdd fact.amount
    | return false
  markBridgeExitSettled fact.burnRef
  consumeOutstandingBurn fact.burnRef
  setBridgedBalance fact.assetId fact.holder credited
  setBridgedAsset fact.assetId { asset with supply := newSupply }
  put (.bridgeEpochpay fact.assetId epoch) newAssetPaid
  put (.bridgeEpochpayGlobal epoch) newGlobalPaid
  recordBridgeSlashEvent fact.assetId fact.holder fact.amount fact.burnRef
  emitSide (.bridgeSlash fact.assetId fact.holder fact.amount fact.burnRef)
  return true

/-! ## Assets that contracts issue -/

def setAssetBalance (assetId : AssetId) (holder : Id) (amount : U128) : LedgerM Unit :=
  put (.assetBalance assetId holder) amount

def setAssetSupply (assetId : AssetId) (supply : U128) : LedgerM Unit :=
  put (.assetSupply assetId) supply

def creditAsset (assetId : AssetId) (holder : Id) (amount : U128) : LedgerM Bool := do
  let state ← leaves
  let some updated := (state.assetBalance assetId holder).checkedAdd amount | return false
  setAssetBalance assetId holder updated
  return true

def debitAsset (assetId : AssetId) (holder : Id) (amount : U128) : LedgerM Bool := do
  let state ← leaves
  let some updated := (state.assetBalance assetId holder).checkedSub amount | return false
  setAssetBalance assetId holder updated
  return true

def mintAsset [Platform] (issuer holder : Id) (amount : U128) : LedgerM Bool := do
  if amount = 0 then return false
  let assetId := assetIdOf issuer
  let state ← leaves
  let some supply := (state.assetSupply assetId).checkedAdd amount | return false
  if !(← creditAsset assetId holder amount) then return false
  setAssetSupply assetId supply
  return true

end QuantovaChain.Ledger
