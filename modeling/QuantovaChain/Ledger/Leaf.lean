import Mathlib.Data.Finmap
import QuantovaChain.Library.Total
import QuantovaChain.Library.Totals
import QuantovaChain.Staking
import QuantovaChain.Bridge

/-!
# The leaves of the ledger

The state trie holds one leaf for each account, bond, referendum and so on, under the hash of a tag
and the arguments. Here a leaf is named by its tag and arguments, and its value is the record that
the bytes encode. A leaf that the source clears by writing empty bytes stays present and holds
`none`; this matters, because the count of fresh leaves is a count of absent ones.
-/

namespace QuantovaChain

namespace Ledger

open State (Bytes Hash)
open Idfmt (Text)
open Governance Staking
open Bridge (OperatorSet)

/-- An account by the text that names it: a text that parses names its payload. -/
inductive AccountRef
  | parsed (payload : Id)
  | unparsed (text : Text)
  deriving DecidableEq, Repr

structure Account where
  nonce : U64
  balance : U64
  scheme : UInt8
  publicKey : Bytes
  deriving DecidableEq, Repr

instance : Inhabited Account := ⟨⟨0, 0, 0, []⟩⟩

def Account.hasKey (account : Account) : Bool := !account.publicKey.isEmpty

structure QAsset where
  supply : U128
  cap : U128
  epochCap : U128
  requiresStark : Bool
  deriving DecidableEq, Repr

structure OutstandingBurn where
  assetId : AssetId
  amount : U128
  beneficiary : Id
  destination : Id
  deriving DecidableEq, Repr

/-- The leaves, by the tags of the source. -/
inductive LeafKey
  | account (ref : AccountRef)
  | stakeBond (id : Id)
  | stakeRewards (id : Id)
  | stakePayee (id : Id)
  | stakeBanned (id : Id)
  | stakeAttest (id : Id)
  | stakePool
  | stakeTreasury
  | supply
  | stakePrice
  | stakeMainnet
  | stakeMeter
  | stakeValidators
  | stakeTotal
  | stakeTotalActive
  | stakeTotalRaised
  | bridgeAsset (assetId : AssetId)
  | bridgeBalance (assetId : AssetId) (holder : Id)
  | assetBalance (assetId : AssetId) (holder : Id)
  | assetSupply (assetId : AssetId)
  | assetMintCeiling (assetId : AssetId)
  | bridgeSeen (sourceChain : U32) (sourceRef : Id)
  | bridgeEpochmint (assetId : AssetId) (epoch : U64)
  | bridgeVaultCustody (vault : Id) (assetId : AssetId)
  | bridgeExitSeen (burnRef : Id)
  | bridgeOutstanding (burnRef : Id)
  | bridgeEpochpay (assetId : AssetId) (epoch : U64)
  | bridgeEpochpayGlobal (epoch : U64)
  | bridgeOperators
  | bridgeAssetList
  | bridgeDestChain
  | bridgeEra
  | bridgeEpoch
  | bridgeFreeze
  | bridgeLastLift
  | bridgeLastFreezer
  | bridgeVault
  | bridgeGateway
  | bridgeExits
  | bridgeExitMax
  | bridgeFederated
  | bridgePayoutCap
  | chainGenesisHash
  | guardianEnactNonce
  | guardianPendingEnact
  | govNext
  | govLocked
  | govReferendum (id : U64)
  | govAction (id : U64)
  | govDeposit (code : UInt8)
  | govElectorate (id : U64)
  | govBallot (referendum : U64) (voter : Id)
  | govLock (voter : Id)
  | govBlacklist (id : Id)
  | govFreeze (id : Id)
  | govStoppedAsset (assetId : AssetId)
  | govFeature (feature : Bytes)
  | govGuardians
  | govGuardianEpoch
  | govGuardianFreezeTargets
  | govReceipt (id : U64)
  | govMintPeriod (period : U64)
  | contractCode (id : Id)
  | contractContextVersion (id : Id)
  | contractSlot (id : Id) (slot : Slot)
  deriving DecidableEq

/-- What a leaf holds. -/
@[reducible] def LeafValue : LeafKey → Type
  | .account _ => Account
  | .stakeBond _ => Option Bond
  | .stakeRewards _ => Option RewardBook
  | .stakePayee _ => Id
  | .stakeBanned _ => Unit
  | .stakeAttest _ => Bytes
  | .stakePool | .stakeTreasury | .supply | .stakeMainnet => U64
  | .stakePrice => U128
  | .stakeMeter => SessionMeter
  | .stakeValidators => List Id
  | .stakeTotal | .stakeTotalActive | .stakeTotalRaised => U64
  | .bridgeAsset _ => QAsset
  | .bridgeBalance .. | .assetBalance .. | .assetSupply _ | .assetMintCeiling _ => U128
  | .bridgeSeen .. => Unit
  | .bridgeEpochmint .. | .bridgeVaultCustody .. => U128
  | .bridgeExitSeen _ => Unit
  | .bridgeOutstanding _ => OutstandingBurn
  | .bridgeEpochpay .. | .bridgeEpochpayGlobal _ => U128
  | .bridgeOperators => OperatorSet
  | .bridgeAssetList => List AssetId
  | .bridgeDestChain => U32
  | .bridgeEra => Hash
  | .bridgeEpoch => U64
  | .bridgeFreeze => Option BridgeFreeze
  | .bridgeLastLift => U64
  | .bridgeLastFreezer | .bridgeVault | .bridgeGateway => Id
  | .bridgeExits | .bridgeFederated => Bool
  | .bridgeExitMax | .bridgePayoutCap => U128
  | .chainGenesisHash => Hash
  | .guardianEnactNonce => U64
  | .guardianPendingEnact => Option (U64 × Bytes)
  | .govNext => U64
  | .govLocked => U128
  | .govReferendum _ => Referendum
  | .govAction _ => Option Action
  | .govDeposit _ | .govElectorate _ => U64
  | .govBallot .. => Ballot
  | .govLock _ => Option Lock
  | .govBlacklist _ => Unit
  | .govFreeze _ | .govStoppedAsset _ => Bool
  | .govFeature _ => U64
  | .govGuardians => GuardianSet
  | .govGuardianEpoch => U64
  | .govGuardianFreezeTargets => List (Id × U64)
  | .govReceipt _ => EnactmentReceipt
  | .govMintPeriod _ => U128
  | .contractCode _ => Bytes
  | .contractContextVersion _ | .contractSlot .. => U64

/-- The store of leaves. -/
abbrev Store := Finmap LeafValue

instance : Transaction.KeyedStore Store LeafKey LeafValue where
  get store key := store.lookup key
  insert store key value := store.insert key value
  remove store key := store.erase key
  get_insert_self store _ _ := Finmap.lookup_insert store
  get_insert_ne store _ _ _ apart := Finmap.lookup_insert_of_ne store (Ne.symm apart)
  get_remove_self store key := Finmap.lookup_erase key store
  get_remove_ne _ _ _ apart := Finmap.lookup_erase_ne (Ne.symm apart)

instance : Transaction.FiniteStore Store LeafKey LeafValue where
  keys store := store.keys
  mem_keys store key := by
    rw [Finmap.mem_keys, ← Finmap.lookup_isSome]
    rfl

structure BlockEvent where
  contract : Text
  selector : Selector
  data : Bytes
  tx : Text
  deriving DecidableEq, Repr

/-- The side events, by how texts, counts and rules are held: in the ledger, or as read from a
record. -/
inductive SideEventOf (Text Count Rule : Type)
  | govPropose (referendum : U64) (proposer : Text) (track : UInt8) (action : Text) (deposit : U64)
  | govVote (referendum : U64) (voter : Text) (aye : Bool) (conviction : UInt8) (stake : U64)
  | govTally (referendum : U64) (status : Text) (ayeStake nayStake : U128)
  | govEnact (referendum : U64) (action : Text) (proposalHash : Hash)
  | mint (recipient : Text) (amount : U64)
  | spend (source recipient : Text) (amount : U64)
  | parameter (key value : Bytes)
  | blacklist (target : Text)
  | freeze (target : Text)
  | unfreeze (target : Text)
  | recoverySeizure (victim source : Text) (amount : U64) (scope : Hash)
  | recoveryCredit (victim : Text) (amount : U64) (scope : Hash)
  | guardianFreeze (target : Text) (bound : U64)
  | guardianRotate (size : Count) (threshold : U32)
  | committeeRotate (operators : Count) (threshold : U32)
  | operatorRevoke (operatorId : U32)
  | assetRegister (assetId : AssetId) (cap epochCap : U128) (requiresStark : Bool)
  | epochAdvance (epoch : U64)
  | activate (feature : Bytes) (version : U64)
  | bridgeMigration (vault : Text)
  | bridgeUnfreeze
  | bond (validator : Text) (amount fee : U64)
  | unbond (validator : Text) (amount : U64)
  | slash (validator : Text) (amount : U64) (disposition : Text)
  | reward (validator : Text) (amount : U64)
  | rewardClaim (validator : Text) (amount : U64)
  | contractTransfer (contract recipient : Text) (amount : U64)
  | bridgeMint (assetId : AssetId) (recipient : Id) (amount : U128)
  | bridgeBurn (assetId : AssetId) (holder : Id) (amount : U128) (destination : Id) (chainId : U64)
      (burnRef : Id)
  | bridgeSettle (assetId : AssetId) (beneficiary : Id) (amount : U128) (burnRef : Id)
  | bridgeSlash (assetId : AssetId) (beneficiary : Id) (amount : U128) (burnRef : Id)
  | callFailed (tx contract : Text) (selector : Selector) (rule : Rule) (line : U32)
  deriving DecidableEq, Repr

abbrev SideEvent := SideEventOf Text Nat Rule

/-- The fields of the ledger that a failed transaction does not restore. -/
structure Residue where
  callFailure : Option (Rule × U32)
  lastVmMeterUsed : U64
  lastVmCallCost : Option U64
  vmDeployArmed : Bool
  deriving DecidableEq, Repr

/-- The fields of the ledger that stay fixed while a transaction runs. -/
structure Context where
  roundProposer : Option Text
  executionHeight : U64
  heightsPerEpoch : U64
  currentTx : Text
  deriving DecidableEq, Repr

def Context.currentEpoch (context : Context) : U64 :=
  context.executionHeight.div context.heightsPerEpoch

/-- Programs over the ledger. -/
abbrev LedgerM := Transaction.Program LeafKey LeafValue BlockEvent SideEvent Residue

end Ledger

/-- The leaves with the events of the block and the counters around them. -/
abbrev Ledger := Transaction.State Ledger.Store Ledger.LeafKey Ledger.LeafValue Ledger.BlockEvent
  Ledger.SideEvent Ledger.Residue

namespace Ledger

/-- The leaves as a read only map. -/
abbrev Leaves := (key : LeafKey) → Option (LeafValue key)

/-- A ledger without leaves or events. -/
def emptyLedger : Ledger where
  store := ∅
  events := []
  sideEvents := []
  fresh := 0
  ceiling := none
  journal := none
  extra := ⟨none, 0, none, false⟩

@[simp] theorem get_emptyLedger (key : LeafKey) : emptyLedger.get key = none := rfl

/-- Reads the leaves. -/
def leaves : LedgerM Leaves := .read fun view => .done view.leaf

/-- Reads the fields that transactions do not restore. -/
def residue : LedgerM Residue := .read fun view => .done view.extra

/-- Reading the leaves gives them as they are and changes nothing. -/
@[simp] theorem ensures_leaves {ledger : Ledger} {post : Leaves → Ledger → Prop} :
    Transaction.Ensures ledger leaves post ↔ post ledger.get ledger :=
  Transaction.ensures_of_plain rfl

/-- Reading the leaves never panics. -/
@[simp] theorem returns_leaves {ledger : Ledger} {post : Leaves → Ledger → Prop} :
    Transaction.Returns ledger leaves post ↔ post ledger.get ledger :=
  Transaction.returns_of_plain rfl

@[simp] theorem ensures_residue {ledger : Ledger} {post : Residue → Ledger → Prop} :
    Transaction.Ensures ledger residue post ↔ post ledger.extra ledger :=
  Transaction.ensures_of_plain rfl

end Ledger

end QuantovaChain
