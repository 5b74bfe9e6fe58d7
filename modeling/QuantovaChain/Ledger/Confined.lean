import QuantovaChain.Ledger.Footprint
import QuantovaChain.Ledger.Govern
import QuantovaChain.Ledger.Contract

/-!
# What the operations may write

For each operation on the ledger, the regions it is confined to. Fees, contract calls and the freeze
of the bridge stay in the region of all other leaves. The operations on bonds add the region of
stakes, rewards and slashes that of the books, those of governance the regions of referenda and
votes, those of the guardians the region of freezes, and those of the bridge the region of bridge
facts. An enacted action may write stakes, votes and freezes, but no referenda and no bridge facts.

The regions are read off the text of an operation: it is taken apart into its steps and branches,
each step being a write to a region at hand or an operation for which the regions are known.
-/

namespace QuantovaChain.Ledger

open State (Bytes Hash)
open Idfmt (Text)
open Governance
open Transaction.Program (emitSide)

variable {regions : List Region} [Listed .other regions]

/-! ## Accounts and fees -/

instance creditAccount_confined (address : Text) (amount : U64) :
    Confined regions (creditAccount address amount) := by
  unfold creditAccount
  repeat' first | infer_instance | split | refine .bind ?_ fun _ => ?_ | exact confined_put

instance creditSupply_confined (amount : U64) : Confined regions (creditSupply amount) := by
  unfold creditSupply
  repeat' first | infer_instance | split | refine .bind ?_ fun _ => ?_ | exact confined_put

instance debitSupply_confined (amount : U64) : Confined regions (debitSupply amount) := by
  unfold debitSupply
  repeat' first | infer_instance | split | refine .bind ?_ fun _ => ?_ | exact confined_put

instance payOut_confined (address : Option Text) (amount : U64) :
    Confined regions (payOut address amount) := by
  unfold payOut
  repeat' first | infer_instance | split | refine .bind ?_ fun _ => ?_ | exact confined_put

instance pay_confined (account : Account) (debit : U64) : Confined regions (account.pay debit) := by
  unfold Account.pay
  repeat' first | infer_instance | refine .bind ?_ fun _ => ?_

instance collectFee_confined [Platform] (context : Context) (fee : U64) :
    Confined regions (collectFee context fee) := by
  unfold collectFee
  repeat' first | infer_instance | split | refine .bind ?_ fun _ => ?_

/-- An operation that takes a fee first finds the leaves that it is about as they were. -/
theorem charged_ensures [Platform] {α : Type} {rest : LedgerM α} {post : α → Ledger → Prop}
    {ledger : Ledger} (region : Region) (apart : region ∉ [Region.other])
    (charged : ∀ paid, SameIn region ledger paid → Transaction.Ensures paid rest post)
    (context : Context) (address : Text) (account : Account) (debit fee : U64) :
    Transaction.Ensures ledger (do
      setAccount address (← account.pay debit)
      collectFee context fee
      rest) post := by
  have fee_confined : Confined [.other] (do
      setAccount address (← account.pay debit)
      collectFee context fee) := by
    repeat' first | infer_instance | refine .bind ?_ fun _ => ?_ | exact confined_put
  have paid := (fee_confined.same ledger apart).mono fun _ paid same => charged paid same
  simp only [Transaction.ensures_bind] at paid ⊢
  exact paid

/-! ## Bonds -/

section Bonds

variable [Listed .stakes regions]

instance creditStaked_confined (context : Context) (amount : U64) :
    Confined regions (creditStaked context amount) := by
  unfold creditStaked
  repeat' first | infer_instance | split | refine .bind ?_ fun _ => ?_ | exact confined_put

instance debitStaked_confined (amount : U64) : Confined regions (debitStaked amount) := by
  unfold debitStaked
  repeat' first | infer_instance | split | refine .bind ?_ fun _ => ?_ | exact confined_put

instance requestStakeExit_confined (context : Context) (address : Text) (nowDay : U64) :
    Confined regions (requestStakeExit context address nowDay) := by
  unfold requestStakeExit
  repeat' first | infer_instance | split | refine .bind ?_ fun _ => ?_ | exact confined_put

instance withdrawStake_confined (address : Text) (nowDay : U64) :
    Confined regions (withdrawStake address nowDay) := by
  unfold withdrawStake
  repeat' first
    | infer_instance | dsimp only | split | refine .bind ?_ fun _ => ?_
    | exact confined_put | exact confined_emit _

instance seizeBond_confined (source : Id) (remaining : U64) :
    Confined regions (seizeBond source remaining) := by
  unfold seizeBond
  repeat' first
    | infer_instance | dsimp only | split | refine .bind ?_ fun _ => ?_ | exact confined_put

end Bonds

/-! ## Rewards -/

instance recordSession_confined (transactions nowDay : U64) :
    Confined regions (recordSession transactions nowDay) := by
  unfold recordSession
  repeat' first | infer_instance | dsimp only | refine .bind ?_ fun _ => ?_ | exact confined_put

section Rewards

variable [Listed .books regions]

instance claimReward_confined (address : Text) (nowDay : U64) :
    Confined regions (claimReward address nowDay) := by
  unfold claimReward
  repeat' first
    | infer_instance | dsimp only | split | refine .bind ?_ fun _ => ?_ | exact confined_put

instance accrueRewardById_confined (context : Context) (nowDay : U64) (id : Id) :
    Confined regions (accrueRewardById context nowDay id) := by
  unfold accrueRewardById bookReward
  repeat' first
    | infer_instance | dsimp only | split | refine .bind ?_ fun _ => ?_ | exact confined_put
    | exact confined_emit _

instance accrueEach_confined (context : Context) (nowDay : U64) (ids : List Id) :
    Confined regions (accrueEach context nowDay ids) := by
  induction ids with
  | nil => exact confined_pure _
  | cons id rest hypothesis =>
    exact .bind inferInstance fun _ => .bind hypothesis fun _ => confined_pure _

end Rewards

/-! ## Freezes -/

section Freezes

variable [Listed .freezes regions]

instance guardianFreezeForget_confined (targets : List Id) :
    Confined regions (guardianFreezeForget targets) := by
  unfold guardianFreezeForget writeGuardianFreezeEntries
  repeat' first | infer_instance | split | refine .bind ?_ fun _ => ?_

variable [Platform]

instance setFrozen_confined (id : Id) : Confined regions (setFrozen id) :=
  confined_put.bind fun _ => confined_put

instance setGovBlacklisted_confined (id : Id) : Confined regions (setGovBlacklisted id) :=
  confined_put.bind fun _ => confined_put

instance clearFrozen_confined (id : Id) : Confined regions (clearFrozen id) := by
  unfold clearFrozen
  repeat' first | infer_instance | split | refine .bind ?_ fun _ => ?_ | exact confined_put

end Freezes

/-! ## Referenda and votes -/

instance govRelease_confined [Listed .votes regions] (voter : Text) (now : U64) :
    Confined regions (govRelease voter now) := by
  unfold govRelease
  repeat' first | infer_instance | split | refine .bind ?_ fun _ => ?_ | exact confined_put

instance seizeLock_confined [Listed .votes regions] (source : Id) (still : U64) :
    Confined regions (seizeLock source still) := by
  unfold seizeLock
  repeat' first
    | infer_instance | dsimp only | split | refine .bind ?_ fun _ => ?_ | exact confined_put

instance seizeAll_confined [Listed .stakes regions] [Listed .votes regions] (victim : Text)
    (scope : Hash) (seizures : List Seizure) (recovered : U64) :
    Confined regions (seizeAll victim scope seizures recovered) := by
  induction seizures generalizing recovered with
  | nil => exact confined_pure _
  | cons seizure rest hypothesis =>
    unfold seizeAll seize
    repeat' first
      | infer_instance | exact hypothesis _ | dsimp only | split
      | refine .bind ?_ fun _ => ?_ | exact confined_put

section Referenda

variable [Listed .referenda regions]

instance govPropose_confined (context : Context) (proposer : Text) (track : Track)
    (action : Action) (now : U64) :
    Confined regions (govPropose context proposer track action now) := by
  unfold govPropose
  repeat' first
    | infer_instance | dsimp only | split | refine .bind ?_ fun _ => ?_ | exact confined_put

instance govConclude_confined (context : Context) (referendumId now : U64) :
    Confined regions (govConclude context referendumId now) := by
  unfold govConclude
  repeat' first
    | infer_instance | dsimp only | split | refine .bind ?_ fun _ => ?_ | exact confined_put

end Referenda

/-! ## Actions -/

/-- Whether an action recovers what was taken from an account. -/
def recovers : Action → Bool
  | .freezeRecovery .. => true
  | _ => false

/-- Whether an action freezes, unfreezes or blacklists accounts, or recovers from them. -/
def marksAccounts : Action → Bool
  | .freeze _ | .unfreeze _ | .blacklist _ | .freezeRecovery .. => true
  | _ => false

instance govUnfreezeBridge_confined [Platform] (now : U64) :
    Confined regions (govUnfreezeBridge now) := by
  unfold govUnfreezeBridge liftBridgeFreeze
  repeat' first
    | infer_instance | dsimp only | split | refine .bind ?_ fun _ => ?_ | exact confined_put

instance migrateBridge_confined (vault : Id) : Confined regions (migrateBridge vault) := by
  unfold migrateBridge
  repeat' first
    | infer_instance | dsimp only | split | refine .bind ?_ fun _ => ?_ | exact confined_put
    | refine @confined_each _ _ _ _ fun _ => ?_

section Actions

variable [Platform]

/-- Actions that name no account to freeze, blacklist or recover from. -/
theorem executeAction_elsewhere {action : Action} (elsewhere : marksAccounts action = false)
    (now chainId : U64) : Confined regions (executeAction action now chainId) := by
  refine confined_leaves.bind fun _ => ?_
  cases action
  case freeze | unfreeze | blacklist | freezeRecovery => cases elsewhere
  all_goals
    dsimp only [enactMint, applyParameter, enactSpend, enactRotation, enactRegister,
      registerBridgedAsset, recordBridgeAssetId, seedBridgeOperatorSet]
    repeat' first
      | infer_instance | dsimp only | split | refine .bind ?_ fun _ => ?_
      | exact confined_put | exact confined_emit _

variable [Listed .freezes regions]

instance freezeAll_confined {action : Id → LedgerM Unit} (event : Text → SideEvent)
    (targets : List Bytes) [∀ id, Confined regions (action id)] :
    Confined regions (freezeAll action event targets) :=
  @confined_each _ _ _ _ fun _ => .bind inferInstance fun _ => confined_emitSide _

/-- Actions that recover nothing. -/
theorem executeAction_marking {action : Action} (marking : recovers action = false)
    (now chainId : U64) : Confined regions (executeAction action now chainId) := by
  cases action
  case freezeRecovery => cases marking
  case freeze | unfreeze | blacklist =>
    unfold executeAction
    repeat' first | infer_instance | refine .bind ?_ fun _ => ?_
  all_goals exact executeAction_elsewhere rfl now chainId

/-- What a recovery does with what it has seized. -/
instance recovered_confined (address : Text) (recovered : U64) (scope : Hash)
    (seizures : List Seizure) : Confined regions (do
      payOut (some address) recovered
      emitSide (.recoveryCredit address recovered scope)
      guardianFreezeForget (seizures.filterMap fun seizure => idFromSlice seizure.source)
      return .ok () : LedgerM Enactment) := by
  repeat' first | infer_instance | refine .bind ?_ fun _ => ?_

variable [Listed .stakes regions] [Listed .votes regions]

instance executeAction_confined (action : Action) (now chainId : U64) :
    Confined regions (executeAction action now chainId) := by
  cases action
  case freezeRecovery =>
    unfold executeAction enactRecovery
    repeat' first | infer_instance | dsimp only | split | refine .bind ?_ fun _ => ?_
  all_goals exact executeAction_marking rfl now chainId

end Actions

/-! ## Bridge facts -/

instance creditVaultCustody_confined (assetId : AssetId) (amount : U128) :
    Confined regions (creditVaultCustody assetId amount) := by
  unfold creditVaultCustody
  repeat' first | infer_instance | split | refine .bind ?_ fun _ => ?_ | exact confined_put

instance eventCount_confined : Confined regions eventCount := ⟨fun _ => trivial⟩

instance consumeOutstandingBurn_confined [Listed .bridgeFacts regions] (burnRef : Id) :
    Confined regions (consumeOutstandingBurn burnRef) :=
  confined_delete.bind fun _ => confined_pure _

end QuantovaChain.Ledger
