import QuantovaChain.Ledger.Footprint
import QuantovaChain.Node.Vm

/-!
# A failed contract transaction

A contract transaction pays before it runs, and a run that fails must leave nothing else behind. On
some paths that is the work of a rollback, on others code and ceiling were already written and are
cleared by hand, and the fee of a deployment is paid back. What remains of any failed run is the
network fee, the nonce and one note of the failure.

The programs that move coins are given here as functions on the leaves. Credits commute, which is
what makes the rules that collect the fee before the run agree with those that collect it after.
-/

namespace QuantovaChain.Node

open State (Bytes)
open Idfmt (Text)
open Tx (Wrapper)
open Governance (Id)
open Ledger
open Transaction Transaction.State Leaves
open Transaction.Program (attempt)

/-! ## Leaves after a program -/

theorem get_write_eq (ledger : Ledger) (key : LeafKey) (value : LeafValue key) :
    (ledger.write key value).get = Function.update ledger.get key (some value) := by
  funext other
  by_cases here : other = key
  · subst here
    rw [get_write_self, Function.update_self]
  · rw [get_write_ne _ (Ne.symm here), Function.update_of_ne here]

theorem get_erase_eq (ledger : Ledger) (key : LeafKey) :
    (ledger.erase key).get = Function.update ledger.get key none := by
  funext other
  by_cases here : other = key
  · subst here
    rw [get_erase_self, Function.update_self]
  · rw [get_erase_ne (Ne.symm here), Function.update_of_ne here]

/-- A program changed the leaves in one way, and recorded nothing. -/
structure Changes (change : Leaves → Leaves) (before after : Ledger) : Prop where
  leaves : after.get = change before.get
  events : after.events = before.events
  sideEvents : after.sideEvents = before.sideEvents

/-- A program changed and recorded nothing. -/
abbrev Idle (before after : Ledger) : Prop := Changes (fun state => state) before after

namespace Changes

variable {first second : Leaves → Leaves} {before middle after : Ledger}

theorem refl (ledger : Ledger) : Idle ledger ledger := ⟨rfl, rfl, rfl⟩

theorem trans (earlier : Changes first before middle) (later : Changes second middle after) :
    Changes (second ∘ first) before after :=
  ⟨by rw [later.leaves, earlier.leaves]; rfl, later.events.trans earlier.events,
    later.sideEvents.trans earlier.sideEvents⟩

end Changes

/-- The leaves after an account was credited. -/
def credited (address : Text) (amount : U64) (state : Leaves) : Leaves :=
  if amount = 0 then state
  else Function.update state (.account (accountRef address))
    (some { state.account address with balance := (state.account address).balance.satAdd amount })

/-- The leaves after coins were burnt. -/
def burnt (amount : U64) (state : Leaves) : Leaves :=
  if amount = 0 then state
  else Function.update state .supply (some (state.totalSupply.satSub amount))

theorem creditAccount_changes (ledger : Ledger) (address : Text) (amount : U64) :
    Ensures ledger (creditAccount address amount) fun _ after =>
      Changes (credited address amount) ledger after := by
  unfold creditAccount credited
  split
  · exact ensures_pure.mpr (.refl ledger)
  · simp only [ensures_bind, ensures_leaves, setAccount, ensures_put]
    exact ⟨get_write_eq ledger _ _, rfl, rfl⟩

theorem debitSupply_changes (ledger : Ledger) (amount : U64) :
    Ensures ledger (debitSupply amount) fun _ after => Changes (burnt amount) ledger after := by
  unfold debitSupply burnt
  split
  · exact ensures_pure.mpr (.refl ledger)
  · simp only [ensures_bind, ensures_leaves, setTotalSupply, ensures_put]
    exact ⟨get_write_eq ledger _ _, rfl, rfl⟩

theorem satAdd_comm_right {w : Nat} (first second third : Word w) :
    (first.satAdd second).satAdd third = (first.satAdd third).satAdd second := by
  ext
  simp only [Word.val_satAdd]
  omega

variable {state : Leaves} {address other : Text}

theorem account_update_ne {value : Account} (apart : accountRef address ≠ accountRef other) :
    Leaves.account (Function.update state (.account (accountRef address)) (some value)) other =
      state.account other := by
  unfold Leaves.account
  rw [Function.update_of_ne (by simpa using Ne.symm apart)]

theorem account_update_self {value : Account} (same : accountRef address = accountRef other) :
    Leaves.account (Function.update state (.account (accountRef address)) (some value)) other =
      value := by
  unfold Leaves.account
  rw [← same, Function.update_self]
  rfl

theorem account_congr
    (same : accountRef address = accountRef other) : state.account address = state.account other := by
  unfold Leaves.account
  rw [same]

/-- Credits commute, also to one account. -/
theorem credited_comm (address other : Text) (amount more : U64) (state : Leaves) :
    credited address amount (credited other more state) =
      credited other more (credited address amount state) := by
  unfold credited
  by_cases nothing : amount = 0
  · rw [if_pos nothing, if_pos nothing]
  by_cases noMore : more = 0
  · rw [if_pos noMore, if_pos noMore]
  rw [if_neg nothing, if_neg noMore, if_neg nothing, if_neg noMore]
  by_cases same : accountRef address = accountRef other
  · rw [account_update_self same, account_update_self same.symm, same, Function.update_idem,
      Function.update_idem, account_congr same]
    simp only [satAdd_comm_right (state.account other).balance amount more]
  · rw [account_update_ne same, account_update_ne (Ne.symm same),
      Function.update_comm (by simpa using Ne.symm same)]

theorem credited_burnt (address : Text) (amount less : U64) (state : Leaves) :
    credited address amount (burnt less state) = burnt less (credited address amount state) := by
  unfold credited burnt
  split
  · rfl
  split
  · rfl
  · unfold Leaves.account totalSupply
    rw [Function.update_of_ne (by simp), Function.update_of_ne (by simp),
      Function.update_comm (by simp)]

theorem armVmMeter_idle (ledger : Ledger) (declared : U64) :
    Ensures ledger (armVmMeter declared) fun _ after => Idle ledger after := by
  simp only [armVmMeter, ensures_bind, ensures_residue, ensures_leave]
  exact ⟨rfl, rfl, rfl⟩

theorem armVmMeterDeploy_idle (ledger : Ledger) (cost : U64) :
    Ensures ledger (armVmMeterDeploy cost) fun _ after => Idle ledger after := by
  simp only [armVmMeterDeploy, ensures_bind, ensures_residue, ensures_leave]
  exact ⟨rfl, rfl, rfl⟩

theorem noteFailure_idle (ledger : Ledger) (contract : Text) (selector : Selector) :
    Ensures ledger (noteFailure contract selector) fun _ after => Idle ledger after := by
  simp only [noteFailure, takeCallFailure, ensures_bind, ensures_residue, ensures_leave,
    ensures_pure]
  exact ⟨rfl, rfl, rfl⟩

section Vm

variable [Platform]

/-- The leaves after a fee was collected. -/
def feeCollected (context : Context) (fee : U64) (state : Leaves) : Leaves :=
  if fee = 0 then state
  else burnt (FeeSplit.of fee).burn (credited grantsAddress (FeeSplit.of fee).grants
    (credited (context.roundProposer.getD grantsAddress) (FeeSplit.of fee).proposer state))

theorem collectFee_changes (ledger : Ledger) (context : Context) (fee : U64) :
    Ensures ledger (collectFee context fee) fun _ after =>
      Changes (feeCollected context fee) ledger after := by
  unfold collectFee feeCollected
  split
  · exact ensures_pure.mpr (.refl ledger)
  refine (creditAccount_changes ledger _ _).bind fun _ _ first => ?_
  refine (creditAccount_changes _ _ _).bind fun _ _ second => ?_
  exact (debitSupply_changes _ _).mono fun _ _ third => (first.trans second).trans third

theorem credited_feeCollected (address : Text) (amount : U64) (context : Context) (fee : U64)
    (state : Leaves) :
    credited address amount (feeCollected context fee state) =
      feeCollected context fee (credited address amount state) := by
  unfold feeCollected
  split
  · rfl
  · rw [credited_burnt, credited_comm, credited_comm address]

/-! ## A failed run -/

/-- The contract that a deployment by a sender creates has no leaves yet. -/
def Vacant (sender : Text) (nonce : U64) (state : Leaves) : Prop :=
  ∀ contract id, contractAddress sender nonce = some contract → addressId contract = some id →
    state (.contractCode id) = none ∧ state (.contractContextVersion id) = none ∧
      state (.assetMintCeiling (assetIdOf id)) = none

/-- The leaves that a deployment writes for the contract it creates. -/
def contractKeys (id : Id) (key : LeafKey) : Bool :=
  key = .contractCode id || key = .contractContextVersion id ||
    key = .assetMintCeiling (assetIdOf id)

/-- Besides the leaves of one contract, nothing has changed or was recorded. -/
structure Deploying (id : Id) (before after : Ledger) : Prop where
  leaves : Untouched (contractKeys id) before after
  events : after.events = before.events
  sideEvents : after.sideEvents = before.sideEvents

variable {ledger before middle after : Ledger} {id : Id}

theorem Deploying.refl (id : Id) (ledger : Ledger) : Deploying id ledger ledger :=
  ⟨fun _ _ => rfl, rfl, rfl⟩

theorem Deploying.trans (first : Deploying id before middle) (second : Deploying id middle after) :
    Deploying id before after :=
  ⟨first.leaves.trans second.leaves, second.events.trans first.events,
    second.sideEvents.trans first.sideEvents⟩

theorem Deploying.write {key : LeafKey} (inside : contractKeys id key = true)
    (value : LeafValue key) : Deploying id ledger (ledger.write key value) :=
  ⟨untouched_write key inside value, rfl, rfl⟩

theorem contractKeys_code (id : Id) : contractKeys id (.contractCode id) = true := by
  simp [contractKeys]

theorem contractKeys_version (id : Id) : contractKeys id (.contractContextVersion id) = true := by
  simp [contractKeys]

theorem contractKeys_ceiling (id : Id) :
    contractKeys id (.assetMintCeiling (assetIdOf id)) = true := by
  simp [contractKeys]

theorem deployContractUnder_spec (deployer : Text) (nonce : U64) (code : Bytes)
    (legacyTestnetKey mainnet : Bool) :
    Ensures ledger (deployContractUnder deployer nonce code legacyTestnetKey mainnet)
      fun found after => match found with
        | none => Idle ledger after
        | some contract => ∃ id, contractAddress deployer nonce = some contract ∧
            addressId contract = some id ∧ Deploying id ledger after := by
  unfold deployContractUnder
  split
  swap
  · exact ensures_pure.mpr (.refl ledger)
  split
  swap
  · exact ensures_pure.mpr (.refl ledger)
  next contract addressed =>
  split
  swap
  · exact ensures_pure.mpr (.refl ledger)
  next id parsed =>
  simp only [setContractCode, ensures_bind, ensures_put, ensures_pure]
  exact ⟨id, addressed, parsed, (Deploying.write (contractKeys_code id) _).trans
    (.write (contractKeys_version id) _)⟩

theorem declareMintCeiling_spec {contract : Text} (parsed : addressId contract = some id)
    (ceiling : U128) :
    Ensures ledger (declareMintCeiling contract ceiling) fun _ after => Deploying id ledger after := by
  unfold declareMintCeiling
  rw [parsed]
  simp only [ensures_bind, ensures_leaves]
  split
  · exact ensures_pure.mpr (.refl id ledger)
  · simp only [ensures_bind, ensures_put, ensures_pure]
    exact .write (contractKeys_ceiling id) _

/-- Clearing a contract that had no leaves takes everything back. -/
theorem clearContractCode_spec {contract : Text} (parsed : addressId contract = some id)
    (deploying : Deploying id before ledger)
    (vacant : ∀ key, contractKeys id key = true → before.get key = none) :
    Ensures ledger (clearContractCode contract) fun _ after => Idle before after := by
  unfold clearContractCode
  rw [parsed]
  simp only [ensures_bind, ensures_delete, ensures_pure]
  refine ⟨?_, deploying.events, deploying.sideEvents⟩
  rw [get_erase_eq, get_erase_eq, get_erase_eq]
  funext key
  by_cases inside : contractKeys id key = true
  · rw [vacant key inside]
    unfold contractKeys at inside
    simp only [Bool.or_eq_true, decide_eq_true_eq] at inside
    rcases inside with (rfl | rfl) | rfl
    · rw [Function.update_of_ne (by simp), Function.update_of_ne (by simp), Function.update_self]
    · rw [Function.update_of_ne (by simp), Function.update_self]
    · rw [Function.update_self]
  · have outside : contractKeys id key = false := by simpa using inside
    rw [← deploying.leaves key outside]
    unfold contractKeys at inside
    simp only [Bool.or_eq_true, decide_eq_true_eq, not_or] at inside
    rw [Function.update_of_ne inside.2, Function.update_of_ne inside.1.2,
      Function.update_of_ne inside.1.1]

theorem runCall_failed (context : Context) (wrapper : Wrapper) (params : FeeParams) (now : U64) :
    Ensures ledger (runCall context wrapper params now) fun failed after =>
      failed.isSome → Idle ledger after := by
  unfold runCall
  dsimp only
  split
  · exact ensures_pure.mpr fun _ => .refl ledger
  split
  · exact ensures_pure.mpr fun _ => .refl ledger
  rw [ensures_bind]
  refine ensures_attempt ((ensures_plain _).mono ?_) fun extra => ?_
  · rintro _ ended _ rfl
    rw [if_pos rfl, ensures_pure]
    nofun
  · rw [if_neg Bool.false_ne_true]
    refine (noteFailure_idle _ _ _).mono fun _ after idle _ => ?_
    exact { idle with }

/-- A deployment that fails, at an address without leaves, leaves nothing. -/
theorem runDeploy_failed (context : Context) (wrapper : Wrapper) (nonce : U64) (params : FeeParams)
    (now : U64) (legacy : Bool) (vacant : Vacant wrapper.body.sender nonce ledger.get) :
    Ensures ledger (runDeploy context wrapper nonce params now legacy) fun failed after =>
      failed.isSome → Idle ledger after := by
  unfold runDeploy
  dsimp only
  rcases splitMintCeiling wrapper.body.call.args with ⟨ceiling, framed⟩
  rcases splitDeployArgs framed with ⟨container, parameters⟩
  dsimp only
  split
  · refine (armVmMeter_idle ledger _).bind fun _ after idle => ?_
    exact ensures_pure.mpr fun _ => idle
  refine (armVmMeterDeploy_idle ledger _).bind fun _ armed idle => ?_
  refine (deployContractUnder_spec _ _ _ _ _).bind fun found deployed written => ?_
  cases found with
  | none => exact ensures_pure.mpr fun _ => idle.trans written
  | some contract =>
  obtain ⟨id, addressed, parsed, deploying⟩ := written
  have deploying : Deploying id ledger deployed :=
    .trans ⟨fun key _ => congrFun idle.leaves key, idle.events, idle.sideEvents⟩ deploying
  have empty : ∀ key, contractKeys id key = true → ledger.get key = none := by
    obtain ⟨code, version, roof⟩ := vacant contract id addressed parsed
    intro key inside
    unfold contractKeys at inside
    simp only [Bool.or_eq_true, decide_eq_true_eq] at inside
    rcases inside with (rfl | rfl) | rfl
    · exact code
    · exact version
    · exact roof
  have genesis : ∀ (declared : Ledger) (request : CallRequest), Deploying id ledger declared →
      Ensures declared (do
        let genesisOk ← attempt (runGenesis context request)
        if Platform.declaresGenesis container && !genesisOk then
          clearContractCode contract
          armVmMeter wrapper.body.meterLimit
          noteFailure contract Platform.genesisSelector
        else return none) fun failed after => failed.isSome → Idle ledger after := by
    intro declared request deploying
    rw [ensures_bind]
    refine ensures_attempt ((ensures_plain _).mono ?_) fun extra => ?_
    · rintro _ ended _ rfl
      rw [if_neg (by simp), ensures_pure]
      nofun
    · have restored : Deploying id ledger (declared.withExtra extra) :=
        { deploying with }
      split
      · refine (clearContractCode_spec parsed restored empty).bind fun _ cleared idle => ?_
        refine (armVmMeter_idle cleared _).bind fun _ armed again => ?_
        exact (noteFailure_idle armed _ _).mono fun _ _ noted _ => (idle.trans again).trans noted
      · rw [ensures_pure]
        nofun
  cases ceiling with
  | none => exact genesis deployed _ deploying
  | some ceiling =>
    refine (declareMintCeiling_spec parsed ceiling).bind fun _ declared more => ?_
    exact genesis declared _ (deploying.trans more)

theorem runVm_failed (context : Context) (wrapper : Wrapper) (nonce : U64) (params : FeeParams)
    (now : U64) (legacy : Bool)
    (vacant : isDeploy wrapper = true → Vacant wrapper.body.sender nonce ledger.get) :
    Ensures ledger (runVm context wrapper nonce params now legacy) fun failed after =>
      failed.isSome → Idle ledger after := by
  unfold runVm
  split
  next deploys => exact runDeploy_failed context wrapper nonce params now legacy (vacant deploys)
  · exact runCall_failed context wrapper params now

/-! ## What remains of a failed transaction -/

variable (context : Context) (wrapper : Wrapper) (params : FeeParams)

/-- The part of the charge that pays for a deployment. -/
def deployShare : U64 :=
  if isDeploy wrapper then
    min params.deployFee (vmCharge wrapper.body.meterLimit params (isDeploy wrapper))
  else 0

/-- The part of the charge that goes to the network. -/
def networkFee : U64 :=
  (vmCharge wrapper.body.meterLimit params (isDeploy wrapper)).satSub (deployShare wrapper params)

/-- What a contract transaction does to the account of its sender before it runs. -/
def chargeVm (account : Account) : LedgerM Unit := do
  armVmMeter wrapper.body.meterLimit
  let paid ← account.pay (vmCharge wrapper.body.meterLimit params (isDeploy wrapper))
  setAccount wrapper.body.sender paid
  if legacyVmRules context params then collectFee context (networkFee wrapper params)

/-- What a contract transaction does after it ran. -/
def finishVm (nonce : U64) (failed : Option Failure) : LedgerM Bool := do
  noteCallFailed wrapper failed
  let state ← leaves
  settleDeployFee wrapper.body.sender params (deployShare wrapper params)
    (isDeploy wrapper && (contractAddress wrapper.body.sender nonce).any state.isContract)
  if legacyVmRules context params then return true
  settleVmFee context wrapper.body.sender wrapper.body.meterLimit (networkFee wrapper params) params
  return true

/-- The run reports a failure, on the ledger that was charged for it. -/
def Reports (now : U64) (ledger : Ledger) (failure : Failure) : Prop :=
  ∃ charged after,
    (chargeVm context wrapper params (Leaves.account ledger.get wrapper.body.sender)).plain ledger =
      (some (), charged) ∧
    (runVm context wrapper (Leaves.nonce ledger.get wrapper.body.sender) params now
      (legacyVmRules context params)).plain charged = (some (some failure), after)

omit [Platform] in
/-- A run that returned ended in its last state. -/
theorem plain_returned {α : Type} {program : LedgerM α} {value : α}
    (returned : (program.plain ledger).1 = some value) :
    program.plain ledger = (some value, (program.plain ledger).2) :=
  Prod.ext returned rfl

theorem Reports.of {context : Context} {wrapper : Wrapper} {params : FeeParams} {now : U64}
    {ledger : Ledger} {failure : Failure}
    (charged : ((chargeVm context wrapper params
      (Leaves.account ledger.get wrapper.body.sender)).plain ledger).1 = some ())
    (ran : ((runVm context wrapper (Leaves.nonce ledger.get wrapper.body.sender) params now
      (legacyVmRules context params)).plain ((chargeVm context wrapper params
        (Leaves.account ledger.get wrapper.body.sender)).plain ledger).2).1 = some (some failure)) :
    Reports context wrapper params now ledger failure :=
  ⟨_, _, plain_returned charged, plain_returned ran⟩

/-- The network fee alone: the sender pays it, its nonce is taken, and it is collected. -/
def payNetworkFee : LedgerM Unit := do
  let state ← leaves
  let paid ← (state.account wrapper.body.sender).pay (networkFee wrapper params)
  setAccount wrapper.body.sender paid
  collectFee context (networkFee wrapper params)

theorem vmCharge_eq :
    (networkFee wrapper params).val + (deployShare wrapper params).val =
      (vmCharge wrapper.body.meterLimit params (isDeploy wrapper)).val := by
  unfold networkFee deployShare
  rw [Word.val_satSub]
  split
  · rw [Word.val_min]
    omega
  · rw [Word.val_zero]
    omega

/-- The fee by the meter that was used is the network fee, whatever was used. -/
theorem usedFee_eq (used : U64) :
    min (vmMeterFee used params) (networkFee wrapper params) = networkFee wrapper params := by
  ext
  unfold networkFee deployShare vmCharge vmMeterFee
  rw [Word.val_min, Word.val_satSub]
  split
  · rw [Word.val_min, Word.val_satAdd]
    omega
  · rw [Word.val_zero]
    omega

omit [Platform] in
/-- An account that pays, as the program says. -/
theorem pay_ended {account paid : Account} {debit : U64}
    (pays : (account.pay debit).plain ledger = (some paid, after)) :
    after = ledger ∧ ∃ nonce balance, account.nonce.checkedAdd 1 = some nonce ∧
      account.balance.checkedSub debit = some balance ∧
      paid = { account with nonce, balance } := by
  have ended : Ensures ledger (account.pay debit) fun paid after => after = ledger ∧
      ∃ nonce balance, account.nonce.checkedAdd 1 = some nonce ∧
        account.balance.checkedSub debit = some balance ∧
        paid = { account with nonce, balance } := by
    simp only [Account.pay, ensures_bind, ensures_expect, ensures_pure]
    exact fun nonce next balance rest => ⟨trivial, nonce, balance, next, rest, rfl⟩
  exact ended.ended pays

variable {nonce : U64} {sender : Text}

omit [Platform] in
/-- Paying the whole charge and taking back the share of a deployment is paying the network fee. -/
theorem credited_paid {state : Leaves} {account : Account} {balance left charge share fee : U64}
    (paid : account.balance.checkedSub charge = some balance)
    (rest : account.balance.checkedSub fee = some left) (parts : fee.val + share.val = charge.val) :
    credited sender share (Function.update state (.account (accountRef sender))
        (some { account with nonce, balance })) =
      Function.update state (.account (accountRef sender))
        (some { account with nonce, balance := left }) := by
  have paid := Word.checkedSub_eq_some.mp paid
  have rest := Word.checkedSub_eq_some.mp rest
  have bound := account.balance.bound
  have same : balance.satAdd share = left := by
    ext
    rw [Word.val_satAdd]
    omega
  unfold credited
  split
  next nothing =>
    have zero := congrArg Word.val nothing
    rw [Word.val_zero] at zero
    have equal : balance = left := by
      ext
      omega
    rw [equal]
  · rw [account_update_self rfl, Function.update_idem]
    dsimp only
    rw [same]

theorem chargeVm_touches (account : Account) :
    Touches feeTouches (chargeVm context wrapper params account) := by
  have pays : ∀ account : Account, ∀ debit, Touches feeTouches (account.pay debit) :=
    fun _ _ => Program.within_bind (Program.within_expect _) fun _ =>
      Program.within_bind (Program.within_expect _) fun _ => trivial
  unfold chargeVm
  refine Program.within_bind (fun _ => trivial) fun _ => ?_
  refine Program.within_bind (pays _ _) fun _ => ?_
  refine Program.within_bind ⟨rfl, trivial⟩ fun _ => ?_
  split
  · exact collectFee_touches context _
  · trivial

theorem Vacant.charged (vacant : Vacant sender nonce ledger.get)
    (same : Untouched feeTouches ledger after) : Vacant sender nonce after.get := by
  intro contract id addressed parsed
  rw [same _ rfl, same _ rfl, same _ rfl]
  exact vacant contract id addressed parsed

/-- An address without leaves is no contract. -/
theorem Vacant.undeployed {state : Leaves} (vacant : Vacant sender nonce state) :
    (contractAddress sender nonce).any state.isContract = false := by
  cases addressed : contractAddress sender nonce with
  | none => rfl
  | some contract =>
    rw [Option.any_some, Leaves.isContract]
    cases parsed : addressId contract with
    | none => rfl
    | some id =>
      rw [Option.bind_some, contractCode, (vacant contract id addressed parsed).1]
      rfl

omit [Platform] in
theorem settleDeployFee_refund (ledger : Ledger) (sender : Text) (params : FeeParams) (fee : U64) :
    Ensures ledger (settleDeployFee sender params fee false) fun _ after =>
      Changes (credited sender fee) ledger after := by
  unfold settleDeployFee credited
  split
  · exact ensures_pure.mpr (.refl ledger)
  · simp only [ensures_bind, ensures_leaves, setAccount, ensures_put]
    exact ⟨get_write_eq ledger _ _, rfl, rfl⟩

theorem settleVmFee_whole (ledger : Ledger) (context : Context) (wrapper : Wrapper)
    (params : FeeParams) :
    Ensures ledger (settleVmFee context wrapper.body.sender wrapper.body.meterLimit
      (networkFee wrapper params) params) fun _ after =>
        Changes (feeCollected context (networkFee wrapper params)) ledger after := by
  unfold settleVmFee
  rw [ensures_bind, ensures_residue]
  dsimp only
  rw [usedFee_eq]
  have nothing : (networkFee wrapper params).satSub (networkFee wrapper params) = 0 := by
    ext
    rw [Word.val_satSub, Word.val_zero, Nat.sub_self]
  rw [nothing]
  refine (creditAccount_changes ledger wrapper.body.sender 0).bind fun _ middle idle => ?_
  exact (collectFee_changes middle context _).mono fun _ _ collected => idle.trans collected

/-- The leaves after the network fee alone. -/
theorem payNetworkFee_spec (ledger : Ledger) (context : Context) (wrapper : Wrapper)
    (params : FeeParams) {left : U64}
    (next : (Leaves.account ledger.get wrapper.body.sender).nonce.checkedAdd 1 = some nonce)
    (rest : (Leaves.account ledger.get wrapper.body.sender).balance.checkedSub
      (networkFee wrapper params) = some left) :
    ∃ paid, (payNetworkFee context wrapper params).plain ledger = (some (), paid) ∧
      paid.get = feeCollected context (networkFee wrapper params)
        (Function.update ledger.get (.account (accountRef wrapper.body.sender))
          (some { Leaves.account ledger.get wrapper.body.sender with nonce, balance := left })) := by
  let charged := ledger.write (.account (accountRef wrapper.body.sender))
    { Leaves.account ledger.get wrapper.body.sender with nonce, balance := left }
  have runs : (payNetworkFee context wrapper params).plain ledger =
      (collectFee context (networkFee wrapper params)).plain charged := by
    have pays : (Account.pay (Leaves.account ledger.get wrapper.body.sender)
        (networkFee wrapper params)).plain ledger =
          (some { Leaves.account ledger.get wrapper.body.sender with nonce, balance := left },
            ledger) := by
      unfold Account.pay
      rw [next, rest]
      rfl
    show Program.plain (Account.pay (Leaves.account ledger.get wrapper.body.sender)
      (networkFee wrapper params) >>= _) ledger = _
    rw [Program.bind_eq, Program.plain_bind, pays]
    rfl
  obtain ⟨⟨⟩, ends, _⟩ : Returns charged _ _ := collectFee_returns context (networkFee wrapper params)
  refine ⟨_, runs.trans (Prod.ext ends rfl), ?_⟩
  have collected := (collectFee_changes charged context (networkFee wrapper params)) () ends
  rw [collected.leaves, get_write_eq]

/-- The charge on an account, as a change of the leaves. -/
theorem chargeVm_spec (ledger : Ledger) (context : Context) (wrapper : Wrapper) (params : FeeParams)
    (account : Account) :
    Ensures ledger (chargeVm context wrapper params account) fun _ charged =>
      ∃ nonce balance, account.nonce.checkedAdd 1 = some nonce ∧
        account.balance.checkedSub (vmCharge wrapper.body.meterLimit params (isDeploy wrapper)) =
          some balance ∧
        Changes (fun state => (if legacyVmRules context params then
            feeCollected context (networkFee wrapper params) else fun state => state)
          (Function.update state (.account (accountRef wrapper.body.sender))
            (some { account with nonce, balance }))) ledger charged := by
  unfold chargeVm
  refine (armVmMeter_idle ledger _).bind fun _ armed idle => ?_
  refine (ensures_plain _).bind fun paid same pays => ?_
  obtain ⟨rfl, nonce, balance, next, rest, rfl⟩ := pay_ended pays
  rw [setAccount, ensures_bind, ensures_put]
  have written : Changes (fun state => Function.update state
      (.account (accountRef wrapper.body.sender)) (some { account with nonce, balance })) same
      (same.write (.account (accountRef wrapper.body.sender)) { account with nonce, balance }) :=
    ⟨get_write_eq _ _ _, rfl, rfl⟩
  split
  · exact (collectFee_changes _ context _).mono fun _ _ collected =>
      ⟨nonce, balance, next, rest, (idle.trans written).trans collected⟩
  · exact ensures_pure.mpr ⟨nonce, balance, next, rest, idle.trans written⟩

/-- A contract transaction is refused on the ledger as it is, or charged, run and finished. -/
theorem dispatchVm_ensures (signatureOk : Bool) (params : FeeParams) (now : U64)
    {post : Bool → Ledger → Prop} (refused : post false ledger)
    (ran : Ensures ledger
      (chargeVm context wrapper params (Leaves.account ledger.get wrapper.body.sender))
      fun _ charged => Ensures charged
        (runVm context wrapper (Leaves.nonce ledger.get wrapper.body.sender) params now
          (legacyVmRules context params))
        fun failed later => Ensures later
          (finishVm context wrapper params (Leaves.nonce ledger.get wrapper.body.sender) failed)
          post) :
    Ensures ledger (dispatchVm context wrapper signatureOk params now) post := by
  unfold dispatchVm
  rw [ensures_bind, ensures_leaves]
  dsimp only
  split
  · exact ensures_pure.mpr refused
  split
  · exact ensures_pure.mpr refused
  split
  · exact ensures_pure.mpr refused
  split
  · exact ensures_pure.mpr refused
  unfold chargeVm finishVm at ran
  simp only [ensures_bind] at ran ⊢
  refine ran.mono fun _ armed ran => ran.mono fun paid same ran => ran.mono fun _ charged ran => ?_
  by_cases legacy : legacyVmRules context params
  · simp only [legacy, if_true, ensures_bind] at ran ⊢
    exact ran
  · simp only [legacy, if_false, Bool.false_eq_true, ensures_bind, ensures_pure] at ran ⊢
    exact ran

/-- What follows a failed run: one note, and the fee settled as after a run that deployed nothing.
-/
theorem finishVm_failed (nonce : U64) (failure : Failure)
    (undeployed : (isDeploy wrapper &&
      (contractAddress wrapper.body.sender nonce).any (Leaves.isContract ledger.get)) = false) :
    Ensures ledger (finishVm context wrapper params nonce (some failure)) fun _ after =>
      after.get = (if legacyVmRules context params then fun state => state
          else feeCollected context (networkFee wrapper params))
        (credited wrapper.body.sender (deployShare wrapper params) ledger.get) ∧
      after.events = ledger.events ∧
      after.sideEvents = ledger.sideEvents ++ [.callFailed (wrapper.id Platform.sha3) failure.2.2.1
        failure.2.2.2 failure.1 failure.2.1] := by
  obtain ⟨rule, line, contract, selector⟩ := failure
  unfold finishVm noteCallFailed
  rw [ensures_bind, ensures_emitSide, ensures_bind, ensures_leaves]
  show Ensures _ (settleDeployFee _ _ _ (isDeploy wrapper &&
    (contractAddress wrapper.body.sender nonce).any (Leaves.isContract ledger.get)) >>= _) _
  rw [undeployed]
  refine (settleDeployFee_refund _ _ params _).bind fun _ refunded refunds => ?_
  split
  · exact ensures_pure.mpr ⟨refunds.leaves, refunds.events, refunds.sideEvents⟩
  · refine (settleVmFee_whole refunded context wrapper params).bind fun _ after collects => ?_
    have both := refunds.trans collects
    exact ensures_pure.mpr ⟨both.leaves, both.events, both.sideEvents⟩

/-- A contract transaction that is accepted and whose run fails leaves the network fee, the nonce
and one note of the failure, where the address that a deployment creates has no leaves before. The
run itself leaves nothing, and the charge before it and the settlement after it add up to the fee.
-/
theorem failed_call_costs_fee (context : Context) (wrapper : Wrapper) (signatureOk : Bool)
    (params : FeeParams) (now : U64) {failure : Failure}
    (accepted : (dispatchVm context wrapper signatureOk params now).plain ledger =
      (some true, after))
    (reports : Reports context wrapper params now ledger failure)
    (vacant : isDeploy wrapper = true →
      Vacant wrapper.body.sender (Leaves.nonce ledger.get wrapper.body.sender) ledger.get) :
    ∃ paid, (payNetworkFee context wrapper params).plain ledger = (some (), paid) ∧
      after.get = paid.get ∧ after.events = ledger.events ∧
      after.sideEvents = ledger.sideEvents ++ [.callFailed (wrapper.id Platform.sha3) failure.2.2.1
        failure.2.2.2 failure.1 failure.2.1] := by
  obtain ⟨charged, later, charges, runs⟩ := reports
  obtain ⟨nonce, balance, next, rest, charging⟩ := (chargeVm_spec ledger context wrapper params
    (Leaves.account ledger.get wrapper.body.sender)).ended charges
  have parts := vmCharge_eq wrapper params
  obtain ⟨left, remains⟩ : ∃ left, (Leaves.account ledger.get wrapper.body.sender).balance.checkedSub
      (networkFee wrapper params) = some left := by
    have enough := Word.checkedSub_eq_some.mp rest
    have below : networkFee wrapper params ≤
        (Leaves.account ledger.get wrapper.body.sender).balance := by
      rw [Word.le_def]
      omega
    exact ⟨_, if_pos below⟩
  obtain ⟨paid, pays, leaves⟩ := payNetworkFee_spec ledger context wrapper params next remains
  refine ⟨paid, pays, ?_⟩
  have untouched :=
    (Touches.untouched (chargeVm_touches context wrapper params _) ledger).ended charges
  have vacantCharged := fun deploys => (vacant deploys).charged untouched
  have idle := (runVm_failed context wrapper _ params now _ vacantCharged).ended runs rfl
  have undeployed : (isDeploy wrapper && (contractAddress wrapper.body.sender
      (Leaves.nonce ledger.get wrapper.body.sender)).any (Leaves.isContract later.get)) = false := by
    rw [idle.leaves, Bool.and_eq_false_imp]
    exact fun deploys => (vacantCharged deploys).undeployed
  have settled : (if legacyVmRules context params then fun state => state
      else feeCollected context (networkFee wrapper params))
        (credited wrapper.body.sender (deployShare wrapper params) later.get) = paid.get := by
    rw [leaves, idle.leaves, charging.leaves, ← credited_paid rest remains parts]
    split
    · exact credited_feeCollected _ _ _ _ _
    · rfl
  have walked : Ensures ledger (dispatchVm context wrapper signatureOk params now) fun done after =>
      done = true → after.get = paid.get ∧ after.events = ledger.events ∧
        after.sideEvents = ledger.sideEvents ++ [.callFailed (wrapper.id Platform.sha3)
          failure.2.2.1 failure.2.2.2 failure.1 failure.2.1] := by
    refine dispatchVm_ensures context wrapper signatureOk params now nofun ?_
    refine (ensures_plain _).mono fun _ again same => ?_
    obtain rfl : charged = again := congrArg Prod.snd (charges.symm.trans same)
    refine (ensures_plain _).mono fun failed last same => ?_
    obtain ⟨rfl, rfl⟩ : failed = some failure ∧ last = later := by
      simpa using same.symm.trans runs
    refine (finishVm_failed context wrapper params _ failure undeployed).mono ?_
    rintro _ after ⟨leaves, events, sides⟩ _
    refine ⟨leaves.trans settled, events.trans (idle.events.trans charging.events), ?_⟩
    rw [sides, idle.sideEvents, charging.sideEvents]
  exact walked.ended accepted rfl

end Vm

/-- A machine that admits any code and never halts well. -/
@[reducible] def trappingPlatform : Platform :=
  { keyedPlatform with
    executeContractCall := fun _ _ _ _ _ => some (.error (.unknown, 3))
    memBytes := 1000
    declaresGenesis := fun _ => true
    admitCode := fun _ _ code => some code }

/-- The second block of the local chain. -/
def deployContext : Context := ⟨none, 2, 1, []⟩

/-- The account 8 deploys a contract. -/
def deployment : Wrapper :=
  letI := trappingPlatform
  firstOf8 ⟨vmDeployAddress, [1]⟩ Tx.kindCall 20000 1000000000 0

/-- The address that the deployment creates, where every digest is zero. -/
def deployedId : Id := Vector.replicate 32 0

/-- The note of the deployment that failed. -/
def deploymentFailure : Failure :=
  (.unknown, 3, addressOf deployedId, Vector.replicate 4 0)

theorem failed_call_costs_fee_deployment :
    letI := trappingPlatform
    ∃ after paid,
      (dispatchVm deployContext deployment true localParams 0).plain fundedLedger =
        (some true, after) ∧
      (payNetworkFee deployContext deployment localParams).plain fundedLedger = (some (), paid) ∧
      after.get = paid.get := by
  let := trappingPlatform
  have returned : ((dispatchVm deployContext deployment true localParams 0).plain
      fundedLedger).1 = some true := by decide +kernel
  have accepted := plain_returned returned
  have reports : Reports deployContext deployment localParams 0 fundedLedger deploymentFailure :=
    .of (by decide +kernel) (by decide +kernel)
  have vacant : Vacant deployment.body.sender
      (Leaves.nonce fundedLedger.get deployment.body.sender) fundedLedger.get := by
    rintro contract id addressed parsed
    exact ⟨rfl, rfl, rfl⟩
  obtain ⟨paid, pays, leaves, -⟩ := failed_call_costs_fee deployContext deployment true localParams
    0 accepted reports fun _ => vacant
  exact ⟨_, paid, accepted, pays, leaves⟩

/-- Without code and without a ceiling, a version of the context may still be there, and a failed
deployment clears it. -/
def versionedLedger : Ledger := fundedLedger.write (.contractContextVersion deployedId) 2

theorem failed_deployment_clears_version :
    letI := trappingPlatform
    Reports deployContext deployment localParams 0 versionedLedger deploymentFailure ∧
    contractAddress deployment.body.sender
      (Leaves.nonce versionedLedger.get deployment.body.sender) = some (addressOf deployedId) ∧
    versionedLedger.get (.contractCode deployedId) = none ∧
    versionedLedger.get (.assetMintCeiling (assetIdOf deployedId)) = none ∧
    ((dispatchVm deployContext deployment true localParams 0).plain versionedLedger).1 =
      some true ∧
    ((payNetworkFee deployContext deployment localParams).plain versionedLedger).1 = some () ∧
    ((dispatchVm deployContext deployment true localParams 0).plain versionedLedger).2.get ≠
      ((payNetworkFee deployContext deployment localParams).plain versionedLedger).2.get := by
  let := trappingPlatform
  refine ⟨.of (by decide +kernel) (by decide +kernel), by decide +kernel, by decide +kernel,
    by decide +kernel, by decide +kernel, by decide +kernel, fun same => ?_⟩
  have here := congrFun same (.contractContextVersion deployedId)
  revert here
  decide +kernel

end QuantovaChain.Node
