import QuantovaChain.Library.Extra
import QuantovaChain.Node.Block

/-!
# The meter of the machine

What a contract transaction counts for is read off fields of the ledger after it ran, and no
rollback restores these fields. A call arms them with the meter it declares, a deployment with the
cost of its bytes; the machine adds what it used, and a first call that fails arms the whole meter
again. Each contract transaction arms the fields before anything else happens, so nothing that ran
earlier shows in what it counts for, and given a machine that keeps within its meter it never counts
for more than it declared. The limits of a sender and of a block follow from that.
-/

namespace QuantovaChain.Node

open State (Bytes)
open Idfmt (Text)
open Tx (Wrapper)
open Governance (Id AssetId)
open Ledger
open Transaction
open Transaction.Program

/-! ## Programs that leave the meter alone -/

section Steady

theorem steady_leaves : leaves.Steady := fun _ => trivial

theorem steady_residue : residue.Steady := fun _ => trivial

theorem pay_steady (account : Account) (debit : U64) : (account.pay debit).Steady :=
  (steady_expect _).bind fun _ => (steady_expect _).bind fun _ => trivial

theorem applyBalanceDelta_steady (address : Text) (delta : Int) :
    (applyBalanceDelta address delta).Steady := by
  unfold applyBalanceDelta
  repeat' first
    | exact trivial | exact steady_leaves | exact steady_expect _ | dsimp only | split
    | refine .bind ?_ fun _ => ?_

theorem takeValue_steady (caller contract : Text) (callerId contractId : Id) (value : U64)
    (inAsset : Option AssetId) :
    (takeValue caller contract callerId contractId value inAsset).Steady := by
  unfold takeValue debitAsset creditAsset
  repeat' first
    | exact trivial | exact steady_leaves | exact applyBalanceDelta_steady _ _ | dsimp only | split
    | refine .bind ?_ fun _ => ?_

theorem payNative_steady (contract : Text) (credit : Text × U64) :
    (payNative contract credit).Steady :=
  (applyBalanceDelta_steady _ _).bind fun _ => (applyBalanceDelta_steady _ _).bind fun _ => trivial

theorem payAssets_steady (contractId : Id) (credits : List (AssetId × Id × U128)) :
    (payAssets contractId credits).Steady := by
  induction credits with
  | nil => trivial
  | cons credit rest hypothesis =>
    unfold payAssets debitAsset creditAsset
    repeat' first
      | exact trivial | exact steady_leaves | exact hypothesis | dsimp only | split
      | refine .bind ?_ fun _ => ?_

theorem setContractSlot_steady (id : Id) (slot : Slot) (value : U64) :
    (setContractSlot id slot value).Steady := by
  unfold setContractSlot
  repeat' first | exact trivial | exact steady_delete _ | split | refine .bind ?_ fun _ => ?_

variable [Platform]

theorem collectFee_steady (context : Context) (fee : U64) : (collectFee context fee).Steady := by
  unfold collectFee applyFeeSplit creditAccount debitSupply
  repeat' first | split | refine .bind ?_ fun _ => ?_ | exact steady_leaves | exact trivial

theorem applyEvents_steady (context : Context) (contract : Text) (contractId : Id)
    (effects : List Effect) : (applyEvents context contract contractId effects).Steady := by
  induction effects with
  | nil => trivial
  | cons effect rest hypothesis =>
    cases effect with
    | transfer recipient amount => exact hypothesis
    | event selector data =>
      unfold applyEvents mintWithinCeiling mintAsset creditAsset
      repeat' first
        | exact trivial | exact steady_leaves | exact hypothesis | dsimp only | split
        | refine .bind ?_ fun _ => ?_

theorem declareMintCeiling_steady (contract : Text) (ceiling : U128) :
    (declareMintCeiling contract ceiling).Steady := by
  unfold declareMintCeiling
  repeat' first | exact trivial | exact steady_leaves | split | refine .bind ?_ fun _ => ?_

theorem deployContractUnder_steady (deployer : Text) (nonce : U64) (code : Bytes)
    (legacyTestnetKey mainnet : Bool) :
    (deployContractUnder deployer nonce code legacyTestnetKey mainnet).Steady := by
  unfold deployContractUnder
  repeat' first | exact trivial | dsimp only | split

theorem clearContractCode_steady (address : Text) : (clearContractCode address).Steady := by
  unfold clearContractCode
  repeat' first | exact trivial | exact steady_delete _ | split | refine .bind ?_ fun _ => ?_

omit [Platform] in
theorem settleDeployFee_steady (sender : Text) (params : FeeParams) (fee : U64) (deployed : Bool) :
    (settleDeployFee sender params fee deployed).Steady := by
  unfold settleDeployFee
  split
  · trivial
  · exact steady_leaves.bind fun _ => trivial

theorem settleVmFee_steady (context : Context) (sender : Text) (meter networkFee : U64)
    (params : FeeParams) : (settleVmFee context sender meter networkFee params).Steady := by
  unfold settleVmFee creditAccount
  repeat' first
    | split | refine .bind ?_ fun _ => ?_ | exact collectFee_steady _ _ | exact steady_leaves
    | exact steady_residue | exact trivial

theorem noteCallFailed_steady (wrapper : Wrapper) (failed : Option Failure) :
    (noteCallFailed wrapper failed).Steady := by
  cases failed <;> trivial

end Steady

/-! ## What a call leaves -/

/-- The fields after the machine used some of a meter. -/
def spend (current : Residue) (used : U64) : Residue :=
  { current with
    lastVmMeterUsed := current.lastVmMeterUsed.satAdd used
    lastVmCallCost := some used }

/-- The fields of the meter are the same. -/
structure SameMeter (first second : Residue) : Prop where
  used : second.lastVmMeterUsed = first.lastVmMeterUsed
  cost : second.lastVmCallCost = first.lastVmCallCost
  armed : second.vmDeployArmed = first.vmDeployArmed

namespace SameMeter

variable {first second third : Residue}

theorem refl (current : Residue) : SameMeter current current := ⟨rfl, rfl, rfl⟩

theorem trans (same : SameMeter first second) (again : SameMeter second third) :
    SameMeter first third :=
  ⟨again.used.trans same.used, again.cost.trans same.cost, again.armed.trans same.armed⟩

theorem charge (same : SameMeter first second) : second.vmMeterCharge = first.vmMeterCharge := by
  unfold Residue.vmMeterCharge
  rw [same.used, same.cost, same.armed]

theorem spend {used : U64} (same : SameMeter first second) :
    SameMeter (Node.spend first used) (Node.spend second used) :=
  ⟨congrArg (Word.satAdd · used) same.used, rfl, same.armed⟩

end SameMeter

section Calls

variable {current : Residue}

/-- A failure is noted, and the meter stays. -/
theorem fail_leaving {base : Residue} (rule : Rule) (same : SameMeter base current) :
    (fail rule).Leaving (fun _ left => SameMeter base left) current := by
  rintro view rfl
  exact same.trans ⟨rfl, rfl, rfl⟩

theorem takeCallFailure_leaving {base : Residue} (same : SameMeter base current) :
    takeCallFailure.Leaving (fun _ left => SameMeter base left) current := by
  rintro view rfl
  exact same.trans ⟨rfl, rfl, rfl⟩

theorem orFail_leaving {base : Residue} {broken : Option Rule} {rest : LedgerM Bool}
    (same : SameMeter base current)
    (steady : rest.Leaving (fun _ left => SameMeter base left) current) :
    (orFail broken rest).Leaving (fun _ left => SameMeter base left) current := by
  cases broken with
  | none => exact steady
  | some rule => exact fail_leaving rule same

variable [Platform]

/-- A call that halted has used its meter, whatever becomes of what it asks for. -/
theorem applyOutcome_leaving (context : Context) (request : CallRequest) (callerId contractId : Id)
    (inAsset : Option AssetId) (outcome : ContractOutcome) :
    (applyOutcome context request callerId contractId inAsset outcome).Leaving
      (fun _ left => SameMeter (spend current outcome.meterUsed) left) current := by
  rintro view rfl
  have same : SameMeter (spend view.extra outcome.meterUsed) (spend view.extra outcome.meterUsed) :=
    .refl _
  show Leaving _ (spend view.extra outcome.meterUsed) _
  split
  swap
  · exact fail_leaving _ same
  refine steady_leaves.leaving_bind (fun _ => ?_) same
  refine orFail_leaving same ?_
  refine (takeValue_steady _ _ _ _ _ _).leaving_bind (fun _ => ?_) same
  refine orFail_leaving same ?_
  refine (steady_each fun credit _ => payNative_steady _ credit).leaving_bind (fun _ => ?_) same
  refine (payAssets_steady _ _).leaving_bind (fun _ => ?_) same
  refine orFail_leaving same ?_
  refine (applyEvents_steady _ _ _ _).leaving_bind (fun _ => ?_) same
  refine orFail_leaving same ?_
  exact (steady_each fun entry _ => setContractSlot_steady _ _ _).leaving_bind (fun _ => same) same

/-- The machine keeps within the meter it is given. -/
def MeterHonest : Prop :=
  ∀ code selector storage memory meter outcome,
    Platform.executeContractCall code selector storage memory meter = some (.ok outcome) →
      outcome.meterUsed ≤ meter

/-- A call leaves the meter as it was, or with what the machine used. -/
def Spent (meter : U64) (before after : Residue) : Prop :=
  SameMeter before after ∨ ∃ used, used ≤ meter ∧ SameMeter (spend before used) after

theorem runContract_leaving (honest : MeterHonest) (context : Context) (request : CallRequest) :
    (runContract context request).Leaving (fun _ left => Spent request.meter current left)
      current := by
  rintro view rfl
  have same : SameMeter view.extra { view.extra with callFailure := none } := ⟨rfl, rfl, rfl⟩
  have failed : ∀ rule, (fail rule).Leaving (fun _ left => Spent request.meter view.extra left)
      { view.extra with callFailure := none } :=
    fun rule => (fail_leaving rule same).mono fun _ _ => .inl
  show Leaving _ { view.extra with callFailure := none } _
  split
  swap
  · exact failed _
  refine steady_leaves.leaving_bind (fun state => ?_) (.inl same)
  split
  swap
  · exact failed _
  split
  swap
  · exact failed _
  dsimp only
  split
  · exact failed _
  cases executed : Platform.executeContractCall _ request.selector _ _ request.meter with
  | none => exact .inl same
  | some ended =>
    cases ended with
    | ok outcome =>
      refine (applyOutcome_leaving context request _ _ _ outcome).mono fun _ _ spent => ?_
      exact .inr ⟨outcome.meterUsed, honest _ _ _ _ _ _ executed, same.spend.trans spent⟩
    | error failure =>
      intro later here
      show Spent _ _ { later.extra with callFailure := some failure }
      rw [here]
      exact .inl ⟨rfl, rfl, rfl⟩

/-! ## What a contract transaction leaves -/

/-- The fields count for no more than a meter. -/
def Within (meter : U64) (current : Residue) : Prop := current.vmMeterCharge ≤ meter

omit [Platform] in
theorem armVmMeter_leaving (declared : U64) :
    (armVmMeter declared).Leaving (fun _ left => left.lastVmMeterUsed = declared ∧
      left.lastVmCallCost = none ∧ left.vmDeployArmed = false) current := by
  rintro view rfl
  exact ⟨rfl, rfl, rfl⟩

omit [Platform] in
theorem armVmMeterDeploy_leaving (cost : U64) :
    (armVmMeterDeploy cost).Leaving (fun _ left => left.lastVmMeterUsed = cost ∧
      left.lastVmCallCost = none ∧ left.vmDeployArmed = true) current := by
  rintro view rfl
  exact ⟨rfl, rfl, rfl⟩

omit [Platform] in
theorem within_armed {meter : U64} (used : current.lastVmMeterUsed = meter)
    (cost : current.lastVmCallCost = none) (armed : current.vmDeployArmed = false) :
    Within meter current := by
  unfold Within Residue.vmMeterCharge
  rw [armed, cost, used]
  exact Nat.le_refl _

omit [Platform] in
theorem noteFailure_leaving {meter : U64} (within : Within meter current) (contract : Text)
    (selector : Selector) :
    (noteFailure contract selector).Leaving (fun _ left => Within meter left) current := by
  have noted : ∀ left, SameMeter current left → Within meter left := fun left same => by
    unfold Within
    rw [same.charge]
    exact within
  exact (takeCallFailure_leaving (.refl current)).bind (fun _ left same => noted left same) noted

variable (honest : MeterHonest) (context : Context) (wrapper : Wrapper)

include honest

/-- A call counts for what the machine used, or for the whole meter. -/
theorem runCall_leaving (params : FeeParams) (now : U64)
    (used : current.lastVmMeterUsed = wrapper.body.meterLimit)
    (cost : current.lastVmCallCost = none) (armed : current.vmDeployArmed = false) :
    (runCall context wrapper params now).Leaving
      (fun _ left => Within wrapper.body.meterLimit left) current := by
  have within := within_armed used cost armed
  unfold runCall
  dsimp only
  split
  · exact within
  split
  · exact within
  have called : ∀ left, Spent wrapper.body.meterLimit current left →
      Within wrapper.body.meterLimit left := by
    rintro left (same | ⟨spent, kept, same⟩)
    · unfold Within
      rw [same.charge]
      exact within
    · unfold Within
      rw [same.charge, Residue.vmMeterCharge, spend, armed]
      exact kept
  have calls : ∀ request : CallRequest, request.meter = wrapper.body.meterLimit →
      (attempt (callContract context request)).Leaving
        (fun _ left => Within wrapper.body.meterLimit left) current := by
    intro request same
    apply leaving_attempt
    unfold callContract
    split
    · exact within
    · exact (runContract_leaving honest context request).mono fun _ left spent =>
        called left (same ▸ spent)
  refine (calls _ rfl).bind (fun callOk left within => ?_) fun _ => id
  split
  · exact within
  · exact noteFailure_leaving within _ _

/-- A deployment counts for the cost of its bytes and what its first call used, or for the whole
meter. -/
theorem runDeploy_leaving (nonce : U64) (params : FeeParams) (now : U64) (legacy : Bool) :
    (runDeploy context wrapper nonce params now legacy).Leaving
      (fun _ left => Within wrapper.body.meterLimit left) current := by
  unfold runDeploy
  dsimp only
  rcases splitMintCeiling wrapper.body.call.args with ⟨ceiling, framed⟩
  rcases splitDeployArgs framed with ⟨container, parameters⟩
  dsimp only
  have rearmed : ∀ left : Residue, (left.lastVmMeterUsed = wrapper.body.meterLimit ∧
      left.lastVmCallCost = none ∧ left.vmDeployArmed = false) → Within wrapper.body.meterLimit left :=
    fun left fields => within_armed fields.1 fields.2.1 fields.2.2
  split
  · exact (armVmMeter_leaving _).bind (fun _ left => rearmed left) rearmed
  next enough =>
  have enough := Nat.not_lt.mp enough
  generalize deployMeterCost container.length = cost at enough ⊢
  have bytes : ∀ left : Residue, (left.lastVmMeterUsed = cost ∧ left.lastVmCallCost = none ∧
      left.vmDeployArmed = true) → Within wrapper.body.meterLimit left := by
    rintro left ⟨used, _, armed⟩
    unfold Within Residue.vmMeterCharge
    rw [armed, if_pos rfl, used]
    exact enough
  refine (armVmMeterDeploy_leaving cost).bind (fun _ left fields => ?_) bytes
  have within := bytes left fields
  refine (deployContractUnder_steady _ _ _ _ _).leaving_bind (fun found => ?_) within
  cases found with
  | none => exact within
  | some contract =>
  have first : ∀ request : CallRequest, request.meter = wrapper.body.meterLimit.satSub cost →
      (attempt (runGenesis context request)).Leaving
        (fun _ left => Within wrapper.body.meterLimit left) left := by
    intro request same
    refine leaving_attempt ((runContract_leaving honest context _).mono ?_)
    rintro _ later (kept | ⟨used, most, spent⟩)
    · unfold Within
      rw [kept.charge]
      exact within
    · have most := Word.le_def.mp most
      rw [same, Word.val_satSub] at most
      unfold Within
      rw [spent.charge, Residue.vmMeterCharge, spend, fields.2.2, if_pos rfl, fields.1, Word.le_def,
        Word.val_satAdd]
      omega
  have genesis : ∀ request : CallRequest, request.meter = wrapper.body.meterLimit.satSub cost →
      (do
        let genesisOk ← attempt (runGenesis context request)
        if Platform.declaresGenesis container && !genesisOk then
          clearContractCode contract
          armVmMeter wrapper.body.meterLimit
          noteFailure contract Platform.genesisSelector
        else return none).Leaving (fun _ left => Within wrapper.body.meterLimit left) left := by
    intro request same
    refine (first request same).bind (fun genesisOk later within => ?_) fun _ => id
    split
    · refine (clearContractCode_steady _).leaving_bind (fun _ => ?_) within
      refine (armVmMeter_leaving _).bind (fun _ again fields => ?_) rearmed
      exact noteFailure_leaving (rearmed again fields) _ _
    · exact within
  cases ceiling with
  | none => exact genesis _ rfl
  | some ceiling =>
    exact (declareMintCeiling_steady _ _).leaving_bind (fun _ => genesis _ rfl) within

theorem runVm_leaving (nonce : U64) (params : FeeParams) (now : U64) (legacy : Bool)
    (used : current.lastVmMeterUsed = wrapper.body.meterLimit)
    (cost : current.lastVmCallCost = none) (armed : current.vmDeployArmed = false) :
    (runVm context wrapper nonce params now legacy).Leaving
      (fun _ left => Within wrapper.body.meterLimit left) current := by
  unfold runVm
  split
  · exact runDeploy_leaving honest context wrapper nonce params now legacy
  · exact runCall_leaving honest context wrapper params now used cost armed

/-- A contract transaction that is accepted counts for no more than it declared. -/
theorem dispatchVm_leaving (signatureOk : Bool) (params : FeeParams) (now : U64) :
    (dispatchVm context wrapper signatureOk params now).Leaving
      (fun ended left => ended = some true → Within wrapper.body.meterLimit left) current := by
  unfold dispatchVm
  refine steady_leaves.leaving_bind (fun state => ?_) (by rintro ⟨⟩)
  dsimp only
  split
  · rintro ⟨⟩
  split
  · rintro ⟨⟩
  split
  · rintro ⟨⟩
  split
  · rintro ⟨⟩
  refine (armVmMeter_leaving _).bind ?_ (by rintro _ _ ⟨⟩)
  rintro _ left ⟨used, cost, armed⟩
  refine (pay_steady _ _).leaving_bind (fun paid => ?_) (by rintro ⟨⟩)
  refine (steady_put _ _).leaving_bind (fun _ => ?_) (by rintro ⟨⟩)
  generalize legacyVmRules context params = legacy
  have runs := runVm_leaving honest context wrapper (state.account wrapper.body.sender).nonce params
    now legacy used cost armed
  have settles : ∀ (failed : Option Failure) (fee : U64) (deployed : Leaves → Bool)
      (rest : LedgerM Bool), rest.Steady → (do
        noteCallFailed wrapper failed
        let state ← leaves
        settleDeployFee wrapper.body.sender params fee (deployed state)
        rest).Steady :=
    fun failed fee deployed rest steady => (noteCallFailed_steady wrapper failed).bind fun _ =>
      steady_leaves.bind fun _ => (settleDeployFee_steady _ _ _ _).bind fun _ => steady
  split
  · refine (collectFee_steady _ _).leaving_bind (fun _ => runs.bind ?_ (by rintro _ _ ⟨⟩))
      (by rintro ⟨⟩)
    exact fun failed later within => (settles failed _ _ _ (steady_pure true)).leaving fun _ _ => within
  · refine runs.bind ?_ (by rintro _ _ ⟨⟩)
    exact fun failed later within => (settles failed _ _ _
      ((settleVmFee_steady _ _ _ _ _).bind fun _ => steady_pure true)).leaving fun _ _ => within

end Calls

/-! ## Blocks -/

/-- What is counted: contract transactions with what each counted for. -/
abbrev Charges := List (Wrapper × U64)

/-- The sum of some charges. -/
def Charges.total (charges : Charges) : Nat := (charges.map fun charge => charge.2.val).sum

/-- The charges of one sender. -/
def Charges.of (charges : Charges) (sender : Text) : Charges :=
  charges.filter fun charge => charge.1.body.sender = sender

theorem Charges.total_append (first second : Charges) :
    Charges.total (first ++ second) = first.total + second.total := by
  simp [Charges.total]

theorem Charges.of_append (first second : Charges) (sender : Text) :
    Charges.of (first ++ second) sender = first.of sender ++ second.of sender :=
  List.filter_append ..

theorem Charges.of_self (wrapper : Wrapper) (used : U64) :
    Charges.of [(wrapper, used)] wrapper.body.sender = [(wrapper, used)] := by
  simp [Charges.of]

theorem Charges.of_other {wrapper : Wrapper} {used : U64} {sender : Text}
    (apart : wrapper.body.sender ≠ sender) : Charges.of [(wrapper, used)] sender = [] := by
  simp [Charges.of, apart]

section Blocks

variable [Platform]

/-- The largest meter ceiling among transactions. -/
def Charges.ceiling (charges : Charges) : Nat :=
  (charges.map fun charge => (meterCeiling charge.1).val).foldr max 0

theorem Charges.ceiling_append (first second : Charges) :
    Charges.ceiling (first ++ second) = max first.ceiling second.ceiling := by
  unfold Charges.ceiling
  induction first with
  | nil => simp
  | cons charge rest hypothesis =>
    simp only [List.cons_append, List.map_cons, List.foldr_cons, hypothesis, max_assoc]

/-- What a step of the loop adds to the charges: those of a contract transaction it included, read
off the ledger after the step. -/
def chargeOf (wrapper : Wrapper) (before after : Progress) : Charges :=
  if isVmOp wrapper ∧ before.included.length < after.included.length then
    [(wrapper, after.ledger.extra.vmMeterCharge)]
  else []

/-- The charges of the candidates of a block, in order. -/
def vmCharges (setting : Setting) (cap : Nat) (budget : Option Nat) :
    Nat → List (Wrapper × Bool) → Packing → Charges
  | _, [], _ => []
  | index, (wrapper, signatureOk) :: rest, packing =>
    let next := pack setting cap budget packing index wrapper signatureOk
    chargeOf wrapper packing.progress next.progress ++
      vmCharges setting cap budget (index + 1) rest next

/-- The charges of a block that is executed in order. -/
def blockCharges (setting : Setting) (budget : Option Nat) (ledger : Ledger)
    (candidates : List Wrapper) : Charges :=
  let opened := ((openBlock setting.now).exec ledger).2
  vmCharges setting (registrationCap opened.get) budget 0
    (candidates.zip (verifySignatures ledger.get 0 candidates))
    { progress := startProgress opened, room := budget.getD 0, refused := [] }

/-- The counters of the loop are those of the charges so far, and keep the limits. -/
structure Metered (charges : Charges) (progress : Progress) : Prop where
  wrappers : charges.map Prod.fst = progress.included.filter fun wrapper => isVmOp wrapper
  within : ∀ charge ∈ charges, charge.2 ≤ charge.1.body.meterLimit
  block : progress.vmMeter.val = charges.total
  blockLimit : charges.total ≤ vmBlockMeterBudget.val
  senders : ∀ sender, (progress.senderVmMeter sender).val = (charges.of sender).total
  senderLimit : ∀ sender, (charges.of sender).total ≤
    max (vmBlockMeterBudget.div 4).val (charges.of sender).ceiling

variable {charges : Charges} {before after : Progress} {wrapper : Wrapper}

theorem metered_start (ledger : Ledger) : Metered [] (startProgress ledger) where
  wrappers := rfl
  within _ among := absurd among List.not_mem_nil
  block := rfl
  blockLimit := Nat.zero_le _
  senders _ := rfl
  senderLimit _ := Nat.zero_le _

/-- A step that counts nothing. -/
theorem Metered.uncounted (metered : Metered charges before)
    (wrappers : after.included.filter (fun wrapper => isVmOp wrapper) =
      before.included.filter fun wrapper => isVmOp wrapper)
    (block : after.vmMeter = before.vmMeter) (senders : after.senderVmMeter = before.senderVmMeter) :
    Metered charges after :=
  ⟨metered.wrappers.trans wrappers.symm, metered.within, by rw [block]; exact metered.block,
    metered.blockLimit, by rw [senders]; exact metered.senders, metered.senderLimit⟩

/-- A contract transaction is counted. -/
theorem Metered.counted (metered : Metered charges before) {used : U64} {ledger : Ledger}
    (contract : isVmOp wrapper = true) (within : used ≤ wrapper.body.meterLimit)
    (room : ¬ vmBlockMeterBudget < before.vmMeter.satAdd wrapper.body.meterLimit)
    (senderRoom : ¬ max maxTxMeter (meterCeiling wrapper) <
      (before.senderVmMeter wrapper.body.sender).satAdd wrapper.body.meterLimit) :
    Metered (charges ++ [(wrapper, used)]) { before with
      ledger
      included := before.included ++ [wrapper]
      vmMeter := before.vmMeter.satAdd used
      senderVmMeter := Function.update before.senderVmMeter wrapper.body.sender
        ((before.senderVmMeter wrapper.body.sender).satAdd used) } := by
  have within' := Word.le_def.mp within
  have room := Nat.not_lt.mp room
  have senderRoom := Nat.not_lt.mp senderRoom
  have budget : vmBlockMeterBudget.val = 50000000 := rfl
  have quarter : (vmBlockMeterBudget.div 4).val = maxTxMeter.val := rfl
  have ceilings : (meterCeiling wrapper).val ≤ 50000000 := by
    unfold meterCeiling
    split <;> decide
  have most : maxTxMeter.val = 12500000 := rfl
  rw [Word.val_satAdd] at room senderRoom
  rw [Word.val_max] at senderRoom
  have one : Charges.total [(wrapper, used)] = used.val := by simp [Charges.total]
  have roof : Charges.ceiling [(wrapper, used)] = (meterCeiling wrapper).val := by
    simp [Charges.ceiling]
  have block := metered.block
  have mine := metered.senders wrapper.body.sender
  refine ⟨?_, ?_, ?_, ?_, ?_, ?_⟩
  · rw [List.map_append, metered.wrappers, List.filter_append]
    simp [contract]
  · intro charge among
    rcases List.mem_append.mp among with earlier | last
    · exact metered.within charge earlier
    · rw [List.mem_singleton.mp last]
      exact within
  · show (before.vmMeter.satAdd used).val = _
    rw [Word.val_satAdd, Charges.total_append, one]
    omega
  · rw [Charges.total_append, one]
    omega
  · intro sender
    rw [Charges.of_append, Charges.total_append]
    by_cases here : wrapper.body.sender = sender
    · subst here
      rw [Charges.of_self, one]
      dsimp only
      rw [Function.update_self, Word.val_satAdd]
      omega
    · rw [Charges.of_other here]
      dsimp only
      rw [Function.update_of_ne (Ne.symm here), metered.senders]
      rfl
  · intro sender
    rw [Charges.of_append, Charges.total_append, Charges.ceiling_append]
    by_cases here : wrapper.body.sender = sender
    · subst here
      rw [Charges.of_self, one, roof]
      omega
    · have kept := metered.senderLimit sender
      rw [Charges.of_other here]
      show (charges.of sender).total + 0 ≤ max _ (max _ 0)
      omega

theorem chargeOf_none (same : after.included = before.included) :
    chargeOf wrapper before after = [] := by
  unfold chargeOf
  rw [same]
  exact if_neg fun grew => Nat.lt_irrefl _ grew.2

theorem chargeOf_one (contract : isVmOp wrapper = true)
    (grew : after.included = before.included ++ [wrapper]) :
    chargeOf wrapper before after = [(wrapper, after.ledger.extra.vmMeterCharge)] := by
  unfold chargeOf
  rw [grew, List.length_append]
  exact if_pos ⟨contract, Nat.lt_succ_self _⟩

theorem chargeOf_other (contract : isVmOp wrapper = false) : chargeOf wrapper before after = [] :=
  if_neg fun counted => by
    rw [contract] at counted
    exact Bool.false_ne_true counted.1

/-- A step that includes nothing. -/
theorem Metered.idle (metered : Metered charges before) (same : after.included = before.included)
    (block : after.vmMeter = before.vmMeter) (senders : after.senderVmMeter = before.senderVmMeter) :
    Metered (charges ++ chargeOf wrapper before after) after := by
  rw [chargeOf_none same, List.append_nil]
  exact metered.uncounted (by rw [same]) block senders

/-- What an accepted contract transaction counts for, read off the ledger after it. -/
theorem runAtomic_within (honest : MeterHonest) (context : Context) (signatureOk : Bool)
    (params : FeeParams) (now : U64) {ledger : Ledger}
    (ran : (runAtomic (dispatchVm context wrapper signatureOk params now) ledger).1 = true) :
    (runAtomic (dispatchVm context wrapper signatureOk params now) ledger).2.extra.vmMeterCharge ≤
      wrapper.body.meterLimit := by
  rcases applyAtomic_outcome (dispatchVm context wrapper signatureOk params now) ledger with
    ⟨_, ended, same⟩ | ⟨refused, _⟩
  · have left := (dispatchVm_leaving honest context wrapper signatureOk params now).plain ended
    unfold Within at left
    rw [runAtomic, same.extra]
    exact left
  · rw [runAtomic, refused] at ran
    cases ran

theorem tryVm_metered (honest : MeterHonest) (setting : Setting) (metered : Metered charges before)
    (contract : isVmOp wrapper = true) (signatureOk : Bool) :
    Metered (charges ++ chargeOf wrapper before (tryVm setting before wrapper signatureOk))
      (tryVm setting before wrapper signatureOk) := by
  unfold tryVm
  dsimp only
  split
  · exact metered.idle rfl rfl rfl
  next room =>
  split
  · exact metered.idle rfl rfl rfl
  next senderRoom =>
  split
  next ran =>
    rw [chargeOf_one contract rfl]
    exact metered.counted contract (runAtomic_within honest _ _ _ _ ran) room senderRoom
  · exact metered.idle rfl rfl rfl

/-- The other lanes count nothing. -/
theorem Metered.included (metered : Metered charges before) (contract : isVmOp wrapper = false)
    (grows : after.included = before.included ∨ after.included = before.included ++ [wrapper])
    (block : after.vmMeter = before.vmMeter) (senders : after.senderVmMeter = before.senderVmMeter) :
    Metered (charges ++ chargeOf wrapper before after) after := by
  rw [chargeOf_other contract, List.append_nil]
  refine metered.uncounted ?_ block senders
  rcases grows with same | grew
  · rw [same]
  · rw [grew, List.filter_append]
    simp [contract]

theorem tryCandidate_metered (honest : MeterHonest) (setting : Setting) (cap : Nat)
    (metered : Metered charges before) (signatureOk : Bool) :
    Metered (charges ++ chargeOf wrapper before (tryCandidate setting cap before wrapper signatureOk))
      (tryCandidate setting cap before wrapper signatureOk) := by
  unfold tryCandidate
  split
  · exact metered.idle rfl rfl rfl
  split
  next contract => exact tryVm_metered honest setting metered contract signatureOk
  next contract =>
  have contract : isVmOp wrapper = false := by simpa using contract
  split
  · unfold tryRegistration
    dsimp only
    split
    · exact metered.included contract (.inr rfl) rfl rfl
    · exact metered.included contract (.inl rfl) rfl rfl
  · unfold tryLane
    split
    · exact metered.included contract (.inl rfl) rfl rfl
    dsimp only
    split
    · exact metered.included contract (.inr rfl) rfl rfl
    · exact metered.included contract (.inl rfl) rfl rfl

theorem pack_metered (honest : MeterHonest) (setting : Setting) (cap : Nat) (budget : Option Nat)
    {packing : Packing} (metered : Metered charges packing.progress) (index : Nat)
    (signatureOk : Bool) :
    Metered (charges ++ chargeOf wrapper packing.progress
        (pack setting cap budget packing index wrapper signatureOk).progress)
      (pack setting cap budget packing index wrapper signatureOk).progress := by
  have tried := @tryCandidate_metered _ _ _ wrapper honest setting cap metered signatureOk
  unfold pack
  generalize (if budget.isNone then 0 else wrapper.encode.length) = size
  dsimp only
  split
  · exact metered.idle rfl rfl rfl
  split
  · exact tried
  split <;> exact tried

theorem packAll_metered (honest : MeterHonest) (setting : Setting) (cap : Nat) (budget : Option Nat)
    (candidates : List (Wrapper × Bool)) (index : Nat) {packing : Packing}
    (metered : Metered charges packing.progress) :
    Metered (charges ++ vmCharges setting cap budget index candidates packing)
      (packAll setting cap budget index candidates packing).progress := by
  induction candidates generalizing index packing charges with
  | nil =>
    rw [vmCharges, List.append_nil]
    exact metered
  | cons candidate rest hypothesis =>
    have packed := @pack_metered _ _ candidate.1 honest setting cap budget _ metered index candidate.2
    have later := hypothesis (index + 1) packed
    rw [List.append_assoc] at later
    exact later

/-- Given a machine that keeps within its meter, every contract transaction of a block counts for at
most the meter it declared, all of them for at most the budget of a block, and those of one sender
for at most a quarter of that or the largest ceiling among them. Each candidate starts from a meter
that is armed anew, and the sums are followed candidate by candidate. -/
theorem block_meters_bounded (honest : MeterHonest) (setting : Setting) (ledger : Ledger)
    (candidates : List Wrapper) {executed : Executed}
    (done : executeOrdered setting ledger candidates = some executed) :
    (blockCharges setting none ledger candidates).map Prod.fst =
        executed.included.filter (fun wrapper => isVmOp wrapper) ∧
      (∀ charge ∈ blockCharges setting none ledger candidates,
        charge.2 ≤ charge.1.body.meterLimit) ∧
      (blockCharges setting none ledger candidates).total ≤ vmBlockMeterBudget.val ∧
      ∀ sender, ((blockCharges setting none ledger candidates).of sender).total ≤
        max (vmBlockMeterBudget.div 4).val
          ((blockCharges setting none ledger candidates).of sender).ceiling := by
  unfold executeOrdered executeOrderedAcross at done
  unfold blockCharges
  rcases opens : (openBlock setting.now).exec ledger with ⟨ended, opened⟩
  rw [opens] at done
  cases ended with
  | none => cases done
  | some _ =>
    let start : Packing := ⟨startProgress opened, (none : Option Nat).getD 0, []⟩
    have starts : Metered [] start.progress := metered_start opened
    have metered := packAll_metered honest setting (registrationCap opened.get) none
      (candidates.zip (verifySignatures ledger.get 0 candidates)) 0 starts
    rw [List.nil_append] at metered
    dsimp only at done ⊢
    split at done
    · cases done
    · obtain rfl := Option.some.inj done
      exact ⟨metered.wrappers, metered.within, metered.blockLimit, metered.senderLimit⟩

end Blocks

/-- A machine that halts at once, and uses up to seven of its meter. -/
@[reducible] def haltingPlatform : Platform :=
  { keyedPlatform with
    executeContractCall := fun _ _ _ _ meter => some (.ok ⟨[], [], min 7 meter⟩)
    memBytes := 1000 }

/-- The account 9 has code. -/
def contractLedger : Ledger := fundedLedger.write (.contractCode (Vector.replicate 32 9)) [1]

/-- A call of 9 by 8, and a second one. -/
def contractCall (nonce : U64) : Wrapper :=
  let first := firstOf8 ⟨addressOf (Vector.replicate 32 9), [1, 0, 0, 0]⟩ Tx.kindCall 20000 500 0
  { first with body := { first.body with nonce } }

/-- A block with two calls, each of which counts for what the machine used. -/
theorem block_meters_bounded_call :
    letI := haltingPlatform
    let calls := [contractCall 0, contractCall 1]
    ∃ executed, executeOrdered secondBlock contractLedger calls = some executed ∧
      executed.included = calls ∧
      blockCharges secondBlock none contractLedger calls = calls.map (·, 7) ∧
      (blockCharges secondBlock none contractLedger calls).total ≤ vmBlockMeterBudget.val := by
  let := haltingPlatform
  have honest : MeterHonest := by
    rintro code selector storage memory meter outcome ⟨⟩
    show min 7 meter ≤ meter
    rw [Word.le_def, Word.val_min]
    exact Nat.min_le_right _ _
  have included : (executeOrdered secondBlock contractLedger [contractCall 0, contractCall 1]).map
      Executed.included = some [contractCall 0, contractCall 1] := by decide +kernel
  obtain ⟨executed, done, same⟩ := Option.map_eq_some_iff.mp included
  exact ⟨executed, done, same, by decide +kernel,
    (block_meters_bounded honest secondBlock contractLedger _ done).2.2.1⟩

end QuantovaChain.Node
