import QuantovaChain.Node.Lanes

/-!
# The contract lane

A contract call or a deployment pays first and runs then. A run that fails inside is taken back, and
the transaction still counts and still pays; what the run did not use of the fee goes back to the
sender, and the fee of a deployment goes to the treasury only when the contract is there afterwards.
-/

namespace QuantovaChain.Node

open State (Bytes)
open Idfmt (Text ascii)
open Tx (Wrapper Body)
open Ledger
open Transaction.Program (emitSide attempt)

def vmBlockMeterBudget : U64 := 50000000

def maxTxMeter : U64 := 12500000

def maxDeployMeter : U64 := 50000000

def maxVmArgs : Nat := 131072

def deployByteMeter : U64 := 100

def deployMeterCost (containerBytes : Nat) : U64 :=
  (Word.clamp 64 containerBytes : U64).satMul deployByteMeter

def vmMeterFee (_meter : U64) (params : FeeParams) : U64 := params.transferFee

def vmCharge (meter : U64) (params : FeeParams) (deploy : Bool) : U64 :=
  if deploy then (vmMeterFee meter params).satAdd params.deployFee else vmMeterFee meter params

def deployParamsTag : Bytes := ascii "QDEPLOY2"

def deployMintTag : Bytes := ascii "QDEPMINT"

/-- The mint ceiling that a deployment declares, and the rest of its arguments. -/
def splitMintCeiling (args : Bytes) : Option U128 × Bytes :=
  if 24 ≤ args.length ∧ args.take 8 = deployMintTag then
    (Word.ofLe? 128 ((args.drop 8).take 16).reverse, args.drop 24)
  else (none, args)

/-- The container of a deployment and the parameters of its first call. -/
def splitDeployArgs (args : Bytes) : Bytes × Bytes :=
  if 12 ≤ args.length ∧ args.take 8 = deployParamsTag then
    let length := Word.natOfLe ((args.drop 8).take 4).reverse
    if 12 + length ≤ args.length then ((args.drop 12).take length, args.drop (12 + length))
    else (args, [])
  else (args, [])

section Vm

variable [Platform] (context : Context) (wrapper : Wrapper)

def meterCeiling : U64 :=
  if isDeploy wrapper then maxDeployMeter else maxTxMeter

def vmMemoryFits : Bool :=
  let args := wrapper.body.call.args
  let needed := if isDeploy wrapper then contractContextBytes + (splitDeployArgs args).2.length
    else args.length - 4
  needed ≤ Platform.memBytes

/-- What a call sends along natively. -/
def nativeDebit (body : Body) : U64 := if body.inAsset.isNone then body.value else 0

def vmAdmissible (account : Account) (params : FeeParams) (signatureOk : Bool) : Bool :=
  let body := wrapper.body
  let charged := vmCharge body.meterLimit params (isDeploy wrapper)
  signed wrapper account signatureOk && decide (body.call.args.length ≤ maxVmArgs) &&
    vmMemoryFits wrapper && body.nonce == account.nonce &&
    decide (transferMeter ≤ body.meterLimit) && decide (body.meterLimit ≤ meterCeiling wrapper) &&
    decide (charged.val ≤ body.fee.val) &&
    decide (charged.satAdd (nativeDebit body) ≤ account.balance)

/-- Pays the fee of a deployment to the treasury, or back to the sender. -/
def settleDeployFee (sender : Text) (params : FeeParams) (fee : U64) (deployed : Bool) :
    LedgerM Unit := do
  if fee = 0 then return
  let payee := if deployed then params.deployTreasuryAddress else sender
  let state ← leaves
  let account := state.account payee
  setAccount payee { account with balance := account.balance.satAdd fee }

def legacyVmRules (params : FeeParams) : Bool :=
  !(Upgrades.forChain params.chainId).gasMetered context.executionHeight

/-- A failed run: the rule, its line, the contract and the entry. -/
abbrev Failure := Rule × U32 × Text × Selector

/-- The noted failure, or that the block has no room for the state. -/
def noteFailure (contract : Text) (selector : Selector) : LedgerM (Option Failure) := do
  let (rule, line) := (← takeCallFailure).getD (.blockStateLimit, 0)
  return some (rule, line, contract, selector)

def runDeploy (nonce : U64) (params : FeeParams) (now : U64) (legacy : Bool) :
    LedgerM (Option Failure) := do
  let sender := wrapper.body.sender
  let meter := wrapper.body.meterLimit
  let predicted := (contractAddress sender nonce).getD []
  let (ceiling, framed) := splitMintCeiling wrapper.body.call.args
  let (container, parameters) := splitDeployArgs framed
  let cost := deployMeterCost container.length
  if meter < cost then
    armVmMeter meter
    return some (.outOfMeter, 0, predicted, Platform.genesisSelector)
  armVmMeterDeploy cost
  let some contract ← deployContractUnder sender nonce container legacy
      (params.chainId == Tx.mainnetChainId)
    | return some (.deployRejected, 0, predicted, Platform.genesisSelector)
  match ceiling with
  | some ceiling =>
    let _ ← declareMintCeiling contract ceiling
  | none => pure ()
  let genesisOk ← attempt (runGenesis context
    { caller := sender, contract, selector := Platform.genesisSelector,
      userMemory := List.replicate contractContextBytes 0 ++ parameters, now,
      meter := meter.satSub cost, value := wrapper.body.value, inAsset := wrapper.body.inAsset,
      chainId := params.chainId })
  if Platform.declaresGenesis container && !genesisOk then
    clearContractCode contract
    armVmMeter meter
    noteFailure contract Platform.genesisSelector
  else return none

def runCall (params : FeeParams) (now : U64) : LedgerM (Option Failure) := do
  let target := wrapper.body.call.target
  let args := wrapper.body.call.args
  if args.length < 4 then return some (.unknownEntry, 0, target, Vector.replicate 4 0)
  let selector : Selector := Vector.ofFn fun index => args.getD index.val 0
  if selector = Platform.genesisSelector then return some (.genesisCall, 0, target, selector)
  let callOk ← attempt (callContract context
    { caller := wrapper.body.sender, contract := target, selector, userMemory := args.drop 4, now,
      meter := wrapper.body.meterLimit, value := wrapper.body.value,
      inAsset := wrapper.body.inAsset, chainId := params.chainId })
  if callOk then return none
  noteFailure target selector

def runVm (nonce : U64) (params : FeeParams) (now : U64) (legacy : Bool) :
    LedgerM (Option Failure) :=
  if isDeploy wrapper then runDeploy context wrapper nonce params now legacy
  else runCall context wrapper params now

/-- Reports a failed run. -/
def noteCallFailed : Option Failure → LedgerM Unit
  | none => return
  | some (rule, line, contract, selector) =>
    emitSide (.callFailed (wrapper.id Platform.sha3) contract selector rule line)

/-- Gives back what the run did not use of the fee, and collects the rest. -/
def settleVmFee (sender : Text) (meter networkFee : U64) (params : FeeParams) : LedgerM Unit := do
  let charge := (← residue).vmMeterCharge
  let usedFee := min (vmMeterFee (min charge meter) params) networkFee
  let refund := networkFee.satSub usedFee
  creditAccount sender refund
  collectFee context usedFee

def dispatchVm (signatureOk : Bool) (params : FeeParams) (now : U64) : LedgerM Bool := do
  let sender := wrapper.body.sender
  let target := wrapper.body.call.target
  let meter := wrapper.body.meterLimit
  let deploy := isDeploy wrapper
  let state ← leaves
  if state.isBlacklisted sender then return false
  if state.bridgeIsFrozen && state.isBridgeGateway target then return false
  if !deploy && !state.isContract target then return false
  let account := state.account sender
  if !vmAdmissible wrapper account params signatureOk then return false
  armVmMeter meter
  let charged := vmCharge meter params deploy
  let paid ← account.pay charged
  setAccount sender paid
  let deployFee := if deploy then min params.deployFee charged else 0
  let networkFee := charged.satSub deployFee
  let legacy := legacyVmRules context params
  if legacy then collectFee context networkFee
  let failed ← runVm context wrapper account.nonce params now legacy
  noteCallFailed wrapper failed
  let state ← leaves
  let deployed := deploy && (contractAddress sender account.nonce).any state.isContract
  settleDeployFee sender params deployFee deployed
  if legacy then return true
  settleVmFee context sender meter networkFee params
  return true

end Vm

end QuantovaChain.Node
