import QuantovaChain.Node.Vm

/-!
# Executing a block

Candidates are taken in order. Each is either skipped, tried in a transaction and dropped, or
included; limits that hold for the block as a whole count only what is included. A proposer also has
a budget of bytes. At the end the block counts into the session of rewards.
-/

namespace QuantovaChain.Node

open State (Bytes)
open Idfmt (Text)
open Tx (Wrapper)
open Ledger

def maxValidityHorizon : Nat := 7200

def blockFreshLeafCeiling : Nat := 220

def maxRegistrationBytes : Nat := 4096

def maxHashSchemePerBlock : Nat := 128

/-- What is fixed for a whole block. -/
structure Setting where
  roundProposer : Option Text
  executionHeight : U64
  heightsPerEpoch : U64
  params : FeeParams
  now : U64
  deriving DecidableEq, Repr

namespace Setting

def context (setting : Setting) (currentTx : Text) : Context :=
  { roundProposer := setting.roundProposer, executionHeight := setting.executionHeight,
    heightsPerEpoch := setting.heightsPerEpoch, currentTx }

def day (setting : Setting) : U64 := setting.now.div daySeconds

def hardened (setting : Setting) : Bool :=
  (Upgrades.forChain setting.params.chainId).hardened setting.executionHeight

end Setting

def withinValidity (validUntil height : U64) : Bool :=
  validUntil == 0 ||
    (decide (height ≤ validUntil) && decide (validUntil.val - height.val ≤ maxValidityHorizon))

section Block

variable [Platform] (setting : Setting) (state : Leaves) (wrapper : Wrapper)

def validityAdmits (wrapper : Wrapper) (height : U64) : Bool :=
  if wrapper.body.validUntil = 0 then
    !(wrapper.body.chainId == Tx.testnetChainId || wrapper.body.chainId == Tx.mainnetChainId) ||
      isFeeless wrapper || isRegistration wrapper
  else withinValidity wrapper.body.validUntil height

/-- Checks the signatures against the keys at the start of the block. Only so many of the slow
scheme are checked; the others count as bad. -/
def verifySignatures (state : Leaves) : Nat → List Wrapper → List Bool
  | _, [] => []
  | seen, wrapper :: rest =>
    let slow := wrapper.scheme == Tx.schemeHash
    let seen := if slow then seen + 1 else seen
    ((!slow || decide (seen ≤ maxHashSchemePerBlock)) &&
        Platform.verify wrapper (state.account wrapper.body.sender).publicKey) ::
      verifySignatures state seen rest

/-- The loop's counters. -/
structure Progress where
  ledger : Ledger
  included : List Wrapper
  vmMeter : U64
  senderVmMeter : Text → U64
  registrations : Nat
  registrationNotes : List Bytes

/-- Whether the candidate may be tried at all. -/
def passesGates : Bool :=
  let target := wrapper.body.call.target
  let sender := wrapper.body.sender
  wrapper.body.chainId == setting.params.chainId &&
    (!setting.hardened || Tx.addressesParse wrapper.body) &&
    validityAdmits wrapper setting.executionHeight &&
    !(state.isBlacklisted sender || (isVmOp wrapper && state.isBlacklisted target)) &&
    !((state.isFrozen sender || (isVmOp wrapper && state.isFrozen target)) && !isGovernance wrapper)

/-- The program of a transfer, by its recipient. A transfer to a blacklisted account has none. -/
def transferProgram (plan : TransferPlan) : Option (LedgerM Bool) :=
  let context := setting.context []
  if plan.recipient = stakeSystemAddress then
    some (bondWithFee context plan.sender plan.amount plan.fee setting.day)
  else if plan.recipient = stakeClaimAddress then
    some (claimWithFee context plan.sender plan.fee setting.day)
  else if plan.recipient = stakeExitAddress then
    some (requestExitWithFee context plan.sender plan.fee setting.day)
  else if plan.recipient = stakeWithdrawAddress then
    some (withdrawWithFee context plan.sender plan.fee setting.day)
  else if plan.recipient = bridgeFreezeAddress then
    some (bridgeFreezeWithFee context plan.sender plan.fee setting.now)
  else if plan.recipient = bridgeUnfreezeAddress then
    some (bridgeUnfreezeWithFee context plan.sender plan.fee setting.now)
  else if state.isBlacklisted plan.recipient then none
  else some (dispatchTransfer context plan wrapper.body.meterLimit)

/-- The program of a candidate that is neither a contract call nor a registration. -/
def laneProgram (signatureOk : Bool) : Option (LedgerM Bool) :=
  let context := setting.context []
  let params := setting.params
  if isGovernance wrapper then
    some (dispatchGovernance context wrapper signatureOk params setting.now)
  else if isKeyRegister wrapper then some (dispatchKeyRegister context wrapper params)
  else if isStakePayee wrapper then some (dispatchStakePayee context wrapper signatureOk params)
  else if isEvidence wrapper then some (dispatchEvidence context wrapper params.chainId)
  else if isBridgeGuardian wrapper then
    some (dispatchBridgeGuardian wrapper params.chainId setting.now)
  else if isBridgeMint wrapper then some (dispatchBridgeMint context wrapper params.chainId)
  else if isBridgeSettle wrapper then some (dispatchBridgeSettle wrapper params.chainId)
  else if isBridgeExit wrapper then some (dispatchBridgeExit context wrapper signatureOk params)
  else match validateVerified state wrapper params signatureOk with
    | .ok plan => transferProgram setting state wrapper plan
    | .error _ => none

/-- Runs a program as an outermost transaction. -/
def runAtomic (program : LedgerM Bool) (ledger : Ledger) : Bool × Ledger :=
  Transaction.applyAtomic program.exec ledger

/-- Tries a contract call within the meters of the block and of its sender. -/
def tryVm (progress : Progress) (wrapper : Wrapper) (signatureOk : Bool) : Progress :=
  let meter := wrapper.body.meterLimit
  let sender := wrapper.body.sender
  let senderUsed := progress.senderVmMeter sender
  if vmBlockMeterBudget < progress.vmMeter.satAdd meter then progress
  else if max maxTxMeter (meterCeiling wrapper) < senderUsed.satAdd meter then progress
  else
    let ran := runAtomic (dispatchVm (setting.context (wrapper.id Platform.sha3)) wrapper signatureOk
      setting.params setting.now) progress.ledger
    if ran.1 then
      let used := ran.2.extra.vmMeterCharge
      { progress with
        ledger := ran.2
        included := progress.included ++ [wrapper]
        vmMeter := progress.vmMeter.satAdd used
        senderVmMeter := Function.update progress.senderVmMeter sender (senderUsed.satAdd used) }
    else { progress with ledger := ran.2 }

def tryRegistration (cap : Nat) (progress : Progress) (wrapper : Wrapper) : Progress :=
  let note := wrapper.body.call.args
  if wrapper.body.sender = registrationAddress ∧ note.length ≤ maxRegistrationBytes ∧
      progress.registrations < cap ∧ note ∉ progress.registrationNotes then
    { progress with
      included := progress.included ++ [wrapper]
      registrations := progress.registrations + 1
      registrationNotes := note :: progress.registrationNotes }
  else progress

def tryLane (progress : Progress) (wrapper : Wrapper) (signatureOk : Bool) : Progress :=
  match laneProgram setting progress.ledger.get wrapper signatureOk with
  | none => progress
  | some program =>
    let ran := runAtomic program progress.ledger
    if ran.1 then { progress with ledger := ran.2, included := progress.included ++ [wrapper] }
    else { progress with ledger := ran.2 }

/-- Whether a registration takes its own way: a transaction to no other system lane. -/
def takesRegistration (wrapper : Wrapper) : Bool :=
  isRegistration wrapper &&
    !(isGovernance wrapper || isKeyRegister wrapper || isStakePayee wrapper || isEvidence wrapper ||
      isBridgeGuardian wrapper || isBridgeMint wrapper || isBridgeSettle wrapper ||
      isBridgeExit wrapper)

/-- Tries one candidate. -/
def tryCandidate (cap : Nat) (progress : Progress) (wrapper : Wrapper) (signatureOk : Bool) :
    Progress :=
  if !passesGates setting progress.ledger.get wrapper then progress
  else if isVmOp wrapper then tryVm setting progress wrapper signatureOk
  else if takesRegistration wrapper then tryRegistration cap progress wrapper
  else tryLane setting progress wrapper signatureOk

/-- The loop with the bytes left and the feeless candidates refused so far. -/
structure Packing where
  progress : Progress
  room : Nat
  refused : List Nat

/-- Tries one candidate if it fits, and settles the attempt at once. -/
def pack (cap : Nat) (budget : Option Nat) (packing : Packing) (index : Nat) (wrapper : Wrapper)
    (signatureOk : Bool) : Packing :=
  let size := if budget.isNone then 0 else wrapper.encode.length
  if packing.room < size then packing
  else
    let progress := tryCandidate setting cap packing.progress wrapper signatureOk
    if packing.progress.included.length < progress.included.length then
      { packing with progress, room := packing.room - size }
    else if isFeeless wrapper then { packing with progress, refused := packing.refused ++ [index] }
    else { packing with progress }

def packAll (setting : Setting) (cap : Nat) (budget : Option Nat) :
    Nat → List (Wrapper × Bool) → Packing → Packing
  | _, [], packing => packing
  | index, (wrapper, signatureOk) :: rest, packing =>
    packAll setting cap budget (index + 1) rest
      (pack setting cap budget packing index wrapper signatureOk)

/-- What happens before the first candidate. -/
def openBlock (now : U64) : LedgerM Unit := do
  bridgeExpire now
  guardianExpire now
  guardianApplyDueEnact now

structure Executed where
  ledger : Ledger
  included : List Wrapper
  refused : List Nat

def startProgress (ledger : Ledger) : Progress where
  ledger := { ledger with fresh := 0, ceiling := some blockFreshLeafCeiling }
  included := []
  vmMeter := 0
  senderVmMeter := fun _ => 0
  registrations := 0
  registrationNotes := []

def registrationCap (state : Leaves) : Nat := max state.validatorIds.length 1 * 2

/-- Executes candidates within a budget of bytes, if there is one. A panic outside the transactions
of the candidates leaves no result. -/
def executeOrderedAcross (budget : Option Nat) (ledger : Ledger) (candidates : List Wrapper) :
    Option Executed :=
  let verified := verifySignatures ledger.get 0 candidates
  match (openBlock setting.now).exec ledger with
  | (none, _) => none
  | (some _, opened) =>
    let packed := packAll setting (registrationCap opened.get) budget 0 (candidates.zip verified)
      { progress := startProgress opened, room := budget.getD 0, refused := [] }
    let included := packed.progress.included
    let settled := (settleSession (setting.context []) setting.day
      (Word.clamp 64 included.length)).exec { packed.progress.ledger with ceiling := none }
    match settled with
    | (none, _) => none
    | (some _, after) => some { ledger := after, included, refused := packed.refused }

def executeOrdered (ledger : Ledger) (candidates : List Wrapper) : Option Executed :=
  executeOrderedAcross setting none ledger candidates

def executeOrderedWithin (bytes : Nat) (ledger : Ledger) (candidates : List Wrapper) :
    Option Executed :=
  executeOrderedAcross setting (some bytes) ledger candidates

end Block

/-- The second block of the local chain. -/
def secondBlock : Setting :=
  { roundProposer := none, executionHeight := 2, heightsPerEpoch := 1, params := localParams, now := 0 }

end QuantovaChain.Node
