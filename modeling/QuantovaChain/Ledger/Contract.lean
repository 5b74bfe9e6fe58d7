import QuantovaChain.Ledger.Reserves

/-!
# Contracts

A call runs the machine over the contract's storage and then applies what it asks for: native and
asset payments out of the contract, mints of its own asset, events and storage. Every failure is
noted for the caller to report, and the transaction around the call takes its writes back.
-/

namespace QuantovaChain.Ledger

open State (Bytes Hash)
open Idfmt (Text)
open Governance (Id AssetId)
open Transaction.Program (put delete emit emitSide leave expect each)

def contractContextBytes : Nat := 152

def legacyContractContextBytes : Nat := 120

def contractContextVersion : U64 := 2

def assetMintSelector : Selector := letters "MINT"

namespace Leaves

variable (state : Leaves)

def contractCode (id : Id) : Option Bytes :=
  (state (.contractCode id)).filter fun code => !code.isEmpty

def isContract (address : Text) : Bool := ((addressId address).bind state.contractCode).isSome

def contractSlot (id : Id) (slot : Slot) : U64 := (state (.contractSlot id slot)).getD 0

/-- How many bytes of memory the chain fills in for a contract. -/
def contextBytes (id : Id) : Nat :=
  match state (.contractContextVersion id) with
  | some version =>
    if contractContextVersion ≤ version then contractContextBytes else legacyContractContextBytes
  | none => legacyContractContextBytes

def mintCeiling [Platform] (id : Id) : U128 := (state (.assetMintCeiling (assetIdOf id))).getD 0

end Leaves

/-! ## The meter of the machine -/

def armVmMeter (declared : U64) : LedgerM Unit := do
  let current ← residue
  leave { current with lastVmMeterUsed := declared, lastVmCallCost := none, vmDeployArmed := false }

def armVmMeterDeploy (cost : U64) : LedgerM Unit := do
  let current ← residue
  leave { current with lastVmMeterUsed := cost, lastVmCallCost := none, vmDeployArmed := true }

/-- What the last call or deployment counts for. -/
def Residue.vmMeterCharge (current : Residue) : U64 :=
  if current.vmDeployArmed then current.lastVmMeterUsed
  else current.lastVmCallCost.getD current.lastVmMeterUsed

def fail (rule : Rule) : LedgerM Bool := do
  let current ← residue
  leave { current with callFailure := some (rule, 0) }
  return false

def takeCallFailure : LedgerM (Option (Rule × U32)) := do
  let current ← residue
  leave { current with callFailure := none }
  return current.callFailure

/-! ## Code and storage -/

def setContractCode (id : Id) (code : Bytes) : LedgerM Unit := do
  put (.contractCode id) code
  put (.contractContextVersion id) contractContextVersion

def setContractSlot (id : Id) (slot : Slot) (value : U64) : LedgerM Unit := do
  if value = 0 then
    let _ ← delete (.contractSlot id slot)
  else put (.contractSlot id slot) value

/-! ## The payments of a call -/

/-- What a call pays out: native credits, their sum, asset credits, and their sum by asset in the
order of the assets. -/
structure Payments where
  nativeCredits : List (Text × U64)
  nativeSent : U64
  assetCredits : List (AssetId × Id × U128)
  assetSent : List (AssetId × U128)
  deriving DecidableEq, Repr

def Payments.none : Payments := ⟨[], 0, [], []⟩

/-- The place of an asset in the order of byte strings. -/
def assetRank (assetId : AssetId) : Nat :=
  assetId.toList.foldl (fun rank byte => rank * 256 + byte.toNat) 0

/-- Adds to the running sum of an asset. -/
def addSent (assetId : AssetId) (amount : U128) :
    List (AssetId × U128) → Option (List (AssetId × U128))
  | [] => some [(assetId, amount)]
  | (first, sum) :: rest =>
    if first = assetId then (sum.checkedAdd amount).map fun sum => (first, sum) :: rest
    else if assetRank assetId < assetRank first then some ((assetId, amount) :: (first, sum) :: rest)
    else (addSent assetId amount rest).map fun rest => (first, sum) :: rest

section Calls

variable [Platform]

def clearContractCode (address : Text) : LedgerM Unit := do
  let some id := addressId address | return
  let _ ← delete (.contractCode id)
  let _ ← delete (.contractContextVersion id)
  let _ ← delete (.assetMintCeiling (assetIdOf id))

def declareMintCeiling (contract : Text) (ceiling : U128) : LedgerM Bool := do
  let some id := addressId contract | return false
  let state ← leaves
  if ceiling = 0 || (state (.assetMintCeiling (assetIdOf id))).isSome then return false
  put (.assetMintCeiling (assetIdOf id)) ceiling
  return true

def mintWithinCeiling (contract holder : Id) (amount : U128) : LedgerM Bool := do
  let state ← leaves
  let ceiling := state.mintCeiling contract
  let some total := (state.assetSupply (assetIdOf contract)).checkedAdd amount | return false
  if ceiling ≠ 0 && ceiling < total then return false
  mintAsset contract holder amount

def deployContractUnder (deployer : Text) (nonce : U64) (code : Bytes)
    (legacyTestnetKey mainnet : Bool) : LedgerM (Option Text) := do
  let some canonical := Platform.admitCode legacyTestnetKey mainnet code | return none
  let some contract := contractAddress deployer nonce | return none
  let some id := addressId contract | return none
  setContractCode id canonical
  return some contract

/-- Adds one payment. A recipient of 32 bytes is paid natively; one of 64 bytes names the issuer of
an asset and a holder. -/
def Payments.add (payments : Payments) (recipient : Bytes) (amount : U64) : Option Payments :=
  if recipient.length = 32 then do
    let target ← idBytesToAddress recipient
    let nativeSent ← payments.nativeSent.checkedAdd amount
    return { payments with
      nativeSent, nativeCredits := payments.nativeCredits ++ [(target, amount)] }
  else if recipient.length = 64 then do
    let issuer ← idFromSlice (recipient.take 32)
    let holder ← idFromSlice (recipient.drop 32)
    let moved : U128 := Word.clamp 128 amount.val
    let assetSent ← addSent (assetIdOf issuer) moved payments.assetSent
    return { payments with
      assetSent, assetCredits := payments.assetCredits ++ [(assetIdOf issuer, holder, moved)] }
  else none

/-- All payments among the effects of a call. -/
def Payments.of (effects : List Effect) : Option Payments :=
  effects.foldlM (fun payments effect =>
    match effect with
    | .transfer recipient amount => payments.add recipient amount
    | .event _ _ => some payments) .none

/-- Whether the contract can pay every asset, with what comes in by the call. -/
def Leaves.assetsFunded (state : Leaves) (contract : Id) (inAsset : Option AssetId) (value : U64) :
    List (AssetId × U128) → Option Rule
  | [] => none
  | (assetId, sent) :: rest =>
    let assetIn : U128 := if inAsset = some assetId then Word.clamp 128 value.val else 0
    match (state.assetBalance assetId contract).checkedAdd assetIn with
    | none => some .transferRejected
    | some funded =>
      if funded < sent then some .assetTooLow else state.assetsFunded contract inAsset value rest

/-- Whether every holder can take its asset credits, with the balances projected so far. -/
def Leaves.creditsFit (state : Leaves) :
    List (AssetId × Id × U128) → List ((AssetId × Id) × U128) → Bool
  | [], _ => true
  | (assetId, holder, amount) :: rest, projected =>
    let balance := (projected.lookup (assetId, holder)).getD (state.assetBalance assetId holder)
    match balance.checkedAdd amount with
    | none => false
    | some sum => state.creditsFit rest (((assetId, holder), sum) :: projected)

/-- Takes what the caller sends along. -/
def takeValue (caller contract : Text) (callerId contractId : Id) (value : U64)
    (inAsset : Option AssetId) : LedgerM (Option Rule) := do
  if value = 0 then return none
  match inAsset with
  | none =>
    applyBalanceDelta caller (-(value.val : Int))
    applyBalanceDelta contract (value.val : Int)
    return none
  | some assetId =>
    let state ← leaves
    let amount : U128 := Word.clamp 128 value.val
    if ((state.assetBalance assetId contractId).checkedAdd amount).isNone then
      return some .transferRejected
    if state.assetIssuerIsStopped assetId then return some .assetStopped
    if !(← debitAsset assetId callerId amount) then return some .valueExceedsBalance
    if !(← creditAsset assetId contractId amount) then return some .transferRejected
    return none

def payNative (contract : Text) (credit : Text × U64) : LedgerM Unit := do
  applyBalanceDelta contract (-(credit.2.val : Int))
  applyBalanceDelta credit.1 (credit.2.val : Int)
  emitSide (.contractTransfer contract credit.1 credit.2)

/-- Pays the asset credits in turn, up to the first that fails. -/
def payAssets (contractId : Id) : List (AssetId × Id × U128) → LedgerM (Option Rule)
  | [] => return none
  | (assetId, holder, amount) :: rest => do
    let state ← leaves
    if ((state.assetBalance assetId holder).checkedAdd amount).isNone then
      return some .transferRejected
    if state.assetIssuerIsStopped assetId then return some .assetStopped
    if !(← debitAsset assetId contractId amount) then return some .assetTooLow
    if !(← creditAsset assetId holder amount) then return some .transferRejected
    payAssets contractId rest

/-- Applies the events of a call in turn: a mint of the contract's asset is carried out, any other
event is recorded. -/
def applyEvents (context : Context) (contract : Text) (contractId : Id) :
    List Effect → LedgerM (Option Rule)
  | [] => return none
  | .transfer _ _ :: rest => applyEvents context contract contractId rest
  | .event selector data :: rest => do
    if selector = assetMintSelector && 40 ≤ data.length then
      let holder : Id := (idFromSlice (data.take 32)).getD (Vector.replicate 32 0)
      let amount : U128 :=
        Word.clamp 128 (Word.natOfLe ((data.drop 32).take 8).reverse)
      if !(← mintWithinCeiling contractId holder amount) then return some .mintCeiling
      applyEvents context contract contractId rest
    else
      emit ⟨contract, selector, data, context.currentTx⟩
      applyEvents context contract contractId rest

/-- Fails when a rule was broken. -/
def orFail (broken : Option Rule) (rest : LedgerM Bool) : LedgerM Bool :=
  match broken with
  | some rule => fail rule
  | none => rest

structure CallRequest where
  caller : Text
  contract : Text
  selector : Selector
  userMemory : Bytes
  now : U64
  meter : U64
  value : U64
  inAsset : Option Id
  chainId : U64
  deriving DecidableEq, Repr

/-- The memory a call starts from: what the chain says about the call, and then the rest of the
caller's bytes. -/
def callMemory (request : CallRequest) (callerId contractId : Id) (contextBytes : Nat)
    (genesis : Hash) : Bytes :=
  let head := callerId.toList ++ contractId.toList ++ request.now.beBytes 8 ++
    request.chainId.beBytes 8 ++ request.value.beBytes 8 ++
    (request.inAsset.getD (Vector.replicate 32 0)).toList
  let context := if contractContextBytes ≤ contextBytes then head ++ genesis.toList else head
  context ++ request.userMemory.drop contextBytes

/-- Whether the caller has what it sends along. -/
def Leaves.valueCovered (state : Leaves) (request : CallRequest) (callerId : Id)
    (inAsset : Option AssetId) : Bool :=
  match inAsset with
  | none => request.value ≤ state.balance request.caller
  | some assetId => request.value.val ≤ (state.assetBalance assetId callerId).val

/-- Whether the contract can pay everything natively and in assets. -/
def Leaves.paymentsFunded (state : Leaves) (request : CallRequest) (contractId : Id)
    (inAsset : Option AssetId) (payments : Payments) : Option Rule :=
  let nativeIn : U64 := if inAsset.isNone then request.value else 0
  match (state.balance request.contract).checkedAdd nativeIn with
  | none => some .transferRejected
  | some funded =>
    if funded < payments.nativeSent then some .insufficientFunds
    else
      match state.assetsFunded contractId inAsset request.value payments.assetSent with
      | some rule => some rule
      | none => if state.creditsFit payments.assetCredits [] then none else some .transferRejected

/-- Applies what a call that halted asks for. -/
def applyOutcome (context : Context) (request : CallRequest) (callerId contractId : Id)
    (inAsset : Option AssetId) (outcome : ContractOutcome) : LedgerM Bool := do
  let current ← residue
  leave { current with
    lastVmMeterUsed := current.lastVmMeterUsed.satAdd outcome.meterUsed
    lastVmCallCost := some outcome.meterUsed }
  let some payments := Payments.of outcome.effects | fail .transferRejected
  let state ← leaves
  orFail (state.paymentsFunded request contractId inAsset payments) do
    orFail (← takeValue request.caller request.contract callerId contractId request.value inAsset) do
      each (payNative request.contract) payments.nativeCredits
      orFail (← payAssets contractId payments.assetCredits) do
        orFail (← applyEvents context request.contract contractId outcome.effects) do
          each (fun entry => setContractSlot contractId entry.1 entry.2) outcome.storage
          return true

def runContract (context : Context) (request : CallRequest) : LedgerM Bool := do
  let current ← residue
  leave { current with callFailure := none }
  let some contractId := addressId request.contract | fail .noContract
  let state ← leaves
  let some code := state.contractCode contractId | fail .noContract
  let some callerId := addressId request.caller | fail .unknown
  let inAsset := request.inAsset.map assetIdOf
  if request.value ≠ 0 && !state.valueCovered request callerId inAsset then
    fail .valueExceedsBalance
  else
    let memory := callMemory request callerId contractId (state.contextBytes contractId)
      state.chainGenesisHash
    let executed ← expect (Platform.executeContractCall code request.selector
      (state.contractSlot contractId) memory request.meter)
    match executed with
    | .ok outcome => applyOutcome context request callerId contractId inAsset outcome
    | .error failure =>
      let current ← residue
      leave { current with callFailure := some failure }
      return false

def callContract (context : Context) (request : CallRequest) : LedgerM Bool := do
  if request.selector = Platform.genesisSelector then return false
  runContract context request

def runGenesis (context : Context) (request : CallRequest) : LedgerM Bool :=
  runContract context { request with selector := Platform.genesisSelector }

end Calls

end QuantovaChain.Ledger
