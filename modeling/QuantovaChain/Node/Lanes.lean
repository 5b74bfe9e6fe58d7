import QuantovaChain.Node.Plan

/-!
# The lanes

One program for each lane of a block. A lane that returns false, or panics, leaves nothing behind,
because the block runs it inside a transaction. Next to each lane stands what a node asks of a
transaction before it lets it wait for a block.
-/

namespace QuantovaChain.Node

open State (Bytes Hash)
open Idfmt (Text ascii)
open Tx (Wrapper)
open Governance (Id Action Conviction GuardianSet)
open Codec
open Ledger
open Transaction.Program (expect)

/-! ## Upgrades -/

structure Upgrades where
  gasMeteredFromHeight : U64
  boundDrawFromEpoch : U64
  hardenedFromHeight : U64
  deriving DecidableEq, Repr

namespace Upgrades

def fromGenesis : Upgrades := ⟨0, 0, 0⟩

def testnet : Upgrades := ⟨0, 0, 0⟩

def forChain (chainId : U64) : Upgrades :=
  if chainId = Tx.testnetChainId then testnet else fromGenesis

def gasMetered (upgrades : Upgrades) (height : U64) : Bool :=
  upgrades.gasMeteredFromHeight ≤ height

def hardened (upgrades : Upgrades) (height : U64) : Bool := upgrades.hardenedFromHeight ≤ height

end Upgrades

/-! ## Governance -/

inductive GovOp
  | propose (action : Action)
  | vote (referendum : U64) (aye : Bool) (conviction : Conviction) (stake : U64)
  | enact (referendum : U64)
  | conclude (referendum : U64)
  | release
  deriving DecidableEq, Repr

def readFlag : Reader Bool := do
  match (← Reader.u8) with
  | 0 => return false
  | 1 => return true
  | _ => failure

def decodeGovOp (op : UInt8) (payload : Bytes) : Option GovOp :=
  Reader.whole (do
    match op with
    | 1 => return .propose (← Action.decode)
    | 2 =>
      let referendum ← Reader.u64
      let aye ← readFlag
      let conviction ← Conviction.fromCode (← Reader.u8)
      let stake ← Reader.u64
      return .vote referendum aye conviction stake
    | 3 => return .enact (← Reader.u64)
    | 4 => return .conclude (← Reader.u64)
    | 5 => return .release
    | _ => failure) payload

section Lanes

variable [Platform] (state : Leaves) (context : Context) (wrapper : Wrapper)

def governanceAdmissible (account : Account) (params : FeeParams) (signatureOk : Bool) :
    Option GovOp :=
  if isGovernance wrapper && params.nativeAsset == qtovAssetTag &&
      signed wrapper account signatureOk && paysFee wrapper account params then
    match wrapper.body.call.args with
    | [] => none
    | op :: payload => decodeGovOp op payload
  else none

/-- Takes the fee and the nonce of a transaction. -/
def chargeFee (sender : Text) (account : Account) (charged : U64) : LedgerM Unit := do
  setAccount sender (← account.pay charged)
  collectFee context charged

def runGovOp (sender : Text) (operation : GovOp) (now chainId : U64) : LedgerM Unit := do
  match operation with
  | .propose action =>
    let _ ← govPropose context sender action.track action now
  | .vote referendum aye conviction stake =>
    let _ ← govVote context sender referendum aye conviction stake now
  | .enact referendum =>
    let _ ← govEnact context referendum now chainId
  | .conclude referendum =>
    let _ ← govConclude context referendum now
  | .release =>
    let _ ← govRelease sender now

def dispatchGovernance (signatureOk : Bool) (params : FeeParams) (now : U64) : LedgerM Bool := do
  let sender := wrapper.body.sender
  let state ← leaves
  if state.isBlacklisted sender then return false
  let account := state.account sender
  let some operation := governanceAdmissible wrapper account params signatureOk | return false
  chargeFee context sender account (params.charged wrapper.body.fee)
  runGovOp context sender operation now params.chainId
  return true

/-! ## Keys and payees -/

/-- Whether a key is one that the lattice scheme must not use. -/
def keyDegenerate (scheme : UInt8) (publicKey : Bytes) : Bool :=
  scheme == Tx.schemeLattice && publicKey.length == Platform.mlDsaPublicKeyBytes &&
    Platform.mlDsaDegenerate publicKey

def keyRegisterAdmissible (account : Account) (params : FeeParams) (signatureOk : Option Bool) :
    Option Bytes :=
  let publicKey := wrapper.body.call.args
  if isKeyRegister wrapper && Tx.schemeSupported wrapper.scheme &&
      addressForKey wrapper.scheme publicKey == wrapper.body.sender &&
      !keyDegenerate wrapper.scheme publicKey && paysFee wrapper account params &&
      signatureOk.getD (Platform.verify wrapper publicKey) then
    some publicKey
  else none

def dispatchKeyRegister (params : FeeParams) : LedgerM Bool := do
  let sender := wrapper.body.sender
  let state ← leaves
  if state.isBlacklisted sender then return false
  let account := state.account sender
  let some publicKey := keyRegisterAdmissible wrapper account params none | return false
  let charged := params.charged wrapper.body.fee
  let paid ← account.pay charged
  setAccount sender { paid with scheme := wrapper.scheme, publicKey }
  collectFee context charged
  return true

def stakePayeeAdmissible (account : Account) (params : FeeParams) (signatureOk : Bool) :
    Option Id :=
  if isStakePayee wrapper && signed wrapper account signatureOk && paysFee wrapper account params then
    match idFromSlice wrapper.body.call.args, addressId wrapper.body.sender with
    | some payee, some sender =>
      if payee == Vector.replicate 32 0 || (state.stakePayee sender).isSome then none else some payee
    | _, _ => none
  else none

def dispatchStakePayee (signatureOk : Bool) (params : FeeParams) : LedgerM Bool := do
  let sender := wrapper.body.sender
  let state ← leaves
  if state.isBlacklisted sender then return false
  let account := state.account sender
  let some payee := stakePayeeAdmissible state wrapper account params signatureOk | return false
  designateStakePayeeWithFee context sender payee (params.charged wrapper.body.fee)

/-! ## Evidence -/

/-- What a piece of evidence is, tried in the order in which a block tries it. -/
inductive Charge
  | double (evidence : DoubleFinality)
  | single (offence : Offence) (accusation : Accusation)
  deriving DecidableEq, Repr

def decodeSingle (offences : List Offence) (args : Bytes) : Option Charge :=
  offences.findSome? fun offence =>
    (Platform.decodeAccusation offence args).map (Charge.single offence)

def decodeCharge (args : Bytes) : Option Charge :=
  match Platform.decodeDoubleFinality args with
  | some evidence => some (.double evidence)
  | none =>
    decodeSingle [.prevoteEquivocation, .proposalEquivocation, .lockViolation, .equivocation] args

/-- Whether the height of an offence can have been reached. -/
def heightReached (height : U64) : Bool :=
  height ≤ context.executionHeight.satAdd 1

def accusationProven (chainId : U64) (offence : Offence) (accusation : Accusation) : Bool :=
  heightReached context accusation.height &&
    match state.validatorAttestKey accusation.offender with
    | some key => Platform.attributes offence chainId state.chainGenesisHash accusation key
    | none => false

/-- Those proven to have finalized twice. -/
def doubleFinalityProven (chainId : U64) (evidence : DoubleFinality) : Option (List Text) :=
  if (Upgrades.forChain chainId).hardened context.executionHeight &&
      heightReached context evidence.height then
    Platform.doubleFinalityOffenders chainId state.chainGenesisHash evidence state.validatorAttestKey
  else none

/-- Slashes in turn, and says whether anyone was slashed. -/
def slashAll : List Text → LedgerM Bool
  | [] => return false
  | offender :: rest => do
    let first ← slashValidator offender
    let others ← slashAll rest
    return first || others

def dispatchEvidence (chainId : U64) : LedgerM Bool := do
  let state ← leaves
  match decodeCharge wrapper.body.call.args with
  | some (.double evidence) =>
    match doubleFinalityProven state context chainId evidence with
    | some offenders => slashAll offenders
    | none => return false
  | some (.single offence accusation) =>
    if accusationProven state context chainId offence accusation then
      slashValidator accusation.offender
    else return false
  | none => return false

/-! ## Guardians -/

def guardianDomain : Bytes := ascii "QUANTOVA/Q/BRIDGE-GUARDIAN/v1"

def guardianUnfreezeOp : UInt8 := 0

def guardianFreezeOp : UInt8 := 1

def guardianEnactOp : UInt8 := 2

def maxGuardianPayload : Nat := 65536

def maxGuardianTargets : Nat := 64

def maxGuardianApprovals : Nat := 64

structure GuardianApproval where
  scheme : UInt8
  publicKey : Bytes
  signature : Bytes
  deriving DecidableEq, Repr

structure GuardianAct where
  op : UInt8
  bound : U64
  targets : List Id
  approvals : List GuardianApproval
  payload : Bytes
  deriving DecidableEq, Repr

omit [Platform] in
/-- Elements after their number, which is bounded. -/
def readBounded {α : Type} (element : Reader α) (most : Nat) : Reader (List α) := do
  let count ← Reader.u32
  if most < count.val then failure else Reader.many element count.val

def GuardianApproval.read : Reader GuardianApproval := do
  let scheme ← Reader.u8
  let publicKey ← Reader.bytes
  let signature ← Reader.bytes
  return { scheme, publicKey, signature }

def GuardianAct.decode : Bytes → Option GuardianAct :=
  Reader.whole do
    let op ← Reader.u8
    let bound ← Reader.u64
    let targets ← readBounded (Reader.sizedArray 32) maxGuardianTargets
    let approvals ← readBounded GuardianApproval.read maxGuardianApprovals
    let payload ← Reader.bytes
    if maxGuardianPayload < payload.length then failure
    return { op, bound, targets, approvals, payload }

/-- What guardians sign. -/
def guardianChallenge (chainId : U64) (era : Hash) (act : GuardianAct) : Bytes :=
  putU64 chainId ++ era.toList ++ [act.op] ++ putU64 act.bound ++
    putU32 (Word.wrap 32 act.targets.length) ++ act.targets.flatMap Vector.toList ++
    putU32 (Word.wrap 32 act.payload.length) ++ act.payload

/-- No act of the guardians carries an action any more. -/
def guardianEnactAction (_act : GuardianAct) : Option Action := none

def guardianMemberId (scheme : UInt8) (publicKey : Bytes) : Option Id :=
  addressId (addressForKey scheme publicKey)

def guardianSignatureOk (approval : GuardianApproval) (message : Bytes) : Bool :=
  if approval.scheme = Tx.schemeLattice then
    Bridge.signs approval.publicKey message approval.signature guardianDomain
  else if approval.scheme = Tx.schemeHash then
    approval.publicKey.length == Platform.slhDsaPublicKeyBytes &&
      Platform.slhDsaVerify approval.publicKey message approval.signature guardianDomain
  else false

/-- Goes through the approvals with the members tried so far. -/
def approvers (set : GuardianSet) (message : Bytes) : List GuardianApproval → List Id → List Id
  | [], _ => []
  | approval :: rest, attempted =>
    match guardianMemberId approval.scheme approval.publicKey with
    | none => approvers set message rest attempted
    | some id =>
      if attempted.contains id then approvers set message rest attempted
      else if set.isMember id && guardianSignatureOk approval message then
        id :: approvers set message rest (id :: attempted)
      else approvers set message rest (id :: attempted)

def guardianApprovers (set : GuardianSet) (act : GuardianAct) (chainId : U64) (era : Hash) :
    List Id :=
  approvers set (guardianChallenge chainId era act) act.approvals []

def dispatchBridgeGuardian (chainId now : U64) : LedgerM Bool := do
  let state ← leaves
  let set := state.guardianSet
  if !set.wellFormed then return false
  let some act := GuardianAct.decode wrapper.body.call.args | return false
  let approved := guardianApprovers set act chainId state.bridgeEra
  if act.op = guardianFreezeOp then
    guardianFreeze act.bound act.targets approved now
  else if act.op = guardianUnfreezeOp then
    if state.bridgeFreeze.any fun record => record.untilTime == act.bound then
      guardianBridgeUnfreeze approved now
    else return false
  else if act.op = guardianEnactOp then
    match guardianEnactAction act with
    | some action =>
      if set.authorizes approved then guardianEnactBridgeAction action act.bound now else return false
    | none => return false
  else return false

/-! ## The bridge -/

def maxBridgeStarkBytes : Nat := 1048576

/-- The size of the signatures of a whole committee. -/
def signatureFrames : Nat :=
  ((state.bridgeOperatorSet.map fun set => set.operators.length).getD 0) *
    (4 + 2 + Platform.mlDsaSignatureBytes)

def maxMintArtifactBytes : Nat :=
  4 + (2 + Bridge.factEncodedLen + 4 + signatureFrames state) + 4 + (1 + 32 + 4 + maxBridgeStarkBytes)

def bridgeMintSourceKey : Option (U32 × Id) :=
  (Bridge.MintArtifact.decode wrapper.body.call.args).map fun artifact =>
    (artifact.attestation.fact.sourceChain, artifact.attestation.fact.sourceRef)

def mintFits : Bool :=
  let requiresStark :=
    ((Bridge.MintArtifact.decode wrapper.body.call.args).bind fun artifact =>
      state.bridgedAsset artifact.attestation.fact.assetId).any QAsset.requiresStark
  let most := if requiresStark then maxMintArtifactBytes state
    else maxMintArtifactBytes state - maxBridgeStarkBytes
  wrapper.body.call.args.length ≤ most

/-- The deposit that enough operators attest, for an asset that takes attestations. -/
def bridgeMintFact (chainId : U64) : Option Bridge.Fact :=
  if !state.bridgeFederatedEnabled then none
  else do
    let artifact ← Bridge.MintArtifact.decode wrapper.body.call.args
    let destChain ← state.bridgeDestChain
    let operators ← state.bridgeOperatorSet
    if Bridge.quorumAttests operators artifact.attestation destChain chainId state.bridgeEra &&
        !(state.bridgedAsset artifact.attestation.fact.assetId).any QAsset.requiresStark then
      some artifact.attestation.fact
    else none

def dispatchBridgeMint (chainId : U64) : LedgerM Bool := do
  let state ← leaves
  if state.bridgeIsFrozen || !mintFits state wrapper then return false
  let some fact := bridgeMintFact state wrapper chainId | return false
  bridgeMint context fact

def bridgeSettleFact (chainId : U64) : Option Bridge.ExitFact := do
  let attestation ← Bridge.ExitAttestation.decode wrapper.body.call.args
  let destChain ← state.bridgeDestChain
  let operators ← state.bridgeOperatorSet
  if Bridge.exitQuorumAttests operators attestation destChain chainId state.bridgeEra then
    some attestation.fact
  else none

def maxSettleArtifactBytes : Nat :=
  2 + Bridge.exitFactEncodedLen + 4 + signatureFrames state

/-- Whether settlements are taken at all, and this one is not too long. -/
def settleOpen : Bool :=
  state.bridgeExitsEnabled && !state.bridgeIsFrozen &&
    decide (wrapper.body.call.args.length ≤ maxSettleArtifactBytes state)

def dispatchBridgeSettle (chainId : U64) : LedgerM Bool := do
  let state ← leaves
  if !settleOpen state wrapper then return false
  let some fact := bridgeSettleFact state wrapper chainId | return false
  match fact.outcome with
  | .settle => bridgeSettle fact
  | .slash => bridgeSlash fact

def bridgeExitAdmissible (account : Account) (params : FeeParams) (signatureOk : Bool) :
    Option (Bridge.ExitRequest × Id) :=
  if isBridgeExit wrapper && state.bridgeExitsEnabled && !state.bridgeIsFrozen &&
      signed wrapper account signatureOk && paysFee wrapper account params then do
    let request ← Bridge.ExitRequest.decode wrapper.body.call.args
    let holder ← addressId wrapper.body.sender
    if (state.bridgedAsset request.assetId).isNone || request.amount == 0 ||
        state.bridgeExitMaxAmount == 0 || decide (state.bridgeExitMaxAmount < request.amount) ||
        decide (state.bridgedBalance request.assetId holder < request.amount) then none
    else some (request, holder)
  else none

def dispatchBridgeExit (signatureOk : Bool) (params : FeeParams) : LedgerM Bool := do
  let sender := wrapper.body.sender
  let state ← leaves
  if state.isBlacklisted sender then return false
  let account := state.account sender
  let some (request, holder) := bridgeExitAdmissible state wrapper account params signatureOk
    | return false
  chargeFee context sender account (params.charged wrapper.body.fee)
  bridgeBurn request.assetId holder request.amount request.destination params.chainId
    wrapper.body.nonce

/-! ## Transfers -/

def dispatchTransfer (plan : TransferPlan) (meterLimit : U64) : LedgerM Bool := do
  if plan.amount = 0 then return false
  let state ← leaves
  let sender := state.account plan.sender
  let recipient := state.account plan.recipient
  let some transferred :=
      Platform.executeTransfer sender.balance recipient.balance plan.amount plan.fee meterLimit
    | return false
  let nonce ← expect (sender.nonce.checkedAdd 1)
  setAccount plan.sender { sender with balance := transferred.senderBalance, nonce }
  setAccount plan.recipient { recipient with balance := transferred.recipientBalance }
  collectFee context plan.fee
  recordTransferEvent plan.sender plan.recipient plan.amount plan.fee
  return true

end Lanes

end QuantovaChain.Node
