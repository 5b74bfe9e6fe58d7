import QuantovaChain.Ledger.Contract
import QuantovaChain.Ledger.Govern

/-!
# Kinds of transactions

The target of a call decides which lane a transaction takes; a transaction to no target of the chain
itself is a transfer or a contract call. This module has the tests for the lanes, and the plan of a
transfer: what it moves, once the account behind it is seen to afford it.
-/

namespace QuantovaChain.Node

open Idfmt (Text)
open Tx (Wrapper)
open Ledger

def transferMeter : U64 := 1210

def daySeconds : U64 := 86400

structure TransferPlan where
  sender : Text
  recipient : Text
  amount : U64
  fee : U64
  deriving DecidableEq, Repr

inductive Reject
  | unknownSender
  | unsupportedScheme
  | badSignature
  | badNonce (expected got : U64)
  | badCall
  | selfTransfer
  | zeroTransfer
  | meterLimitTooLow
  | feeTooLow
  | insufficientFunds
  | wrongChain
  | poolFull
  | senderQueueFull
  | rateLimited
  deriving DecidableEq, Repr

def chainOk (wrapper : Wrapper) (params : FeeParams) : Bool :=
  wrapper.body.chainId == params.chainId && Tx.addressesParse wrapper.body

/-- Whether an address is spelled as the chain spells it. -/
def canonicalAddress (address : Text) : Bool :=
  match addressId address with
  | some id => addressOf id == address
  | none => false

/-- What every lane with a fee asks: the next nonce, a meter for a transfer, and a fee that is high
enough and covered. -/
def paysFee (wrapper : Wrapper) (account : Account) (params : FeeParams) : Bool :=
  wrapper.body.nonce == account.nonce && decide (transferMeter ≤ wrapper.body.meterLimit) &&
    decide (params.transferFee.val ≤ wrapper.body.fee.val) &&
    decide (params.charged wrapper.body.fee ≤ account.balance)

/-- Whether the account has a key and the signature under it is good. -/
def signed (wrapper : Wrapper) (account : Account) (signatureOk : Bool) : Bool :=
  account.hasKey && Tx.schemeSupported wrapper.scheme && signatureOk

section Kinds

variable [Platform] (wrapper : Wrapper)

def zeroValueTarget (recipient : Text) : Bool :=
  [stakeClaimAddress, stakeExitAddress, stakeWithdrawAddress, bridgeFreezeAddress,
    bridgeUnfreezeAddress].contains recipient

def isStakePayee : Bool := wrapper.body.call.target == stakePayeeAddress

def isKeyRegister : Bool := wrapper.body.call.target == keyRegisterAddress

def isEvidence : Bool := wrapper.body.call.target == evidenceAddress

def isRegistration : Bool := wrapper.body.call.target == registrationAddress

def isBridgeGuardian : Bool := wrapper.body.call.target == bridgeGuardianAddress

def isBridgeMint : Bool := wrapper.body.call.target == bridgeMintAddress

def isBridgeExit : Bool := wrapper.body.call.target == bridgeExitAddress

def isBridgeSettle : Bool := wrapper.body.call.target == bridgeSettleAddress

def isGovernance : Bool := wrapper.body.call.target == govSystemAddress

def isDeploy : Bool := wrapper.body.call.target == vmDeployAddress

def isVmOp : Bool := isDeploy wrapper || wrapper.body.isCall

def isFeeless : Bool :=
  isBridgeMint wrapper || isBridgeSettle wrapper || isEvidence wrapper || isBridgeGuardian wrapper

/-- The plan of a transfer, checked against the sender's account in the order of the source. -/
def planFromAccountChecks (account : Account) (params : FeeParams) : Except Reject TransferPlan :=
  let body := wrapper.body
  let recipient := body.call.target
  let charged := params.charged body.fee
  if !chainOk wrapper params then .error .wrongChain
  else if body.isCall then .error .badCall
  else if body.nonce ≠ account.nonce then .error (.badNonce account.nonce body.nonce)
  else if !canonicalAddress body.sender then .error .unknownSender
  else match Tx.transferAmount body.call with
    | none => .error .badCall
    | some amount =>
      if !canonicalAddress recipient then .error .badCall
      else if recipient = body.sender then .error .selfTransfer
      else if accountRef body.sender = accountRef recipient then .error .selfTransfer
      else if amount = 0 ∧ !zeroValueTarget recipient then .error .zeroTransfer
      else if body.meterLimit < transferMeter then .error .meterLimitTooLow
      else if body.fee.val < params.transferFee.val then .error .feeTooLow
      else match amount.checkedAdd charged with
        | none => .error .insufficientFunds
        | some debit =>
          if account.balance < debit then .error .insufficientFunds
          else .ok { sender := body.sender, recipient, amount, fee := charged }

def planVerified (account : Account) (params : FeeParams) (signatureOk : Bool) :
    Except Reject TransferPlan :=
  if !Tx.schemeSupported wrapper.scheme then .error .unsupportedScheme
  else if !signatureOk then .error .badSignature
  else planFromAccountChecks wrapper account params

def validateVerified (state : Leaves) (wrapper : Wrapper) (params : FeeParams)
    (signatureOk : Bool) : Except Reject TransferPlan :=
  planVerified wrapper (state.account wrapper.body.sender) params signatureOk

end Kinds

/-! ## A local chain -/

/-- Every signature of the lattice scheme is good under every key of one byte. -/
@[reducible] def keyedPlatform : Platform :=
  { Platform.blank with
    mlDsaPublicKeyBytes := 1
    slhDsaPublicKeyBytes := 1
    mlDsaVerifyStrict := fun _ _ _ _ => true }

/-- A fee of one micro dollar for each native unit. -/
def localParams : FeeParams :=
  ⟨500, 1, 1, 1000, Tx.localChainId, qtovAssetTag, Vector.replicate 32 0⟩

/-- The account 8 has funds and a key. -/
def fundedLedger : Ledger :=
  emptyLedger.write (.account (.parsed (Vector.replicate 32 8))) ⟨0, 5000000000, 1, [1]⟩

/-- The first transaction of account 8. -/
def firstOf8 (call : Tx.Call) (kind : UInt8) (meterLimit : U64) (fee : U128) (validUntil : U64) :
    Wrapper :=
  { body :=
      { sender := addressOf (Vector.replicate 32 8), nonce := 0, meterLimit, fee, value := 0
        chainId := Tx.localChainId, call, inAsset := none, validUntil, kind }
    scheme := Tx.schemeLattice
    signature := [] }

end QuantovaChain.Node
