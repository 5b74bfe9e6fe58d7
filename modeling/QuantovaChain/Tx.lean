import QuantovaChain.Idfmt
import QuantovaChain.Governance

/-!
# Transactions and their fees

A transaction is a body, wrapped with a signature. Its identifier is the hash of its encoding, in
which an address that parses stands as its payload. Fees are banded in micro dollars and converted
at the configured rate.
-/

namespace QuantovaChain

open State (Bytes Hash)
open Idfmt (Text)
open Governance (Id)

namespace Tx

open Codec

def schemeLattice : UInt8 := 1

def schemeHash : UInt8 := 2

def schemeSupported (scheme : UInt8) : Bool := scheme == schemeLattice || scheme == schemeHash

def localChainId : U64 := 13749533161254861464

def testnetChainId : U64 := 49882562325403262

def mainnetChainId : U64 := 5296651311193914109

def kindTransfer : UInt8 := 0

def kindCall : UInt8 := 1

structure Call where
  target : Text
  args : Bytes
  deriving DecidableEq, Repr

structure Body where
  sender : Text
  nonce : U64
  meterLimit : U64
  fee : U128
  value : U64
  chainId : U64
  call : Call
  inAsset : Option Id
  validUntil : U64
  kind : UInt8
  deriving DecidableEq, Repr

def Body.isCall (body : Body) : Bool := body.kind == kindCall

structure Wrapper where
  body : Body
  scheme : UInt8
  signature : Bytes
  deriving DecidableEq, Repr

/-- An address that parses is encoded by its payload, any other text as it stands. -/
def putAddress (address : Text) : Bytes :=
  match Idfmt.parseAddress address with
  | .ok payload => putBytes payload
  | .error _ => putBytes address

def Call.encode (call : Call) : Bytes := putAddress call.target ++ putBytes call.args

def Body.encode (body : Body) : Bytes :=
  putAddress body.sender ++ putU64 body.nonce ++ putU64 body.meterLimit ++ putU128 body.fee ++
    body.call.encode ++ putU64 body.value ++ putU64 body.chainId ++
    putBytes ((body.inAsset.map Vector.toList).getD []) ++ putU64 body.validUntil ++ putU8 body.kind

def Wrapper.encode (wrapper : Wrapper) : Bytes :=
  wrapper.body.encode ++ putU8 wrapper.scheme ++ putBytes wrapper.signature

/-- The identifier of a transaction. -/
def Wrapper.id (sha3 : Bytes → Hash) (wrapper : Wrapper) : Text :=
  Idfmt.render Idfmt.hrpTx (sha3 wrapper.encode).toList

/-- What is signed for a transaction. -/
def bodyDigest (sha3 : Bytes → Hash) (body : Body) (genesis : Hash) : Hash :=
  sha3 (genesis.toList ++ body.encode)

def addressesParse (body : Body) : Bool :=
  (Idfmt.parseAddress body.sender).isOk && (Idfmt.parseAddress body.call.target).isOk

/-- The amount that the arguments of a transfer spell. -/
def transferAmount (call : Call) : Option U64 := Word.ofLe? 64 call.args

end Tx

def microUsdFloor : U128 := 500

def microUsdCeiling : U128 := 1000

def deployFeeMicroUsd : U128 := 5000000

abbrev AssetTag := Vector UInt8 8

/-- The tag of the native asset, padded to eight bytes. -/
def qtovAssetTag : AssetTag := #v[81, 84, 79, 86, 0, 0, 0, 0]

structure FeeParams where
  transferMicroUsd : U128
  rateMicroUsdPerQtov : U128
  nativeUnit : U128
  maxFeeNative : U64
  chainId : U64
  nativeAsset : AssetTag
  deployTreasury : Id
  deriving DecidableEq, Repr

namespace FeeParams

/-- Micro dollars at the configured rate, which is nothing at rate zero. -/
def convert (params : FeeParams) (microUsd : U128) : U64 :=
  Word.clamp 64 ((microUsd.satMul params.nativeUnit).div params.rateMicroUsdPerQtov).val

def nativeFee (params : FeeParams) (microUsd : U128) : U64 :=
  min (params.convert (min (max microUsd microUsdFloor) microUsdCeiling)) params.maxFeeNative

def transferFee (params : FeeParams) : U64 := params.nativeFee params.transferMicroUsd

def ceilingFee (params : FeeParams) : U64 := params.nativeFee microUsdCeiling

def deployFee (params : FeeParams) : U64 := params.convert deployFeeMicroUsd

def deployTreasuryAddress (params : FeeParams) : Text :=
  Idfmt.render Idfmt.hrpAddress params.deployTreasury.toList

/-- What is charged for an offered fee: the offer, up to the ceiling. -/
def charged (params : FeeParams) (offered : U128) : U64 :=
  (Word.ofNat? 64 (Min.min offered.val params.ceilingFee.val)).getD params.ceilingFee

end FeeParams

end QuantovaChain
