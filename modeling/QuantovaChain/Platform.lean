import QuantovaChain.Tx

/-!
# What the chain takes from outside

Hashing, signatures, the virtual machine and the attestation rules come from other crates. They
are the fields of one class, and nothing here says more about them than their types. Every result of
the development holds for every instance, and names what else it assumes of one.
-/

namespace QuantovaChain

open State (Bytes Hash)
open Idfmt (Text)

abbrev Selector := Vector UInt8 4

/-- A storage key of a contract. -/
abbrev Slot := Vector UInt8 32

/-- Why a contract call failed. The virtual machine has rules of its own besides those the chain
names. -/
inductive Rule
  | noContract
  | unknown
  | valueExceedsBalance
  | transferRejected
  | insufficientFunds
  | assetTooLow
  | assetStopped
  | mintCeiling
  | blockStateLimit
  | deployRejected
  | outOfMeter
  | genesisCall
  | unknownEntry
  | other (code : Nat)
  deriving DecidableEq, Repr

/-- What a contract asks of the chain. -/
inductive Effect
  | transfer (recipient : Bytes) (amount : U64)
  | event (selector : Selector) (data : Bytes)
  deriving DecidableEq, Repr

structure ContractOutcome where
  storage : List (Slot × U64)
  effects : List Effect
  meterUsed : U64
  deriving DecidableEq, Repr

structure Transferred where
  senderBalance : U64
  recipientBalance : U64
  meterUsed : U64
  deriving DecidableEq, Repr

/-- The offences of a single validator. -/
inductive Offence
  | equivocation
  | prevoteEquivocation
  | proposalEquivocation
  | lockViolation
  deriving DecidableEq, Repr

/-- Evidence against a single validator: who is accused, at what height, and the signed messages. -/
structure Accusation where
  offender : Text
  height : U64
  messages : Bytes
  deriving DecidableEq, Repr

/-- Evidence of two finalized blocks at one height: the signers of the first block's votes, and the
signed messages. -/
structure DoubleFinality where
  height : U64
  votesA : List Text
  messages : Bytes
  deriving DecidableEq, Repr

class Platform where
  sha3 : Bytes → Hash
  /-- The genesis that the process is bound to. -/
  genesis : Hash
  mlDsaPublicKeyBytes : Nat
  mlDsaSignatureBytes : Nat
  slhDsaPublicKeyBytes : Nat
  slhDsaSignatureBytes : Nat
  mlDsaDegenerate : Bytes → Bool
  mlDsaVerify : (publicKey message signature context : Bytes) → Bool
  mlDsaVerifyStrict : (publicKey message signature context : Bytes) → Bool
  slhDsaVerify : (publicKey message signature context : Bytes) → Bool
  /-- Runs the transfer program on the balances of sender and recipient, the amount, the fee and the
  meter. -/
  executeTransfer : U64 → U64 → U64 → U64 → U64 → Option Transferred
  /-- Runs an entry of a contract over its storage and memory within a meter. A machine that panics
  gives nothing. -/
  executeContractCall : Bytes → Selector → (Slot → U64) → Bytes → U64 →
    Option (Except (Rule × U32) ContractOutcome)
  genesisSelector : Selector
  memBytes : Nat
  declaresGenesis : Bytes → Bool
  /-- The canonical container of deployed code whose provenance is admitted under the rules of
  mainnet, of the legacy test net, or else of the chain at hand. -/
  admitCode : (legacyTestnetKey mainnet : Bool) → Bytes → Option Bytes
  decodeAccusation : Offence → Bytes → Option Accusation
  decodeDoubleFinality : Bytes → Option DoubleFinality
  /-- Whether the messages prove the offence under an attestation key, on a chain and genesis. -/
  attributes : Offence → U64 → Hash → Accusation → Bytes → Bool
  /-- Those proven to have finalized twice, given the attestation keys. -/
  doubleFinalityOffenders : U64 → Hash → DoubleFinality → (Text → Option Bytes) →
    Option (List Text)

/-- A platform on which nothing is ever accepted. -/
@[reducible] def Platform.blank : Platform where
  sha3 _ := Vector.replicate 32 0
  genesis := Vector.replicate 32 0
  mlDsaPublicKeyBytes := 0
  mlDsaSignatureBytes := 0
  slhDsaPublicKeyBytes := 0
  slhDsaSignatureBytes := 0
  mlDsaDegenerate _ := false
  mlDsaVerify _ _ _ _ := false
  mlDsaVerifyStrict _ _ _ _ := false
  slhDsaVerify _ _ _ _ := false
  executeTransfer _ _ _ _ _ := none
  executeContractCall _ _ _ _ _ := none
  genesisSelector := Vector.replicate 4 0
  memBytes := 0
  declaresGenesis _ := false
  admitCode _ _ _ := none
  decodeAccusation _ _ := none
  decodeDoubleFinality _ := none
  attributes _ _ _ _ _ := false
  doubleFinalityOffenders _ _ _ _ := none

variable [Platform]

namespace Tx

def domainTx : Bytes := Idfmt.ascii "quantova.transaction.v1"

/-- Whether a transaction is signed under a key, on the chain of a genesis. -/
def verify (wrapper : Wrapper) (publicKey : Bytes) (genesis : Hash) : Bool :=
  let digest := (bodyDigest Platform.sha3 wrapper.body genesis).toList
  if wrapper.scheme = schemeLattice then
    publicKey.length == Platform.mlDsaPublicKeyBytes &&
      wrapper.signature.length == Platform.mlDsaSignatureBytes &&
      Platform.mlDsaVerifyStrict publicKey digest wrapper.signature domainTx
  else if wrapper.scheme = schemeHash then
    publicKey.length == Platform.slhDsaPublicKeyBytes &&
      wrapper.signature.length == Platform.slhDsaSignatureBytes &&
      Platform.slhDsaVerify publicKey digest wrapper.signature domainTx
  else false

end Tx

namespace Platform

/-- Whether a transaction is signed under a key, on the chain that the process is bound to. The cache
of verified signatures does not show here: it answers what the verification itself would. -/
def verify (wrapper : Tx.Wrapper) (publicKey : Bytes) : Bool := Tx.verify wrapper publicKey genesis

end Platform

end QuantovaChain
