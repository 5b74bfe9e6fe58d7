import QuantovaChain.Codec.Decoder
import QuantovaChain.Tx

/-!
# Blocks

A block is a header, a certificate and a body of transactions. Headers are encoded field by field,
with limits on the fields of variable length.
-/

namespace QuantovaChain

open State (Bytes Hash)
open Codec Codec.Decoder Reading

/-- The bytes of a text. -/
def asBytes (text : String) : Bytes := text.toByteArray.data.toList

/-- The text that bytes spell. -/
def fromUtf8 (bytes : Bytes) : Option String := String.fromUTF8? ⟨bytes.toArray⟩

/-- Bytes spell a text exactly if they are its encoding. -/
theorem fromUtf8_eq_some {bytes : Bytes} {text : String} :
    fromUtf8 bytes = some text ↔ bytes = asBytes text := by
  unfold fromUtf8 String.fromUTF8?
  split
  next valid =>
    rw [Option.some.injEq]
    constructor
    · rintro rfl
      rfl
    · rintro rfl
      rfl
  next invalid =>
    constructor
    · intro none
      cases none
    · rintro rfl
      exact absurd text.isValidUTF8 invalid

namespace Chain

def maxExtraData : Nat := 32

def maxProposer : Nat := 128

inductive Error
  | codec (error : Codec.Error)
  | proposer
  | extraDataTooLong
  deriving DecidableEq, Repr

instance : FromError Error := ⟨.codec⟩

structure Header where
  height : U64
  parentHash : Hash
  qRoot : Hash
  transactionRoot : Hash
  eventRoot : Hash
  beaconSeed : Hash
  proposer : String
  time : U64
  extraData : Bytes
  deriving DecidableEq

/-- Puts a root byte by byte, without its length. -/
def putRoot (root : Hash) : Bytes := root.toList.flatMap putU8

def getRoot {ε : Type} [FromError ε] : Decoder ε Hash := fill getU8 32

/-- A root is read back byte by byte, and what is left behind it is the rest. -/
theorem inverts_getRoot {ε : Type} [FromError ε] :
    Inverts (getRoot : Decoder ε Hash) putRoot fun _ => True := by
  intro input root rest
  rw [getRoot, inverts_getU8.fill 32 input root rest]
  simp [putRoot]

theorem length_putRoot (root : Hash) : (putRoot root).length = 32 := by
  simp [putRoot, putU8, List.length_flatMap]

namespace Header

def encode (header : Header) : Bytes :=
  putU64 header.height ++ putRoot header.parentHash ++ putRoot header.qRoot ++
    putRoot header.transactionRoot ++ putRoot header.eventRoot ++ putRoot header.beaconSeed ++
    putBytes (asBytes header.proposer) ++ putU64 header.time ++ putBytes header.extraData

def decode : Decoder Error Header := do
  let height ← getU64
  let parentHash ← getRoot
  let qRoot ← getRoot
  let transactionRoot ← getRoot
  let eventRoot ← getRoot
  let beaconSeed ← getRoot
  let proposerBytes ← getBytes
  if maxProposer < proposerBytes.length then throw .proposer
  else match fromUtf8 proposerBytes with
    | none => throw .proposer
    | some proposer =>
      let time ← getU64
      let extraData ← getBytes
      if maxExtraData < extraData.length then throw .extraDataTooLong
      else return { height, parentHash, qRoot, transactionRoot, eventRoot, beaconSeed, proposer,
                    time, extraData }

/-- The limits on a header. -/
def Fits (header : Header) : Prop :=
  (asBytes header.proposer).length ≤ maxProposer ∧ header.extraData.length ≤ maxExtraData

/-- A header is read exactly from the encoding of a header within the limits, as each field is read
back and the limits are checked on the way. -/
theorem inverts_decode : Inverts decode encode Fits := by
  intro input header rest
  constructor
  · simp only [decode, inverts_getU64.reads_bind, inverts_getRoot.reads_bind,
      inverts_getBytes.reads_bind]
    rintro ⟨height, _, -, rfl, parentHash, _, -, rfl, qRoot, _, -, rfl, transactionRoot, _, -, rfl,
      eventRoot, _, -, rfl, beaconSeed, _, -, rfl, proposerBytes, _, -, rfl, reads⟩
    split at reads
    next => exact absurd reads reads_throw
    next short =>
    split at reads
    next => exact absurd reads reads_throw
    next proposer spelled =>
    simp only [inverts_getU64.reads_bind, inverts_getBytes.reads_bind] at reads
    obtain ⟨time, _, -, rfl, extraData, _, -, rfl, reads⟩ := reads
    split at reads
    next => exact absurd reads reads_throw
    next small =>
    obtain ⟨rfl, rfl⟩ := reads_pure.mp reads
    cases fromUtf8_eq_some.mp spelled
    exact ⟨⟨Nat.not_lt.mp short, Nat.not_lt.mp small⟩, by simp [encode]⟩
  · rintro ⟨⟨short, small⟩, rfl⟩
    simp only [encode, List.append_assoc]
    refine inverts_getU64.andThen trivial ?_
    refine inverts_getRoot.andThen trivial ?_
    refine inverts_getRoot.andThen trivial ?_
    refine inverts_getRoot.andThen trivial ?_
    refine inverts_getRoot.andThen trivial ?_
    refine inverts_getRoot.andThen trivial ?_
    refine inverts_getBytes.andThen (Nat.lt_of_le_of_lt short (by decide)) ?_
    rw [if_neg (Nat.not_lt.mpr short), fromUtf8_eq_some.mpr rfl]
    refine inverts_getU64.andThen trivial ?_
    refine inverts_getBytes.andThen (Nat.lt_of_le_of_lt small (by decide)) ?_
    rw [if_neg (Nat.not_lt.mpr small)]
    exact reads_pure.mpr ⟨rfl, rfl⟩

end Header

end Chain

end QuantovaChain
