import QuantovaChain.Codec.Reader

/-!
# What a transaction's encoding identifies

The encoding of a transaction determines all of it but the texts of its two addresses. Of an address
it has the payload when the text parses, and the text itself when it does not. Texts of one payload
are thus encoded alike, and so is a text that does not parse and happens to be the bytes of a
payload. Where addresses parse, as they do in every transaction that is admitted, the encoding
identifies the accounts.
-/

namespace QuantovaChain.Tx

open State (Bytes Hash)
open Idfmt (Text)
open Codec Codec.Reader

/-- What is encoded of an address. -/
def addressBytes (address : Text) : Bytes :=
  match Idfmt.parseAddress address with
  | .ok payload => payload
  | .error _ => address

theorem putAddress_eq (address : Text) : putAddress address = putBytes (addressBytes address) := by
  unfold putAddress addressBytes
  cases Idfmt.parseAddress address <;> rfl

/-- Two texts that are encoded alike: of one payload when both parse, equal when neither does, and
otherwise the text that does not parse is the payload of the one that does. -/
def SameAddress (first second : Text) : Prop :=
  match Idfmt.parseAddress first, Idfmt.parseAddress second with
  | .ok payload, .ok other => payload = other
  | .ok payload, .error _ => payload = second
  | .error _, .ok other => first = other
  | .error _, .error _ => first = second

/-- Two bodies that agree in everything but the spelling of their addresses. -/
structure Body.Same (first second : Body) : Prop where
  sender : SameAddress first.sender second.sender
  target : SameAddress first.call.target second.call.target
  content : { first with
    sender := second.sender, call := { first.call with target := second.call.target } } = second

structure Wrapper.Same (first second : Wrapper) : Prop where
  body : first.body.Same second.body
  scheme : first.scheme = second.scheme
  signature : first.signature = second.signature

/-- A transaction whose texts, arguments and signature have lengths that fit their words, as all do
that the program can hold. -/
structure Wrapper.Sized (wrapper : Wrapper) : Prop where
  sender : wrapper.body.sender.length < 2 ^ 64
  target : wrapper.body.call.target.length < 2 ^ 64
  args : wrapper.body.call.args.length < 2 ^ 64
  signature : wrapper.signature.length < 2 ^ 64

theorem sameAddress_iff {first second : Text} :
    SameAddress first second ↔ addressBytes first = addressBytes second := by
  unfold SameAddress addressBytes
  cases Idfmt.parseAddress first <;> cases Idfmt.parseAddress second <;> exact Iff.rfl

theorem length_addressBytes {address : Text} (short : address.length < 2 ^ 64) :
    (addressBytes address).length < 2 ^ 64 := by
  unfold addressBytes
  split
  next payload parsed =>
    rw [(Idfmt.parseDigest_eq_ok.mp parsed).2]
    decide
  next => exact short

theorem inAsset_injective {first second : Option Hash}
    (same : (first.map Vector.toList).getD [] = (second.map Vector.toList).getD []) :
    first = second := by
  have nonempty (asset : Hash) : asset.toList ≠ [] :=
    List.ne_nil_of_length_eq_add_one asset.length_toList
  cases first with
  | none => cases second with
    | none => rfl
    | some asset => exact absurd same.symm (nonempty asset)
  | some asset => cases second with
    | none => exact absurd same (nonempty asset)
    | some other => exact congrArg some (Vector.toList_inj.mp same)

variable {first second : Wrapper}

/-- What follows the encoding of a body does not blur it. -/
theorem Body.same_of_encode (sized : first.Sized) (sizedAgain : second.Sized) {rest after : Bytes}
    (same : first.body.encode ++ rest = second.body.encode ++ after) :
    first.body.Same second.body ∧ rest = after := by
  have asset (body : Body) : ((body.inAsset.map Vector.toList).getD []).length < 2 ^ 64 := by
    cases body.inAsset <;> simp
  simp only [Body.encode, Call.encode, putAddress_eq, List.append_assoc] at same
  obtain ⟨sender, same⟩ := inverts_bytes.injective (length_addressBytes sized.sender)
    (length_addressBytes sizedAgain.sender) same
  obtain ⟨nonce, same⟩ := inverts_u64.injective trivial trivial same
  obtain ⟨meterLimit, same⟩ := inverts_u64.injective trivial trivial same
  obtain ⟨fee, same⟩ := inverts_u128.injective trivial trivial same
  obtain ⟨target, same⟩ := inverts_bytes.injective (length_addressBytes sized.target)
    (length_addressBytes sizedAgain.target) same
  obtain ⟨args, same⟩ := inverts_bytes.injective sized.args sizedAgain.args same
  obtain ⟨value, same⟩ := inverts_u64.injective trivial trivial same
  obtain ⟨chainId, same⟩ := inverts_u64.injective trivial trivial same
  obtain ⟨inAsset, same⟩ := inverts_bytes.injective (asset first.body) (asset second.body) same
  obtain ⟨validUntil, same⟩ := inverts_u64.injective trivial trivial same
  obtain ⟨kind, same⟩ := inverts_u8.injective trivial trivial same
  refine ⟨⟨sameAddress_iff.mpr sender, sameAddress_iff.mpr target, ?_⟩, same⟩
  simp only [nonce, meterLimit, fee, args, value, chainId, inAsset_injective inAsset, validUntil, kind]

theorem Body.Same.encode {first second : Body} (same : first.Same second) :
    first.encode = second.encode := by
  rw [← same.content]
  simp only [Body.encode, Call.encode, putAddress_eq, sameAddress_iff.mp same.sender,
    sameAddress_iff.mp same.target]

theorem Wrapper.encode_eq_iff (sized : first.Sized)
    (sizedAgain : second.Sized) : first.encode = second.encode ↔ first.Same second := by
  constructor
  · intro same
    simp only [Wrapper.encode, List.append_assoc] at same
    obtain ⟨body, same⟩ := Body.same_of_encode sized sizedAgain same
    obtain ⟨scheme, same⟩ := inverts_u8.injective trivial trivial same
    exact ⟨body, scheme, inverts_bytes.injective_whole sized.signature sizedAgain.signature same⟩
  · intro same
    simp only [Wrapper.encode, same.body.encode, same.scheme, same.signature]

theorem Wrapper.id_eq_iff {sha3 : Bytes → Hash} (sized : first.Sized)
    (sizedAgain : second.Sized) (injective : Set.InjOn sha3 {first.encode, second.encode}) :
    first.id sha3 = second.id sha3 ↔ first.Same second := by
  rw [← Wrapper.encode_eq_iff sized sizedAgain]
  constructor
  · intro same
    have digests := Idfmt.render_digest_injective Idfmt.readable_hrpTx Vector.length_toList
      Vector.length_toList same
    exact injective (by simp) (by simp) (Vector.toList_inj.mp digests)
  · intro same
    simp only [Wrapper.id, same]

theorem bodyDigest_eq_iff {sha3 : Bytes → Hash} {genesis : Hash}
    (sized : first.Sized) (sizedAgain : second.Sized)
    (injective : Set.InjOn sha3
      {genesis.toList ++ first.body.encode, genesis.toList ++ second.body.encode}) :
    bodyDigest sha3 first.body genesis = bodyDigest sha3 second.body genesis ↔
      first.body.Same second.body := by
  constructor
  · intro same
    have bodies := List.append_cancel_left (injective (by simp) (by simp) same)
    exact (Body.same_of_encode sized sizedAgain (congrArg (· ++ []) bodies)).1
  · intro same
    simp only [bodyDigest, same.encode]

theorem SameAddress.parsed {first second : Text} (same : SameAddress first second)
    (parses : (Idfmt.parseAddress first).isOk) (parsesAgain : (Idfmt.parseAddress second).isOk) :
    Idfmt.parseAddress first = Idfmt.parseAddress second := by
  unfold SameAddress at same
  revert same parses parsesAgain
  cases Idfmt.parseAddress first <;> cases Idfmt.parseAddress second <;>
    simp [Except.isOk, Except.toBool]

/-- The encoding of a transaction, its identifier and the message that is signed for it tell it from
every other, up to the spelling of its addresses. Among transactions whose addresses parse, as they
do in all that are signed or admitted, sender and target are the same accounts. Every field is read
back from the encoding. -/
theorem encoding_identifies {first second : Wrapper} (sized : first.Sized)
    (sizedAgain : second.Sized) (sha3 : Bytes → Hash) :
    (first.encode = second.encode ↔ first.Same second) ∧
      (Set.InjOn sha3 {first.encode, second.encode} →
        (first.id sha3 = second.id sha3 ↔ first.Same second)) ∧
      (∀ genesis : Hash, Set.InjOn sha3
          {genesis.toList ++ first.body.encode, genesis.toList ++ second.body.encode} →
        (bodyDigest sha3 first.body genesis = bodyDigest sha3 second.body genesis ↔
          first.body.Same second.body)) ∧
      (addressesParse first.body → addressesParse second.body → first.body.Same second.body →
        Idfmt.parseAddress first.body.sender = Idfmt.parseAddress second.body.sender ∧
        Idfmt.parseAddress first.body.call.target = Idfmt.parseAddress second.body.call.target) := by
  refine ⟨Wrapper.encode_eq_iff sized sizedAgain, Wrapper.id_eq_iff sized sizedAgain,
    fun _ => bodyDigest_eq_iff sized sizedAgain, fun parses parsesAgain same => ?_⟩
  simp only [addressesParse, Bool.and_eq_true] at parses parsesAgain
  exact ⟨same.sender.parsed parses.1 parsesAgain.1, same.target.parsed parses.2 parsesAgain.2⟩

/-- Thirty-two letters, which are no address but are the payload of one. -/
def letters : Text := List.replicate 32 97

def sentBy (sender : Text) : Wrapper where
  body :=
    { sender, nonce := 0, meterLimit := 0, fee := 0, value := 0, chainId := 0,
      call := { target := [], args := [] }, inAsset := none, validUntil := 0, kind := kindTransfer }
  scheme := schemeLattice
  signature := []

theorem sized_sentBy {sender : Text} (short : sender.length < 2 ^ 64) : (sentBy sender).Sized :=
  ⟨short, Nat.two_pow_pos 64, Nat.two_pow_pos 64, Nat.two_pow_pos 64⟩

/-- The identity of two transactions, of which one names its sender by the payload's own bytes. -/
theorem letters_identified :
    (sentBy letters).encode = (sentBy (Idfmt.render Idfmt.hrpAddress letters)).encode ↔
      (sentBy letters).Same (sentBy (Idfmt.render Idfmt.hrpAddress letters)) :=
  (encoding_identifies (sized_sentBy (by decide)) (sized_sentBy (by decide +kernel))
    fun _ => Vector.replicate 32 0).1

/-- A text that does not parse is encoded as the address of which it is the payload. -/
theorem letters_encoded_as_address : ∃ first second : Wrapper,
    first.encode = second.encode ∧ first.body.sender ≠ second.body.sender ∧
      ¬ ∃ payload, Idfmt.parseAddress first.body.sender = .ok payload := by
  refine ⟨sentBy letters, sentBy (Idfmt.render Idfmt.hrpAddress letters), by decide +kernel,
    by decide +kernel, ?_⟩
  rintro ⟨payload, parsed⟩
  have refused : (Idfmt.parseAddress letters).isOk = false := by decide +kernel
  rw [show Idfmt.parseAddress letters = .ok payload from parsed] at refused
  exact Bool.noConfusion refused

end QuantovaChain.Tx
