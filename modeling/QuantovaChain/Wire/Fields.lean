import QuantovaChain.Wire.Message

/-!
# The parts of the wire format

The readers of fields and lists invert their writers. The bound on counts refuses nothing that was
written: every element is at least as long as the least size of its kind, and so the bytes that
follow a count have room for it.
-/

namespace QuantovaChain

open State (Bytes)
open Idfmt (Text)
open Codec Codec.Decoder Reading
open Chain (Header)

/-! ## Sizes -/

namespace Codec

@[simp] theorem length_putU8 (byte : UInt8) : (putU8 byte).length = 1 := rfl

@[simp] theorem length_putU64 (word : U64) : (putU64 word).length = 8 := Word.length_leBytes word 8

@[simp] theorem length_putU128 (word : U128) : (putU128 word).length = 16 :=
  Word.length_leBytes word 16

@[simp] theorem length_putBytes (bytes : Bytes) : (putBytes bytes).length = 8 + bytes.length := by
  simp [putBytes]

theorem length_putList {α : Type} (put : α → Bytes) (elements : List α) :
    8 ≤ (putList put elements).length := by
  simp [putList]

end Codec

namespace Wire

/-! ## Lists -/

theorem reads_boundedCapacity {remaining least capacity : Nat} {count : U64} {input rest : Bytes} :
    Reads (liftM (boundedCapacity remaining count least) : WireDecoder Nat) input capacity rest ↔
      boundedCapacity remaining count least = .ok capacity ∧ input = rest := by
  unfold Reads
  cases found : boundedCapacity remaining count least with
  | error error =>
    exact iff_of_false (fun reads => nomatch reads) (fun reads => nomatch reads.1)
  | ok bound =>
    constructor
    · intro reads
      cases reads
      exact ⟨rfl, rfl⟩
    · rintro ⟨same, rfl⟩
      cases same
      rfl

theorem boundedCapacity_eq_ok {remaining least capacity : Nat} {count : U64} :
    boundedCapacity remaining count least = .ok capacity ↔
      count.val ≤ remaining / max least 1 ∧ capacity = min count.val preallocLimit := by
  unfold boundedCapacity
  split
  next beyond => exact iff_of_false (fun same => nomatch same) fun both => absurd both.1 (by omega)
  next within =>
    constructor
    · intro same
      cases same
      exact ⟨Nat.not_lt.mp within, rfl⟩
    · rintro ⟨-, rfl⟩
      rfl

section Lists

variable {α : Type} {element : WireDecoder α} {write : α → Bytes} {fits : α → Prop} {least : Nat}

/-- A list whose elements fit and whose number is a word. -/
def ListFits (fits : α → Prop) (values : List α) : Prop :=
  values.length < 2 ^ 64 ∧ ∀ value ∈ values, fits value

theorem val_clamp_length {values : List α} (small : values.length < 2 ^ 64) :
    (Word.clamp 64 values.length).val = values.length := by
  rw [Word.val_clamp]
  omega

theorem inverts_getFlagged (inverts : Inverts element write fits) :
    Inverts (getFlagged element) (putFlagged write) fun part => ∀ value ∈ part, fits value := by
  intro input part rest
  simp only [getFlagged, inverts_getU8.reads_bind, reads_ite, inverts.reads_bind, reads_pure]
  constructor
  · rintro ⟨flag, _, -, rfl, ⟨rfl, rfl, rfl⟩ | ⟨-, ⟨rfl, value, _, fitting, rfl, rfl, rfl⟩ | refused⟩⟩
    · exact ⟨nofun, rfl⟩
    · exact ⟨by simpa using fitting, by rw [putFlagged, List.append_assoc]⟩
    · exact absurd refused.2 reads_throw
  · rintro ⟨fit, rfl⟩
    cases part with
    | none => exact ⟨0, rest, trivial, rfl, .inl ⟨rfl, rfl, rfl⟩⟩
    | some value =>
      refine ⟨1, _, trivial, List.append_assoc .., .inr ⟨by decide, .inl ⟨rfl, value, rest, ?_⟩⟩⟩
      exact ⟨fit value rfl, rfl, rfl, rfl⟩

variable (positive : 0 < least) (inverts : Inverts element write fits)
  (enough : ∀ value, fits value → least ≤ (write value).length)

include enough in
/-- Elements of at least the least size take up the room that their count asks for. -/
theorem room_le {values : List α} (fit : ∀ value ∈ values, fits value) :
    least * values.length ≤ (values.flatMap write).length := by
  induction values with
  | nil => simp
  | cons first later hypothesis =>
    obtain ⟨firstFits, laterFit⟩ := List.forall_mem_cons.mp fit
    have room := hypothesis laterFit
    have size := enough first firstFits
    rw [List.length_cons, Nat.mul_succ, List.flatMap_cons, List.length_append]
    omega

include positive inverts enough

theorem inverts_getElements (count : U64) :
    Inverts (getElements least element count) (fun values => values.flatMap write)
      fun values => values.length = count.val ∧ ∀ value ∈ values, fits value := by
  intro input values rest
  simp only [getElements, reads_bind, reads_remaining, reads_boundedCapacity]
  constructor
  · rintro ⟨_, _, ⟨-, rfl⟩, _, _, ⟨-, rfl⟩, reads⟩
    exact (inverts.many count.val _ _ _).mp reads
  · rintro ⟨⟨counted, fit⟩, rfl⟩
    have room := room_le enough fit
    have bound : count.val ≤ (values.flatMap write ++ rest).length / max least 1 := by
      rw [Nat.max_eq_left positive, Nat.le_div_iff_mul_le positive, List.length_append, ← counted,
        Nat.mul_comm]
      omega
    exact ⟨_, _, ⟨rfl, rfl⟩, _, _, ⟨boundedCapacity_eq_ok.mpr ⟨bound, rfl⟩, rfl⟩,
      (inverts.many count.val _ _ _).mpr ⟨⟨counted, fit⟩, rfl⟩⟩

/-- The elements follow a count that may be refused. -/
theorem inverts_counted {body : U64 → WireDecoder (List α)} (permitted : U64 → Prop)
    (checks : ∀ count input values rest, Reads (body count) input values rest ↔
      permitted count ∧ Reads (getElements least element count) input values rest) :
    Inverts (getU64 >>= body) (putList write) fun values =>
      ListFits fits values ∧ permitted (Word.clamp 64 values.length) := by
  intro input values rest
  simp only [inverts_getU64.reads_bind, checks,
    inverts_getElements positive inverts enough _ _ _ _]
  constructor
  · rintro ⟨count, _, -, rfl, passed, ⟨counted, fit⟩, rfl⟩
    refine ⟨⟨⟨counted ▸ count.bound, fit⟩, ?_⟩, ?_⟩
    · rwa [counted, clamp_val]
    · rw [putList, counted, clamp_val, List.append_assoc]
  · rintro ⟨⟨⟨small, fit⟩, passed⟩, rfl⟩
    exact ⟨_, _, trivial, List.append_assoc .., passed, ⟨(val_clamp_length small).symm, fit⟩, rfl⟩

theorem inverts_getList : Inverts (getList least element) (putList write) (ListFits fits) :=
  (inverts_counted positive inverts enough (fun _ => True) fun _ _ _ _ => by rw [true_and]).congr
    (fun _ => by rw [and_true]) fun _ _ => rfl

/-- A list whose count is checked against a limit before the elements are read. -/
theorem inverts_getLimited {limit : Nat} (word : limit < 2 ^ 64) :
    Inverts (getLimited limit least element) (putList write)
      fun values => values.length ≤ limit ∧ ∀ value ∈ values, fits value := by
  refine (inverts_counted positive inverts enough (fun count => ¬ limit < count.val)
    fun _ _ _ _ => ?_).congr (fun values => ?_) fun _ _ => rfl
  · rw [reads_ite, or_iff_right fun refused => reads_throw refused.2]
  · constructor
    · rintro ⟨inside, fit⟩
      have small := Nat.lt_of_le_of_lt inside word
      exact ⟨⟨small, fit⟩, by rw [val_clamp_length small]; omega⟩
    · rintro ⟨⟨small, fit⟩, inside⟩
      rw [val_clamp_length small] at inside
      exact ⟨Nat.not_lt.mp inside, fit⟩

theorem inverts_getSome :
    Inverts (getSome least element) (putList write)
      fun values => values ≠ [] ∧ ListFits fits values := by
  refine (inverts_counted positive inverts enough (· ≠ 0) fun _ _ _ _ => ?_).congr
    (fun values => ?_) fun _ _ => rfl
  · rw [reads_ite, or_iff_right fun refused => reads_throw refused.2]
  · rw [and_comm]
    refine and_congr_right fun listFits => not_congr ?_
    rw [Word.eq_zero_iff, val_clamp_length listFits.1, List.length_eq_zero_iff]

end Lists

/-! ## Fields -/

theorem inverts_readFixed {size : Nat} (word : size < 2 ^ 64) :
    Inverts (readFixed size) (fun found => putBytes found.toList) fun _ => True := by
  intro input found rest
  constructor
  · simp only [readFixed, inverts_getBytes.reads_bind]
    rintro ⟨bytes, _, -, rfl, reads⟩
    split at reads
    next sized =>
      obtain ⟨rfl, rfl⟩ := reads_pure.mp reads
      exact ⟨trivial, rfl⟩
    next => exact absurd reads reads_throw
  · rintro ⟨-, rfl⟩
    have sized : found.toList.length = size := Vector.length_toList
    refine inverts_getBytes.andThen (by rwa [sized]) ?_
    rw [dif_pos sized]
    exact reads_pure.mpr ⟨rfl, rfl⟩

theorem inverts_readText :
    Inverts readText (fun text => putBytes (asBytes text)) fun text =>
      (asBytes text).length < 2 ^ 64 := by
  intro input text rest
  constructor
  · simp only [readText, inverts_getBytes.reads_bind]
    rintro ⟨bytes, _, small, rfl, reads⟩
    split at reads
    next => exact absurd reads reads_throw
    next spelled =>
      obtain ⟨rfl, rfl⟩ := reads_pure.mp reads
      cases fromUtf8_eq_some.mp spelled
      exact ⟨small, rfl⟩
  · rintro ⟨small, rfl⟩
    refine inverts_getBytes.andThen small ?_
    rw [fromUtf8_eq_some.mpr rfl]
    exact reads_pure.mpr ⟨rfl, rfl⟩

/-- The address is spelled as the chain spells it. -/
def Canonical (address : Text) : Prop := ∃ payload, Idfmt.renderAddress payload = .ok address

theorem renderAddress_eq_ok {payload : Bytes} {address : Text} :
    Idfmt.renderAddress payload = .ok address ↔
      payload.length = Idfmt.digestLen ∧ address = Idfmt.render Idfmt.hrpAddress payload :=
  Idfmt.renderDigest_eq_ok

theorem putAddress_of_render {payload : Bytes} {address : Text}
    (rendered : Idfmt.renderAddress payload = .ok address) :
    Tx.putAddress address = putBytes payload := by
  obtain ⟨digest, rfl⟩ := renderAddress_eq_ok.mp rendered
  rw [Tx.putAddress, Idfmt.parseAddress_render digest]

theorem inverts_readAddress : Inverts readAddress Tx.putAddress Canonical := by
  intro input address rest
  constructor
  · simp only [readAddress, inverts_getBytes.reads_bind]
    rintro ⟨payload, _, -, rfl, reads⟩
    split at reads
    next => exact absurd reads reads_throw
    next rendered =>
      obtain ⟨rfl, rfl⟩ := reads_pure.mp reads
      exact ⟨⟨payload, rendered⟩, by rw [putAddress_of_render rendered]⟩
  · rintro ⟨⟨payload, rendered⟩, rfl⟩
    have digest := (renderAddress_eq_ok.mp rendered).1
    rw [putAddress_of_render rendered]
    refine inverts_getBytes.andThen (digest ▸ by decide) ?_
    rw [rendered]
    exact reads_pure.mpr ⟨rfl, rfl⟩

theorem inverts_readInAsset :
    Inverts readInAsset (fun asset => putBytes ((asset.map Vector.toList).getD [])) fun _ =>
      True := by
  intro input asset rest
  constructor
  · simp only [readInAsset, inverts_getBytes.reads_bind]
    rintro ⟨bytes, _, -, rfl, reads⟩
    split at reads
    next empty =>
      obtain ⟨rfl, rfl⟩ := reads_pure.mp reads
      cases List.length_eq_zero_iff.mp empty
      exact ⟨trivial, rfl⟩
    next =>
    split at reads
    next sized =>
      obtain ⟨rfl, rfl⟩ := reads_pure.mp reads
      exact ⟨trivial, rfl⟩
    next => exact absurd reads reads_throw
  · rintro ⟨-, rfl⟩
    cases asset with
    | none => exact inverts_getBytes.andThen (by decide) (reads_pure.mpr ⟨rfl, rfl⟩)
    | some issuer =>
      have sized : issuer.toList.length = 32 := Vector.length_toList
      simp only [Option.map_some, Option.getD_some]
      refine inverts_getBytes.andThen (by rw [sized]; decide) ?_
      rw [if_neg (by rw [sized]; decide), dif_pos sized]
      exact reads_pure.mpr ⟨rfl, rfl⟩

theorem inverts_getPol : Inverts getPol putPol fun _ => True := by
  intro input pol rest
  simp only [getPol, inverts_getU8.reads_bind, inverts_getU64.reads_bind, reads_ite,
    reads_pure]
  constructor
  · rintro ⟨flag, _, -, rfl, found, _, -, rfl, ⟨rfl, rfl, rfl⟩ |
      ⟨-, ⟨⟨rfl, rfl⟩, rfl, rfl⟩ | refused⟩⟩
    · exact ⟨trivial, by rw [putPol, List.append_assoc]⟩
    · exact ⟨trivial, by rw [putPol, List.append_assoc]⟩
    · exact absurd refused.2 reads_throw
  · rintro ⟨-, rfl⟩
    cases pol with
    | none =>
      exact ⟨0, _, trivial, List.append_assoc .., 0, rest, trivial, rfl,
        .inr ⟨by decide, .inl ⟨⟨rfl, rfl⟩, rfl, rfl⟩⟩⟩
    | some found =>
      exact ⟨1, _, trivial, List.append_assoc .., found, rest, trivial, rfl, .inl ⟨rfl, rfl, rfl⟩⟩

theorem inverts_getValue : Inverts getValue putValue fun _ => True := Chain.inverts_getRoot

theorem inverts_decodeHeader : Inverts decodeHeader Header.encode Header.Fits :=
  inverts_mapError Header.inverts_decode

theorem inverts_getUsize : Inverts getUsize Net.putUsize fun size => size < 2 ^ 64 := by
  intro input size rest
  constructor
  · simp only [getUsize, inverts_getU64.reads_bind, reads_pure]
    rintro ⟨word, _, -, rfl, rfl, rfl⟩
    exact ⟨word.bound, by rw [Net.putUsize, clamp_val]⟩
  · rintro ⟨small, rfl⟩
    refine inverts_getU64.andThen trivial (reads_pure.mpr ⟨?_, rfl⟩)
    rw [Word.val_clamp]
    omega

end Wire
end QuantovaChain
