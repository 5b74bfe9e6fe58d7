import QuantovaChain.Codec
import QuantovaChain.Library.Reading

/-!
# Decoders

A decoder reads its input from the front and reports why it stops. Every read inverts the write of
the same name: it accepts what the encoder writes, and nothing else.
-/

namespace QuantovaChain.Codec

open State (Bytes)
open Reading

inductive Error
  | truncated (needed found : Nat)
  | lengthOverrun (length : U64) (found : Nat)
  | trailingBytes (count : Nat)
  | invalidOption (byte : UInt8)
  | unknownTag (tag : UInt8)
  deriving DecidableEq, Repr

/-- An error type that has a place for the errors of the codec. -/
class FromError (ε : Type) where
  ofCodec : Error → ε

instance : FromError Error := ⟨id⟩

abbrev Decoder (ε : Type) := StateT Bytes (Except ε)

namespace Decoder

variable {ε : Type} [FromError ε]

def remaining : Decoder ε Nat := fun input => .ok (input.length, input)

def take (count : Nat) : Decoder ε Bytes := fun input =>
  if input.length < count then .error (FromError.ofCodec (.truncated count input.length))
  else .ok (input.take count, input.drop count)

def getU8 : Decoder ε UInt8 := do
  let bytes ← take 1
  return bytes.headD 0

def getU64 : Decoder ε U64 := do
  let bytes ← take 8
  return Word.ofLe 64 bytes

def getU128 : Decoder ε U128 := do
  let bytes ← take 16
  return Word.ofLe 128 bytes

def getBytes : Decoder ε Bytes := do
  let length ← getU64
  let found ← remaining
  if found < length.val then throw (FromError.ofCodec (.lengthOverrun length found))
  else take length.val

/-- Reports the errors of a part as errors of the whole. -/
def mapError {ε ε' α : Type} (change : ε → ε') (decoder : Decoder ε α) : Decoder ε' α :=
  fun input => (decoder input).mapError change

def finish : Decoder ε Unit := fun input =>
  if input = [] then .ok ((), []) else .error (FromError.ofCodec (.trailingBytes input.length))

variable {input rest : Bytes}

omit [FromError ε] in
theorem reads_remaining {count : Nat} :
    Reads (remaining : Decoder ε Nat) input count rest ↔ count = input.length ∧ input = rest := by
  constructor
  · intro reads
    cases reads
    exact ⟨rfl, rfl⟩
  · rintro ⟨rfl, rfl⟩
    rfl

omit [FromError ε] in
theorem reads_throw {α : Type} {error : ε} {value : α} :
    ¬ Reads (throw error : Decoder ε α) input value rest := by
  intro reads
  cases reads

omit [FromError ε] in
/-- A record is read unless what is known of it by now is refused. -/
theorem inverts_unless {α : Type} {reader : Decoder ε α} {error : ε} {write : α → Bytes}
    {known later : α → Prop} {refused : Prop} [Decidable refused] (allowed : α → Prop)
    (checks : ∀ record, known record → (allowed record ↔ ¬ refused))
    (inverts : Inverts reader write fun record => known record ∧ later record) :
    Inverts (if refused then throw error else reader) write fun record =>
      known record ∧ allowed record ∧ later record := by
  intro input record rest
  simp only [reads_ite, reads_throw, and_false, false_or, inverts input record rest]
  constructor
  · rintro ⟨passed, ⟨known, later⟩, rfl⟩
    exact ⟨⟨known, (checks record known).mpr passed, later⟩, rfl⟩
  · rintro ⟨⟨known, allowed, later⟩, rfl⟩
    exact ⟨(checks record known).mp allowed, ⟨known, later⟩, rfl⟩

omit [FromError ε] in
theorem inverts_mapError {ε' α : Type} {change : ε → ε'} {decoder : Decoder ε α}
    {write : α → Bytes} {fits : α → Prop} (inverts : Inverts decoder write fits) :
    Inverts (mapError change decoder) write fits := by
  intro input value rest
  rw [← inverts input value rest]
  unfold Reads Decoder.mapError
  cases decoder input with
  | error error => exact iff_of_false (fun reads => nomatch reads) (fun reads => nomatch reads)
  | ok result =>
    constructor
    · intro reads
      cases reads
      rfl
    · intro reads
      cases reads
      rfl

theorem reads_finish {done : Unit} :
    Reads (finish : Decoder ε Unit) input done rest ↔ input = [] ∧ rest = [] := by
  unfold Reads finish
  constructor
  · intro reads
    split at reads
    next empty =>
      cases reads
      exact ⟨empty, rfl⟩
    next => cases reads
  · rintro ⟨rfl, rfl⟩
    rfl

theorem inverts_take (count : Nat) :
    Inverts (take count : Decoder ε Bytes) id fun bytes => bytes.length = count := by
  intro input bytes rest
  unfold Reads take
  constructor
  · intro reads
    split at reads
    next => cases reads
    next long =>
      cases reads
      exact ⟨List.length_take_of_le (Nat.not_lt.mp long), (List.take_append_drop count input).symm⟩
  · rintro ⟨rfl, rfl⟩
    have long : ¬ (id bytes ++ rest).length < bytes.length := by simp
    rw [if_neg long, id, List.take_left, List.drop_left]
    rfl

theorem inverts_getU8 : Inverts (getU8 : Decoder ε UInt8) putU8 fun _ => True := by
  intro input byte rest
  rw [getU8, (inverts_take 1).reads_bind]
  simp only [reads_pure]
  constructor
  · rintro ⟨bytes, _, single, rfl, rfl, rfl⟩
    obtain ⟨first, rfl⟩ := List.length_eq_one_iff.mp single
    exact ⟨trivial, rfl⟩
  · rintro ⟨-, rfl⟩
    exact ⟨[byte], rest, rfl, rfl, rfl, rfl⟩

/-- The words of every width are read off their bytes. -/
theorem inverts_word {w : Nat} (octets : w = 8 * (w / 8)) :
    Inverts (do let bytes ← take (w / 8); return Word.ofLe w bytes : Decoder ε (Word w))
      (fun word => word.leBytes (w / 8)) fun _ => True := by
  intro input word rest
  rw [(inverts_take (w / 8)).reads_bind]
  simp only [reads_pure]
  constructor
  · rintro ⟨bytes, _, sized, rfl, spelled, rfl⟩
    exact ⟨trivial, congrArg (· ++ _) ((Word.ofLe_eq_iff octets sized).mp spelled)⟩
  · rintro ⟨-, rfl⟩
    refine ⟨word.leBytes (w / 8), rest, Word.length_leBytes word _, rfl, ?_, rfl⟩
    exact (Word.ofLe_eq_iff octets (Word.length_leBytes word _)).mpr rfl

theorem inverts_getU64 : Inverts (getU64 : Decoder ε U64) putU64 fun _ => True :=
  inverts_word rfl

theorem inverts_getU128 : Inverts (getU128 : Decoder ε U128) putU128 fun _ => True :=
  inverts_word rfl

/-- A length in range is its own word. -/
theorem clamp_val (length : U64) : Word.clamp 64 length.val = length := by
  have bound := length.bound
  apply Word.ext
  rw [Word.val_clamp]
  omega

theorem inverts_getBytes :
    Inverts (getBytes : Decoder ε Bytes) putBytes fun bytes => bytes.length < 2 ^ 64 := by
  intro input bytes rest
  rw [getBytes, inverts_getU64.reads_bind]
  simp only [Reading.reads_bind, reads_remaining]
  constructor
  · rintro ⟨length, middle, -, rfl, found, _, ⟨rfl, rfl⟩, reads⟩
    split at reads
    next => exact absurd reads reads_throw
    next =>
      obtain ⟨sized, rfl⟩ := (inverts_take length.val _ _ _).mp reads
      refine ⟨sized ▸ length.bound, ?_⟩
      rw [putBytes, sized, clamp_val, id, List.append_assoc]
  · rintro ⟨small, rfl⟩
    have same : (Word.clamp 64 bytes.length).val = bytes.length := by
      rw [Word.val_clamp]
      omega
    refine ⟨Word.clamp 64 bytes.length, bytes ++ rest, trivial, ?_, _, _, ⟨rfl, rfl⟩, ?_⟩
    · rw [putBytes, List.append_assoc]
    · rw [same, if_neg (by simp)]
      exact (inverts_take _ _ _ _).mpr ⟨rfl, rfl⟩

end Decoder

end QuantovaChain.Codec
