import QuantovaChain.ChainBlock

/-!
# Readers that only fail

The readers that give no reason for a failure invert the writers as the decoders do: they read what
is written, and nothing else.
-/

namespace QuantovaChain.Codec.Reader

open State (Bytes)
open Reading

variable {α : Type} {input rest bytes : Bytes}

variable {value : α} {w : Nat} {write : α → Bytes} {fits : α → Prop} {reader : Reader α}

theorem reads_failure : ¬Reads (failure : Reader α) input value rest := nofun

theorem inverts_take (count : Nat) :
    Inverts (take count : Reader Bytes) id fun bytes => bytes.length = count := by
  intro input bytes rest
  unfold Reads take
  constructor
  · intro reads
    split at reads
    next long =>
      cases reads
      exact ⟨List.length_take_of_le long, (List.take_append_drop count input).symm⟩
    next => cases reads
  · rintro ⟨rfl, rfl⟩
    have long : bytes.length ≤ (id bytes ++ rest).length := by simp
    rw [if_pos long, id, List.take_left, List.drop_left]
    rfl

/-- A part that may be missing. -/
theorem reads_lift {part : Option α} :
    Reads (part : Reader α) input value rest ↔ part = some value ∧ input = rest := by
  cases part with
  | none => exact iff_of_false nofun fun both => nomatch both.1
  | some found =>
    constructor
    · intro reads
      cases reads
      exact ⟨rfl, rfl⟩
    · rintro ⟨same, rfl⟩
      cases same
      rfl

theorem inverts_u8 : Inverts u8 putU8 fun _ => True := by
  intro input byte rest
  rw [u8, (inverts_take 1).reads_bind]
  simp only [reads_lift]
  constructor
  · rintro ⟨bytes, _, single, rfl, first, rfl⟩
    obtain ⟨only, rfl⟩ := List.length_eq_one_iff.mp single
    cases first
    exact ⟨trivial, rfl⟩
  · rintro ⟨-, rfl⟩
    exact ⟨[byte], rest, rfl, rfl, rfl, rfl⟩

theorem inverts_word (octets : w = 8 * (w / 8)) :
    Inverts (word w (w / 8)) (fun found => found.leBytes (w / 8)) fun _ => True := by
  intro input found rest
  rw [word, (inverts_take (w / 8)).reads_bind]
  simp only [reads_lift, Word.ofLe?_eq_some octets]
  constructor
  · rintro ⟨bytes, _, -, rfl, rfl, rfl⟩
    exact ⟨trivial, rfl⟩
  · rintro ⟨-, rfl⟩
    exact ⟨found.leBytes (w / 8), rest, Word.length_leBytes found _, rfl, rfl, rfl⟩

theorem inverts_u16 : Inverts u16 putU16 fun _ => True := inverts_word rfl

theorem inverts_u32 : Inverts u32 putU32 fun _ => True := inverts_word rfl

theorem inverts_u64 : Inverts u64 putU64 fun _ => True := inverts_word rfl

theorem inverts_u128 : Inverts u128 putU128 fun _ => True := inverts_word rfl

/-- Bytes taken as an array, which they have to fill. -/
theorem inverts_filled {count : Nat} (bytes : Bytes) :
    Inverts
      (if sized : bytes.length = count then pure ⟨bytes.toArray, sized⟩ else failure :
        Reader (Vector UInt8 count))
      (fun _ => []) fun found => bytes = found.toList ∧ True := by
  intro input found rest
  simp only [and_true, List.nil_append]
  constructor
  · intro reads
    split at reads
    next sized =>
      obtain ⟨rfl, rfl⟩ := reads_pure.mp reads
      exact ⟨rfl, rfl⟩
    next => exact absurd reads reads_failure
  · rintro ⟨rfl, rfl⟩
    rw [dif_pos Vector.length_toList]
    exact reads_pure.mpr ⟨rfl, rfl⟩

theorem inverts_array (count : Nat) : Inverts (array count) Vector.toList fun _ => True :=
  ((inverts_take count).headed inverts_filled).congr (by simp) (by simp)

theorem many_eq (element : Reader α) (count : Nat) :
    Reader.many element count = Reading.many element count := by
  induction count with
  | zero => rfl
  | succ count hypothesis =>
    rw [Reader.many, hypothesis]
    rfl

/-- The bytes that a length announces. -/
theorem inverts_announced (length : Word w) : Inverts (take length.val) id fun bytes =>
      length = Word.wrap w bytes.length ∧ bytes.length < 2 ^ w :=
  (inverts_take length.val).congr (fun _ => Word.eq_wrap_iff) fun _ _ => rfl

/-- The elements that a count announces. -/
theorem inverts_counted {element : Reader α}
    (inverts : Inverts element write fits) (count : Word w) :
    Inverts (Reader.many element count.val) (fun values => values.flatMap write) fun values =>
      count = Word.wrap w values.length ∧ values.length < 2 ^ w ∧ ∀ value ∈ values, fits value := by
  rw [many_eq]
  refine (inverts.many count.val).congr (fun values => ?_) fun _ _ => rfl
  rw [← and_assoc, Word.eq_wrap_iff]

/-- A value by its code. -/
theorem inverts_code {β : Type} {decode : β → Option α} {code : α → β}
    (inverse : ∀ tag value, decode tag = some value ↔ tag = code value) (tag : β) :
    Inverts (decode tag : Reader α) (fun _ => []) fun value => tag = code value ∧ True := by
  intro input value rest
  simp only [reads_lift, inverse, and_true, List.nil_append]

/-- What has to come before the rest. -/
theorem inverts_expected {β : Type} [DecidableEq β] {reader : Reader β} {write : β → Bytes}
    {fits : β → Prop} (inverts : Inverts reader write fits) {expected : β} (fit : fits expected)
    {next : Unit → Reader α} {others : α → Bytes} {limits : α → Prop}
    (rest : Inverts (next ()) others limits) :
    Inverts (reader >>= fun found => if found ≠ expected then failure >>= next else next ())
      (fun value => write expected ++ others value) limits := by
  intro input value after
  rw [inverts.reads_bind]
  constructor
  · rintro ⟨found, _, -, rfl, reads⟩
    split at reads
    next => exact absurd reads reads_failure
    next same =>
      obtain ⟨fitting, rfl⟩ := (rest _ _ _).mp reads
      rw [not_not.mp same, List.append_assoc]
      exact ⟨fitting, rfl⟩
  · rintro ⟨fitting, rfl⟩
    refine ⟨expected, _, fit, List.append_assoc .., ?_⟩
    rw [if_neg (not_not.mpr rfl)]
    exact (rest _ _ _).mpr ⟨fitting, rfl⟩

theorem inverts_bytes : Inverts Reader.bytes putBytes fun bytes => bytes.length < 2 ^ 64 :=
  (inverts_u64.headed inverts_announced).congr (by simp)
    fun bytes small => by rw [putBytes, Word.clamp_eq_wrap small.2, id]

theorem inverts_list {element : Reader α} (inverts : Inverts element write fits) :
    Inverts (Reader.list element) (putList write) fun values =>
      values.length < 2 ^ 64 ∧ ∀ value ∈ values, fits value :=
  (inverts_u64.headed (inverts_counted inverts)).congr (by simp)
    fun values fit => by rw [putList, Word.clamp_eq_wrap fit.2.1]

theorem inverts_sizedArray {count : Nat} (word : count < 2 ^ 64) :
    Inverts (sizedArray count) (fun found => putBytes found.toList) fun _ => True :=
  (inverts_bytes.headed inverts_filled).congr (by simpa using word) (by simp)

/-- A text after its length. -/
def text : Reader String := do
  let bytes ← Reader.bytes
  fromUtf8 bytes

theorem inverts_text :
    Inverts text (fun text => putBytes (asBytes text)) fun text =>
      (asBytes text).length < 2 ^ 64 := by
  intro input found rest
  rw [text, inverts_bytes.reads_bind]
  simp only [reads_lift, fromUtf8_eq_some]
  constructor
  · rintro ⟨bytes, _, small, rfl, rfl, rfl⟩
    exact ⟨small, rfl⟩
  · rintro ⟨small, rfl⟩
    exact ⟨asBytes found, rest, small, rfl, rfl, rfl⟩

theorem whole_iff_reads : whole reader bytes = some value ↔ Reads reader bytes value [] := by
  unfold whole Reads
  cases found : reader bytes with
  | none => exact iff_of_false nofun nofun
  | some result =>
    obtain ⟨first, left⟩ := result
    cases left with
    | nil =>
      constructor
      · intro same
        cases same
        rfl
      · intro same
        cases same
        rfl
    | cons byte left => exact iff_of_false nofun fun same => nomatch same

/-- What the whole of some bytes is read as. -/
theorem whole_eq_some (inverts : Inverts reader write fits) :
    whole reader bytes = some value ↔ fits value ∧ bytes = write value := by
  rw [whole_iff_reads, inverts bytes value [], List.append_nil]

/-- What fills the bytes that a length announces. -/
theorem inverts_nested (inverts : Inverts reader write fits) (length : Word w) :
    Inverts (take length.val >>= fun bytes => (whole reader bytes : Reader α)) write fun value =>
      length = Word.wrap w (write value).length ∧ (write value).length < 2 ^ w ∧ fits value := by
  have read (bytes : Bytes) : Inverts (whole reader bytes : Reader α) (fun _ => []) fun value =>
      bytes = write value ∧ fits value := by
    intro input value rest
    simp only [reads_lift, whole_eq_some inverts, and_comm, List.nil_append]
  exact ((inverts_announced length).headed read).congr (by simp [and_assoc]) (by simp)

end QuantovaChain.Codec.Reader
