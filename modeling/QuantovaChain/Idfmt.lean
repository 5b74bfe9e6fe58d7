import Mathlib.Data.BitVec
import Mathlib.Tactic.Ring

/-!
# Identifier text

Identifiers are written in a variant of the bech32m format: a human readable part, the separator
`1`, the payload in groups of five bits and a checksum of six groups, all in upper case. Text is
held as its bytes. The definitions follow the source; the results here are that an address renders
to text which parses back to it, so that every identifier has a canonical text.
-/

namespace QuantovaChain.Idfmt

/-- The bytes of a string. -/
abbrev Text := List UInt8

/-- The bytes of an ASCII literal. -/
def ascii (literal : String) : Text :=
  literal.toList.map fun char => UInt8.ofNat char.toNat

/-- Why a text does not parse. -/
inductive Error
  | tooShort (min got : Nat)
  | badLength (expected got : Nat)
  | wrongPrefix
  | badChecksum
  | badChar
  | mixedCase
  | noSeparator
  | badData
  deriving DecidableEq, Repr

def hrpAddress : Text := ascii "Q"

def hrpSecret : Text := ascii "Q2"

def hrpTx : Text := ascii "QTX"

def hrpBlock : Text := ascii "QBK"

def hrpState : Text := ascii "QST"

def hrpCid : Text := ascii "QCID"

def hrpProof : Text := ascii "QPF"

def keyFloor : Nat := 32

def digestLen : Nat := 32

def maxEncoded : Nat := 128

def charset : Text := ascii "qpzry9x8gf2tvdw0s3jn54khce6mua7l"

def bech32mConst : BitVec 32 := 734539939

def generator : List (BitVec 32) :=
  [996825010, 642813549, 513874426, 1027748829, 705979059]

/-- The separator byte. -/
def separatorByte : UInt8 := 49

/-- The group that a character of the alphabet stands for. -/
def charsetIndex (byte : UInt8) : Option UInt8 :=
  (charset.idxOf? byte).map UInt8.ofNat

/-- One step of the checksum: the top bits that overflow select generators to feed back. -/
def polymodStep (chk : BitVec 32) (value : UInt8) : BitVec 32 :=
  let top := chk >>> 25
  generator.zipIdx.foldl
    (fun next entry => next ^^^ (entry.1 &&& ((0 : BitVec 32) - ((top >>> entry.2) &&& 1))))
    (((chk &&& 33554431) <<< 5) ^^^ value.toBitVec.setWidth 32)

def polymod (chk : BitVec 32) (values : List UInt8) : BitVec 32 :=
  values.foldl polymodStep chk

def toAsciiLowercase (byte : UInt8) : UInt8 :=
  if 65 ≤ byte ∧ byte ≤ 90 then byte + 32 else byte

def toAsciiUppercase (byte : UInt8) : UInt8 :=
  if 97 ≤ byte ∧ byte ≤ 122 then byte - 32 else byte

/-- The checksum after the human readable part. -/
def hrpPolymod (hrp : Text) : BitVec 32 :=
  polymod (polymodStep (polymod 1 (hrp.map fun byte => toAsciiLowercase byte >>> 5)) 0)
    (hrp.map fun byte => toAsciiLowercase byte &&& 31)

/-- The accumulator of a regrouping: the pending bits and how many of them are meant. -/
structure Regroup where
  acc : Nat
  bits : Nat
  out : List UInt8

/-- Takes in one group and puts out the whole groups that are then pending. -/
def Regroup.push (source target : Nat) (state : Regroup) (value : Nat) : Regroup :=
  let acc := (state.acc * 2 ^ source + value) % 2 ^ (source + target - 1)
  let bits := state.bits + source
  { acc
    bits := bits % target
    out := state.out ++ (List.range (bits / target)).map fun place =>
      UInt8.ofNat (acc / 2 ^ (bits - (place + 1) * target) % 2 ^ target) }

/-- The state after all groups were taken in. -/
def regroup (source target : Nat) (data : List UInt8) : Regroup :=
  data.foldl (fun state byte => state.push source target byte.toNat) ⟨0, 0, []⟩

/-- Regroups bits from groups of one width into groups of another. -/
def convertBits (data : List UInt8) (source target : Nat) (pad : Bool) : Option (List UInt8) :=
  if data.any fun byte => byte.toNat / 2 ^ source ≠ 0 then none
  else
    let ended := regroup source target data
    let rest := ended.acc * 2 ^ (target - ended.bits) % 2 ^ target
    if pad then
      some (if ended.bits > 0 then ended.out ++ [UInt8.ofNat rest] else ended.out)
    else if ended.bits ≥ source ∨ rest ≠ 0 then none
    else some ended.out

/-- The six groups that close a checksum. -/
def checksum (chk : BitVec 32) : List UInt8 :=
  let residue := polymod chk [0, 0, 0, 0, 0, 0] ^^^ bech32mConst
  (List.range 6).map fun slot => UInt8.ofBitVec (((residue >>> (5 * (5 - slot))) &&& 31).setWidth 8)

/-- The character of a group. -/
def charOf (group : UInt8) : UInt8 := charset.getD group.toNat 0

def encode (hrp : Text) (data : List UInt8) : Text :=
  hrp ++ separatorByte :: data.map charOf ++
    (checksum (polymod (hrpPolymod hrp) data)).map charOf

/-- The text of a payload. A regrouping with padding never fails. -/
def render (hrp : Text) (payload : List UInt8) : Text :=
  (encode hrp ((convertBits payload 8 5 true).getD [])).map toAsciiUppercase

def isAsciiLowercase (byte : UInt8) : Bool := 97 ≤ byte && byte ≤ 122

def isAsciiUppercase (byte : UInt8) : Bool := 65 ≤ byte && byte ≤ 90

/-- The parts before and after the last separator. -/
def rsplit : Text → Option (Text × Text)
  | [] => none
  | byte :: rest =>
    match rsplit rest with
    | some (before, after) => some (byte :: before, after)
    | none => if byte = separatorByte then some ([], rest) else none

def decode (text : Text) : Except Error (Text × List UInt8) :=
  if text.length > maxEncoded then .error (.badLength maxEncoded text.length)
  else if text.any isAsciiLowercase && text.any isAsciiUppercase then .error .mixedCase
  else
    match rsplit (text.map toAsciiLowercase) with
    | none => .error .noSeparator
    | some (hrp, body) =>
      if hrp.length < 1 ∨ hrp.length + 7 > text.length then .error .noSeparator
      else if hrp.any fun byte => !(33 ≤ byte && byte ≤ 126) then .error .badChar
      else
        match body.mapM charsetIndex with
        | none => .error .badChar
        | some groups =>
          if polymod (hrpPolymod hrp) groups ≠ bech32mConst then .error .badChecksum
          else
            match convertBits (groups.take (groups.length - 6)) 5 8 false with
            | none => .error .badData
            | some payload => .ok (hrp, payload)

def parse (expected text : Text) : Except Error (List UInt8) :=
  match decode text with
  | .error error => .error error
  | .ok (hrp, payload) =>
    if hrp.map toAsciiLowercase = expected.map toAsciiLowercase then .ok payload
    else .error .wrongPrefix

def checkFloor (length : Nat) : Except Error Unit :=
  if length < keyFloor then .error (.tooShort keyFloor length) else .ok ()

def checkDigest (length : Nat) : Except Error Unit :=
  if length ≠ digestLen then .error (.badLength digestLen length) else .ok ()

/-- Renders a payload of a checked length under a human readable part. -/
def renderChecked (check : Nat → Except Error Unit) (hrp : Text) (bytes : List UInt8) :
    Except Error Text := do
  check bytes.length
  return render hrp bytes

/-- Parses a payload of a checked length under a human readable part. -/
def parseChecked (check : Nat → Except Error Unit) (hrp text : Text) : Except Error (List UInt8) := do
  let bytes ← parse hrp text
  check bytes.length
  return bytes

def renderDigest : Text → List UInt8 → Except Error Text := renderChecked checkDigest

def parseDigest : Text → Text → Except Error (List UInt8) := parseChecked checkDigest

def renderAddress : List UInt8 → Except Error Text := renderDigest hrpAddress

def parseAddress : Text → Except Error (List UInt8) := parseDigest hrpAddress

def renderSecret : List UInt8 → Except Error Text := renderChecked checkFloor hrpSecret

def parseSecret : Text → Except Error (List UInt8) := parseChecked checkFloor hrpSecret

def renderTx : List UInt8 → Except Error Text := renderDigest hrpTx

def parseTx : Text → Except Error (List UInt8) := parseDigest hrpTx

def renderBlock : List UInt8 → Except Error Text := renderDigest hrpBlock

def parseBlock : Text → Except Error (List UInt8) := parseDigest hrpBlock

def renderState : List UInt8 → Except Error Text := renderDigest hrpState

def parseState : Text → Except Error (List UInt8) := parseDigest hrpState

def renderCid : List UInt8 → Except Error Text := renderDigest hrpCid

def parseCid : Text → Except Error (List UInt8) := parseDigest hrpCid

def renderProof : List UInt8 → Except Error Text := renderDigest hrpProof

def parseProof : Text → Except Error (List UInt8) := parseDigest hrpProof

section Digits

/-- The number that digits spell after the number `start`. -/
def spell (base start : Nat) (digits : List Nat) : Nat :=
  digits.foldl (fun value digit => value * base + digit) start

theorem spell_append (base start : Nat) (first second : List Nat) :
    spell base start (first ++ second) = spell base (spell base start first) second :=
  List.foldl_append

/-- Digits of one length that spell the same number are the same. -/
theorem spell_injective {base : Nat} {first second : List Nat} {start other : Nat}
    (firstSmall : ∀ digit ∈ first, digit < base) (secondSmall : ∀ digit ∈ second, digit < base)
    (lengths : first.length = second.length)
    (same : spell base start first = spell base other second) :
    start = other ∧ first = second := by
  induction first generalizing second start other with
  | nil =>
    cases second with
    | nil => exact ⟨same, rfl⟩
    | cons _ _ => cases lengths
  | cons digit rest hypothesis =>
    cases second with
    | nil => cases lengths
    | cons mark tail =>
      obtain ⟨heads, tails⟩ := hypothesis
        (List.forall_mem_cons.mp firstSmall).2
        (List.forall_mem_cons.mp secondSmall).2
        (Nat.succ.inj lengths) same
      have digitSmall := firstSmall digit List.mem_cons_self
      have markSmall := secondSmall mark List.mem_cons_self
      have quotients : start = other := by
        have divided := congrArg (· / base) heads
        simpa [Nat.mul_add_div (Nat.zero_lt_of_lt digitSmall), Nat.mul_comm _ base,
          Nat.div_eq_of_lt digitSmall, Nat.div_eq_of_lt markSmall] using divided
      subst quotients
      exact ⟨rfl, by rw [Nat.add_left_cancel heads, tails]⟩

end Digits

section Regrouping

/-- The groups that one push puts out spell the upper part of the pending bits. -/
theorem spell_emitted (width start acc count rest : Nat) :
    spell (2 ^ width) start ((List.range count).map fun place =>
      acc / 2 ^ (rest + width * count - (place + 1) * width) % 2 ^ width) =
        start * 2 ^ (width * count) + acc / 2 ^ rest % 2 ^ (width * count) := by
  induction count generalizing rest with
  | zero => simp [spell, Nat.mod_one]
  | succ count hypothesis =>
    have total : rest + width * (count + 1) = rest + width + width * count := by ring
    have last : rest + width + width * count - (count + 1) * width = rest := by
      rw [Nat.add_mul, Nat.mul_comm count]
      omega
    rw [total, List.range_succ, List.map_append, spell_append, hypothesis (rest + width),
      List.map_singleton, last, pow_add 2 rest, ← Nat.div_div_eq_div_mul,
      show width * (count + 1) = width + width * count by ring, pow_add 2 width, Nat.mod_mul]
    simp only [spell, List.foldl_cons, List.foldl_nil]
    ring

/-- What holds of a regrouping after it took in `data`. -/
structure Regroup.Holds (source target : Nat) (data : List Nat) (state : Regroup) : Prop where
  pending : state.bits < target
  count : state.out.length * target + state.bits = source * data.length
  small : ∀ group ∈ state.out, group.toNat < 2 ^ target
  value : spell (2 ^ target) 0 (state.out.map UInt8.toNat) * 2 ^ state.bits +
    state.acc % 2 ^ state.bits = spell (2 ^ source) 0 data

variable {source target : Nat}

theorem Regroup.holds_start (positive : 0 < target) :
    Regroup.Holds source target [] ⟨0, 0, []⟩ where
  pending := positive
  count := by simp
  small := by simp
  value := by simp [spell]

/-- The pending bits after one more group. -/
theorem pending_bits {acc bits value : Nat} (pending : bits < target) (fits : value < 2 ^ source) :
    (acc * 2 ^ source + value) % 2 ^ (source + target - 1) % 2 ^ (bits + source) =
      acc % 2 ^ bits * 2 ^ source + value := by
  rw [Nat.mod_mod_of_dvd _ (Nat.pow_dvd_pow 2 (by omega)), pow_add, Nat.mul_comm (2 ^ bits),
    Nat.mod_mul, Nat.mul_comm acc, Nat.mul_add_mod, Nat.mod_eq_of_lt fits,
    Nat.mul_add_div (Nat.two_pow_pos source), Nat.div_eq_of_lt fits, Nat.add_zero,
    Nat.mul_comm, Nat.add_comm]

/-- Whole groups and the rest join to the pending bits they were cut from. -/
theorem join_pending (start acc groups rest : Nat) :
    (start * 2 ^ groups + acc / 2 ^ rest % 2 ^ groups) * 2 ^ rest + acc % 2 ^ rest =
      start * 2 ^ (groups + rest) + acc % 2 ^ (groups + rest) := by
  rw [Nat.add_comm groups, pow_add, Nat.mod_mul, Nat.add_mul, Nat.mul_comm (2 ^ rest),
    Nat.mul_assoc, Nat.mul_comm (2 ^ rest)]
  omega

theorem Regroup.Holds.push {data : List Nat} {state : Regroup} {value : Nat}
    (byte : target ≤ 8) (fits : value < 2 ^ source) (holds : Holds source target data state) :
    Holds source target (data ++ [value]) (state.push source target value) := by
  have pending := holds.pending
  have exact8 : ∀ number, (UInt8.ofNat (number % 2 ^ target)).toNat = number % 2 ^ target := by
    intro number
    rw [UInt8.toNat_ofNat', Nat.mod_eq_of_lt]
    exact lt_of_lt_of_le (Nat.mod_lt _ (Nat.two_pow_pos _)) (Nat.pow_le_pow_right (by omega) byte)
  have whole := Nat.div_add_mod (state.bits + source) target
  refine ⟨Nat.mod_lt _ (by omega), ?_, ?_, ?_⟩
  · simp only [Regroup.push, List.length_append, List.length_map, List.length_range,
      List.length_singleton, Nat.mul_add, Nat.mul_comm _ target]
    have before := holds.count
    rw [Nat.mul_comm] at before
    omega
  · intro group inside
    rcases List.mem_append.mp inside with old | new
    · exact holds.small group old
    · obtain ⟨place, _, rfl⟩ := List.mem_map.mp new
      rw [exact8]
      exact Nat.mod_lt _ (Nat.two_pow_pos _)
  · have emitted := spell_emitted target (spell (2 ^ target) 0 (state.out.map UInt8.toNat))
      ((state.acc * 2 ^ source + value) % 2 ^ (source + target - 1))
      ((state.bits + source) / target) ((state.bits + source) % target)
    rw [Nat.add_comm ((state.bits + source) % target), whole] at emitted
    simp only [Regroup.push, List.map_append, List.map_map, spell_append, Function.comp_def,
      exact8, emitted]
    rw [join_pending, whole, pending_bits pending fits, pow_add,
      show spell (2 ^ source) (spell (2 ^ source) 0 data) [value] =
        spell (2 ^ source) 0 data * 2 ^ source + value from rfl, ← holds.value, Nat.add_mul,
      Nat.mul_assoc, Nat.add_assoc]

/-- A regrouping of groups that fit their width. -/
theorem regroup_holds (source target : Nat) (positive : 0 < target) (byte : target ≤ 8)
    (data : List UInt8) (fits : ∀ group ∈ data, group.toNat < 2 ^ source) :
    Regroup.Holds source target (data.map UInt8.toNat) (regroup source target data) := by
  unfold regroup
  induction data using List.reverseRecOn with
  | nil => exact Regroup.holds_start positive
  | append_singleton data group hypothesis =>
    rw [List.map_append, List.foldl_append]
    exact (hypothesis fun member inside => fits member (by simp [inside])).push byte
      (fits group (by simp))

/-- Bytes regroup into groups of five bits, with less than a group of padding. -/
theorem convertBits_pad (payload : List UInt8) : ∃ groups pad,
    convertBits payload 8 5 true = some groups ∧ (∀ group ∈ groups, group.toNat < 2 ^ 5) ∧
      pad < 5 ∧ groups.length * 5 = 8 * payload.length + pad ∧
      spell (2 ^ 5) 0 (groups.map UInt8.toNat) =
        spell (2 ^ 8) 0 (payload.map UInt8.toNat) * 2 ^ pad := by
  have fits : ∀ byte ∈ payload, byte.toNat < 2 ^ 8 := fun byte _ => byte.toNat_lt
  have holds := regroup_holds 8 5 (by decide) (by decide) payload fits
  have whole : ¬ payload.any (fun byte => byte.toNat / 2 ^ 8 ≠ 0) := by
    simpa using fun byte _ => byte.toNat_lt
  simp only [convertBits, if_neg whole, if_true]
  generalize regroup 8 5 payload = ended at holds ⊢
  have pending := holds.pending
  have count := holds.count
  have value := holds.value
  simp only [List.length_map] at count
  by_cases some : ended.bits > 0
  · rw [if_pos some]
    have cut : ended.acc * 2 ^ (5 - ended.bits) % 2 ^ 5 =
        ended.acc % 2 ^ ended.bits * 2 ^ (5 - ended.bits) := by
      rw [show (2 : Nat) ^ 5 = 2 ^ ended.bits * 2 ^ (5 - ended.bits) by
        rw [← pow_add, Nat.add_sub_cancel' pending.le], Nat.mul_mod_mul_right]
    have small : ended.acc * 2 ^ (5 - ended.bits) % 2 ^ 5 < 2 ^ 5 := Nat.mod_lt _ (by decide)
    have exact8 : (UInt8.ofNat (ended.acc * 2 ^ (5 - ended.bits) % 2 ^ 5)).toNat =
        ended.acc * 2 ^ (5 - ended.bits) % 2 ^ 5 := by
      rw [UInt8.toNat_ofNat', Nat.mod_eq_of_lt]
      omega
    refine ⟨_, 5 - ended.bits, rfl, ?_, by omega, ?_, ?_⟩
    · intro group inside
      rcases List.mem_append.mp inside with old | last
      · exact holds.small group old
      · rw [List.mem_singleton.mp last, exact8]
        exact small
    · simp only [List.length_append, List.length_singleton]
      omega
    · rw [List.map_append, spell_append, List.map_singleton, exact8, cut, ← value, Nat.add_mul,
        Nat.mul_assoc, ← pow_add, Nat.add_sub_cancel' pending.le]
      rfl
  · rw [if_neg some]
    have none : ended.bits = 0 := by omega
    rw [none] at value count
    exact ⟨_, 0, rfl, holds.small, by decide, by omega, by simpa [Nat.mod_one] using value⟩

/-- Groups of five bits with less than a group of zero padding regroup into the bytes. -/
theorem convertBits_unpad {payload groups : List UInt8} {pad : Nat}
    (small : ∀ group ∈ groups, group.toNat < 2 ^ 5) (short : pad < 5)
    (count : groups.length * 5 = 8 * payload.length + pad)
    (value : spell (2 ^ 5) 0 (groups.map UInt8.toNat) =
      spell (2 ^ 8) 0 (payload.map UInt8.toNat) * 2 ^ pad) :
    convertBits groups 5 8 false = some payload := by
  have holds := regroup_holds 5 8 (by decide) (by decide) groups small
  have whole : ¬ groups.any (fun group => group.toNat / 2 ^ 5 ≠ 0) := by
    simpa using fun group inside => small group inside
  simp only [convertBits, if_neg whole, if_false, Bool.false_eq_true]
  generalize regroup 5 8 groups = ended at holds ⊢
  have counted := holds.count
  have pending := holds.pending
  simp only [List.length_map] at counted
  have bits : ended.bits = pad := by omega
  have lengths : ended.out.length = payload.length := by omega
  have values := holds.value
  rw [value, bits] at values
  have rest : ended.acc % 2 ^ pad < 2 ^ pad := Nat.mod_lt _ (Nat.two_pow_pos pad)
  have quotient : spell (2 ^ 8) 0 (ended.out.map UInt8.toNat) =
      spell (2 ^ 8) 0 (payload.map UInt8.toNat) := by
    have divided := congrArg (· / 2 ^ pad) values
    simpa [Nat.mul_comm _ (2 ^ pad), Nat.mul_add_div (Nat.two_pow_pos pad),
      Nat.div_eq_of_lt rest, Nat.mul_div_cancel_left _ (Nat.two_pow_pos pad)] using divided
  have zero : ended.acc % 2 ^ pad = 0 := by
    rw [quotient] at values
    omega
  have padding : ended.acc * 2 ^ (8 - ended.bits) % 2 ^ 8 = 0 := by
    rw [bits, show (2 : Nat) ^ 8 = 2 ^ pad * 2 ^ (8 - pad) by
      rw [← pow_add, Nat.add_sub_cancel' (by omega)], Nat.mul_mod_mul_right, zero, Nat.zero_mul]
  rw [if_neg (by omega)]
  obtain ⟨_, same⟩ := spell_injective
    (by simpa using fun byte _ => byte.toNat_lt) (by simpa using fun byte _ => byte.toNat_lt)
    (by simpa using lengths) quotient
  rw [List.map_injective_iff.mpr (fun _ _ => UInt8.toNat_inj.mp) same]

end Regrouping

section Checksum

/-- The generators that the overflowing bits select. -/
def feedback (top : BitVec 32) : BitVec 32 :=
  generator.zipIdx.foldl
    (fun next entry => next ^^^ (entry.1 &&& ((0 : BitVec 32) - ((top >>> entry.2) &&& 1)))) 0

theorem polymodStep_eq (chk : BitVec 32) (value : UInt8) :
    polymodStep chk value =
      ((chk &&& 33554431) <<< 5) ^^^ value.toBitVec.setWidth 32 ^^^ feedback (chk >>> 25) := by
  simp only [polymodStep, feedback, generator, List.zipIdx_cons, List.zipIdx_nil, List.foldl_cons,
    List.foldl_nil]
  rw [show (0 : BitVec 32) = 0#32 from rfl, BitVec.zero_xor]
  ac_rfl

theorem polymodStep_value (chk : BitVec 32) (value : UInt8) :
    polymodStep chk value = polymodStep chk 0 ^^^ value.toBitVec.setWidth 32 := by
  rw [polymodStep_eq, polymodStep_eq, show (0 : UInt8).toBitVec.setWidth 32 = 0#32 from rfl,
    BitVec.xor_zero]
  ac_rfl

/-- Bits that stay clear of the top are only shifted. -/
theorem polymodStep_xor (chk low : BitVec 32) (value : UInt8) (short : low.toNat < 2 ^ 25) :
    polymodStep (chk ^^^ low) value = polymodStep chk value ^^^ (low <<< 5) := by
  have top : low >>> 25 = 0#32 := by
    apply BitVec.eq_of_toNat_eq
    rw [BitVec.toNat_ushiftRight, Nat.shiftRight_eq_div_pow, Nat.div_eq_of_lt short]
    rfl
  have kept : low &&& 33554431 = low := by
    apply BitVec.eq_of_toNat_eq
    rw [BitVec.toNat_and]
    exact (Nat.and_two_pow_sub_one_eq_mod low.toNat 25).trans (Nat.mod_eq_of_lt short)
  have distributes : (chk ^^^ low) &&& 33554431 = (chk &&& 33554431) ^^^ (low &&& 33554431) := by
    ext place inside
    simp only [BitVec.getElem_and, BitVec.getElem_xor, Bool.and_xor_distrib_right]
  rw [polymodStep_eq, polymodStep_eq, BitVec.ushiftRight_xor_distrib, top, BitVec.xor_zero,
    distributes, kept, BitVec.shiftLeft_xor_distrib]
  ac_rfl

/-- Five bit values as one number, the last lowest. -/
def pack (values : List UInt8) : BitVec 32 :=
  values.foldl (fun packed value => (packed <<< 5) ^^^ value.toBitVec.setWidth 32) 0

theorem pack_append (values : List UInt8) (value : UInt8) :
    pack (values ++ [value]) = (pack values <<< 5) ^^^ value.toBitVec.setWidth 32 := by
  rw [pack, List.foldl_append]
  rfl

theorem pack_small (values : List UInt8) (small : ∀ value ∈ values, value.toNat < 2 ^ 5) :
    (pack values).toNat < 2 ^ (5 * values.length) := by
  induction values using List.reverseRecOn with
  | nil => decide
  | append_singleton values value hypothesis =>
    have before := hypothesis fun member inside => small member (by simp [inside])
    have last := small value (by simp)
    have shifted : (pack values <<< 5).toNat < 2 ^ (5 * (values.length + 1)) := by
      rw [BitVec.toNat_shiftLeft, Nat.shiftLeft_eq, Nat.mul_add, pow_add]
      exact lt_of_le_of_lt (Nat.mod_le _ _) (by omega)
    have width : (value.toBitVec.setWidth 32).toNat < 2 ^ (5 * (values.length + 1)) := by
      rw [BitVec.toNat_setWidth]
      refine lt_of_le_of_lt (Nat.mod_le _ _) (lt_of_lt_of_le last ?_)
      exact Nat.pow_le_pow_right (by decide) (by omega)
    rw [pack_append, BitVec.toNat_xor, List.length_append]
    exact Nat.xor_lt_two_pow shifted width

/-- At most six values pass through the checksum undisturbed by feedback. -/
theorem polymod_pack (chk : BitVec 32) (values : List UInt8) (few : values.length ≤ 6)
    (small : ∀ value ∈ values, value.toNat < 2 ^ 5) :
    polymod chk values = polymod chk (List.replicate values.length 0) ^^^ pack values := by
  induction values using List.reverseRecOn with
  | nil => exact BitVec.xor_zero.symm
  | append_singleton values value hypothesis =>
    rw [List.length_append, List.length_singleton] at few
    have smallBefore : ∀ member ∈ values, member.toNat < 2 ^ 5 :=
      fun member inside => small member (by simp [inside])
    have short : (pack values).toNat < 2 ^ 25 :=
      lt_of_lt_of_le (pack_small values smallBefore) (Nat.pow_le_pow_right (by decide) (by omega))
    have before := hypothesis (by omega) smallBefore
    rw [polymod] at before ⊢
    rw [List.foldl_append, before, List.length_append, List.length_singleton,
      List.replicate_succ', polymod, polymod, List.foldl_append, List.foldl_cons, List.foldl_nil,
      List.foldl_cons, List.foldl_nil, polymodStep_xor _ _ _ short, polymodStep_value, pack_append]
    ac_rfl

/-- The checksum stays within thirty bits. -/
theorem polymodStep_lt (chk : BitVec 32) {value : UInt8} (small : value.toNat < 2 ^ 5) :
    (polymodStep chk value).toNat < 2 ^ 30 := by
  have shifted : ((chk &&& 33554431) <<< 5).toNat < 2 ^ 30 := by
    have cut : (chk &&& 33554431).toNat < 2 ^ 25 := by
      rw [BitVec.toNat_and]
      exact lt_of_le_of_lt Nat.and_le_right (by decide)
    rw [BitVec.toNat_shiftLeft, Nat.shiftLeft_eq]
    exact lt_of_le_of_lt (Nat.mod_le _ _) (by omega)
  have taken : (value.toBitVec.setWidth 32).toNat < 2 ^ 30 := by
    rw [BitVec.toNat_setWidth]
    exact lt_of_le_of_lt (Nat.mod_le _ _) (lt_of_lt_of_le small (by decide))
  have selected : (feedback (chk >>> 25)).toNat < 2 ^ 30 := by
    simp only [feedback, generator, List.zipIdx_cons, List.zipIdx_nil, List.foldl_cons,
      List.foldl_nil, BitVec.toNat_xor, BitVec.toNat_and]
    refine Nat.xor_lt_two_pow (Nat.xor_lt_two_pow (Nat.xor_lt_two_pow (Nat.xor_lt_two_pow
      (Nat.xor_lt_two_pow (by decide) ?_) ?_) ?_) ?_) ?_ <;>
    exact lt_of_le_of_lt Nat.and_le_left (by decide)
  rw [polymodStep_eq, BitVec.toNat_xor, BitVec.toNat_xor]
  exact Nat.xor_lt_two_pow (Nat.xor_lt_two_pow shifted taken) selected

theorem polymod_lt (chk : BitVec 32) (values : List UInt8) (some : values ≠ [])
    (small : ∀ value ∈ values, value.toNat < 2 ^ 5) : (polymod chk values).toNat < 2 ^ 30 := by
  induction values using List.reverseRecOn with
  | nil => exact absurd rfl some
  | append_singleton values value _ =>
    rw [polymod, List.foldl_append, List.foldl_cons, List.foldl_nil]
    exact polymodStep_lt _ (small value (by simp))

theorem checksum_small (chk : BitVec 32) : ∀ group ∈ checksum chk, group.toNat < 2 ^ 5 := by
  intro group inside
  obtain ⟨slot, _, rfl⟩ := List.mem_map.mp inside
  simp only [UInt8.toNat_ofBitVec, BitVec.toNat_setWidth, BitVec.toNat_and]
  exact lt_of_le_of_lt (Nat.mod_le _ _) (lt_of_le_of_lt Nat.and_le_right (by decide))

/-- A number is its upper bits and its last group. -/
theorem shift_join (number : BitVec 32) :
    ((number >>> 5) <<< 5) ^^^ ((number &&& 31).setWidth 8).setWidth 32 = number := by
  apply BitVec.eq_of_getLsbD_eq
  intro place inside
  simp only [BitVec.getLsbD_xor, BitVec.getLsbD_shiftLeft, BitVec.getLsbD_ushiftRight,
    BitVec.getLsbD_setWidth, BitVec.getLsbD_and]
  by_cases last : place < 5
  · have mask : (31 : BitVec 32).getLsbD place = true :=
      (by decide : ∀ place < 5, (31 : BitVec 32).getLsbD place = true) place last
    rw [mask]
    simp [last, inside, show place < 8 by omega]
  · have mask : (31 : BitVec 32).getLsbD place = false :=
      Nat.testBit_lt_two_pow (lt_of_lt_of_le (show 31 < 2 ^ 5 by decide)
        (Nat.pow_le_pow_right (by decide) (Nat.le_of_not_lt last)))
    rw [mask]
    simp [last, inside, Nat.add_sub_cancel' (Nat.le_of_not_lt last)]

/-- The six groups of a number of thirty bits pack to it. -/
theorem pack_groups (residue : BitVec 32) (short : residue.toNat < 2 ^ 30) (count : Nat)
    (few : count ≤ 6) :
    pack ((List.range count).map fun slot =>
      UInt8.ofBitVec (((residue >>> (5 * (5 - slot))) &&& 31).setWidth 8)) =
        residue >>> (5 * (6 - count)) := by
  induction count with
  | zero =>
    apply BitVec.eq_of_toNat_eq
    rw [BitVec.toNat_ushiftRight, Nat.shiftRight_eq_div_pow, Nat.div_eq_of_lt short]
    rfl
  | succ count hypothesis =>
    rw [List.range_succ, List.map_append, List.map_singleton, pack_append,
      hypothesis (by omega), show 5 * (6 - count) = 5 * (5 - count) + 5 by omega,
      show 6 - (count + 1) = 5 - count by omega, BitVec.shiftRight_add]
    exact shift_join _

theorem polymod_checksum (chk : BitVec 32) : polymod chk (checksum chk) = bech32mConst := by
  have short : (polymod chk [0, 0, 0, 0, 0, 0] ^^^ bech32mConst).toNat < 2 ^ 30 := by
    rw [BitVec.toNat_xor]
    exact Nat.xor_lt_two_pow (polymod_lt _ _ (by decide) (by simp)) (by decide)
  have packed : pack (checksum chk) = polymod chk [0, 0, 0, 0, 0, 0] ^^^ bech32mConst :=
    pack_groups _ short 6 le_rfl
  rw [polymod_pack chk _ (by simp [checksum]) (checksum_small chk), packed]
  have zeros : List.replicate (checksum chk).length (0 : UInt8) = [0, 0, 0, 0, 0, 0] := by
    simp [checksum]
  rw [zeros, ← BitVec.xor_assoc, BitVec.xor_self, BitVec.zero_xor]

end Checksum

section RoundTrip

theorem toAsciiLowercase_idem (byte : UInt8) :
    toAsciiLowercase (toAsciiLowercase byte) = toAsciiLowercase byte := by
  simp only [toAsciiLowercase]
  grind

theorem toAsciiLowercase_upper (byte : UInt8) :
    toAsciiLowercase (toAsciiUppercase byte) = toAsciiLowercase byte := by
  simp only [toAsciiLowercase, toAsciiUppercase]
  grind

theorem toAsciiUppercase_lower (byte : UInt8) :
    toAsciiUppercase (toAsciiLowercase byte) = toAsciiUppercase byte := by
  simp only [toAsciiLowercase, toAsciiUppercase]
  grind

theorem isAsciiLowercase_upper (byte : UInt8) : isAsciiLowercase (toAsciiUppercase byte) = false := by
  simp only [toAsciiUppercase, isAsciiLowercase]
  grind

theorem hrpPolymod_lower (hrp : Text) : hrpPolymod (hrp.map toAsciiLowercase) = hrpPolymod hrp := by
  simp only [hrpPolymod, List.map_map, Function.comp_def, toAsciiLowercase_idem]

/-- The characters of the alphabet: each stands for its group, is in lower case and is not the
separator. -/
theorem charOf_spec {group : UInt8} (small : group.toNat < 2 ^ 5) :
    charsetIndex (charOf group) = some group ∧ toAsciiLowercase (charOf group) = charOf group ∧
      charOf group ≠ separatorByte := by
  have table : ∀ number < 2 ^ 5, charsetIndex (charOf (UInt8.ofNat number)) =
      some (UInt8.ofNat number) ∧
        toAsciiLowercase (charOf (UInt8.ofNat number)) = charOf (UInt8.ofNat number) ∧
        charOf (UInt8.ofNat number) ≠ separatorByte := by decide
  have entry := table group.toNat small
  rwa [UInt8.ofNat_toNat] at entry

variable {payload : List UInt8} {hrp text : Text}

theorem rsplit_none (absent : separatorByte ∉ text) : rsplit text = none := by
  induction text with
  | nil => rfl
  | cons byte rest hypothesis =>
    rw [List.mem_cons, not_or] at absent
    simp [rsplit, hypothesis absent.2, Ne.symm absent.1]

theorem rsplit_append (hrp : Text) {body : Text} (absent : separatorByte ∉ body) :
    rsplit (hrp ++ separatorByte :: body) = some (hrp, body) := by
  induction hrp with
  | nil => simp [rsplit, rsplit_none absent]
  | cons byte rest hypothesis => simp [rsplit, hypothesis]

/-- A rendered text in lower case. -/
theorem render_lower (hrp : Text) {groups : List UInt8}
    (regrouped : convertBits payload 8 5 true = some groups)
    (small : ∀ group ∈ groups, group.toNat < 2 ^ 5) :
    (render hrp payload).map toAsciiLowercase = hrp.map toAsciiLowercase ++ separatorByte ::
      (groups ++ checksum (polymod (hrpPolymod hrp) groups)).map charOf := by
  have lower : ∀ values : List UInt8, (∀ group ∈ values, group.toNat < 2 ^ 5) →
      values.map (fun group => toAsciiLowercase (charOf group)) = values.map charOf := by
    intro values smallValues
    exact List.map_congr_left fun group inside => (charOf_spec (smallValues group inside)).2.1
  have sep : toAsciiLowercase separatorByte = separatorByte := by decide
  simp only [render, regrouped, Option.getD_some, encode, List.map_append, List.map_cons,
    List.map_map, Function.comp_def, toAsciiLowercase_upper, lower groups small,
    lower _ (checksum_small _), sep, List.append_assoc, List.cons_append]

theorem mapM_charsetIndex {values : List UInt8} (small : ∀ group ∈ values, group.toNat < 2 ^ 5) :
    (values.map charOf).mapM charsetIndex = some values := by
  induction values with
  | nil => rfl
  | cons group rest hypothesis =>
    rw [List.map_cons, List.mapM_cons, (charOf_spec (small group List.mem_cons_self)).1,
      hypothesis (List.forall_mem_cons.mp small).2]
    rfl

/-- A rendered text in one case decodes to its human readable part and payload. -/
theorem decode_render (hrp payload : List UInt8) (some : hrp ≠ [])
    (printable : ∀ byte ∈ hrp, 33 ≤ toAsciiLowercase byte ∧ toAsciiLowercase byte ≤ 126)
    (short : (render hrp payload).length ≤ maxEncoded)
    (spells : text.map toAsciiLowercase = (render hrp payload).map toAsciiLowercase)
    (oneCase : (text.any isAsciiLowercase && text.any isAsciiUppercase) = false) :
    decode text = .ok (hrp.map toAsciiLowercase, payload) := by
  obtain ⟨groups, pad, regrouped, small, padding, count, value⟩ := convertBits_pad payload
  have lowered := spells.trans (render_lower hrp regrouped small)
  set closing := checksum (polymod (hrpPolymod hrp) groups) with closingDef
  have allSmall : ∀ group ∈ groups ++ closing, group.toNat < 2 ^ 5 := by
    intro group inside
    rcases List.mem_append.mp inside with early | late
    · exact small group early
    · exact checksum_small _ group late
  have absent : separatorByte ∉ (groups ++ closing).map charOf := by
    intro inside
    obtain ⟨group, member, same⟩ := List.mem_map.mp inside
    exact (charOf_spec (allSmall group member)).2.2 same
  have six : closing.length = 6 := by simp [closingDef, checksum]
  have sameLength := congrArg List.length spells
  have lengths := congrArg List.length lowered
  simp only [List.length_map, List.length_append, List.length_cons] at sameLength lengths
  have positive : 0 < hrp.length := List.length_pos_iff.mpr some
  have inRange : (hrp.map toAsciiLowercase).any
      (fun byte => !(33 ≤ byte && byte ≤ 126)) = false := by
    simpa using printable
  have closes : polymod (hrpPolymod (hrp.map toAsciiLowercase)) (groups ++ closing) =
      bech32mConst := by
    rw [hrpPolymod_lower, polymod, List.foldl_append]
    exact polymod_checksum _
  have front : (groups ++ closing).take ((groups ++ closing).length - 6) = groups := by
    rw [List.length_append, six, Nat.add_sub_cancel, List.take_left']
    rfl
  simp only [decode, if_neg (Nat.not_lt.mpr (sameLength ▸ short)), oneCase, Bool.false_eq_true,
    if_false, lowered, rsplit_append _ absent, inRange, mapM_charsetIndex allSmall, closes,
    ne_eq, not_true, front, convertBits_unpad small padding count value, List.length_map]
  rw [if_neg (by omega)]

theorem render_length (hrp : Text) (payload : List UInt8) :
    (render hrp payload).length = hrp.length + 7 + (8 * payload.length + 4) / 5 := by
  obtain ⟨groups, pad, regrouped, small, padding, count, _⟩ := convertBits_pad payload
  have lengths := congrArg List.length (render_lower hrp regrouped small)
  have six : (checksum (polymod (hrpPolymod hrp) groups)).length = 6 := by simp [checksum]
  simp only [List.length_map, List.length_append, List.length_cons, six] at lengths
  omega

/-- A payload renders to text that parses back to it. -/
theorem parse_render (hrp payload : List UInt8) (some : hrp ≠ [])
    (printable : ∀ byte ∈ hrp, 33 ≤ toAsciiLowercase byte ∧ toAsciiLowercase byte ≤ 126)
    (short : (render hrp payload).length ≤ maxEncoded) :
    parse hrp (render hrp payload) = .ok payload := by
  have decoded := decode_render hrp payload some printable short rfl
    (by simp [render, isAsciiLowercase_upper])
  simp [parse, decoded, Function.comp_def, toAsciiLowercase_idem]

/-- A human readable part as the families have it, short and printable. -/
def Readable (hrp : Text) : Prop :=
  hrp ≠ [] ∧ hrp.length ≤ 4 ∧ ∀ byte ∈ hrp, 33 ≤ toAsciiLowercase byte ∧ toAsciiLowercase byte ≤ 126
  deriving Decidable

theorem Readable.render_short (readable : Readable hrp)
    (digest : payload.length = digestLen) : (render hrp payload).length ≤ maxEncoded := by
  have few := readable.2.1
  rw [render_length, digest, digestLen, maxEncoded]
  omega

theorem renderDigest_eq_ok :
    renderDigest hrp payload = .ok text ↔ payload.length = digestLen ∧ text = render hrp payload := by
  simp only [renderDigest, renderChecked, checkDigest, bind, Except.bind, pure, Except.pure]
  grind

theorem parseDigest_eq_ok : parseDigest hrp text = .ok payload ↔ parse hrp text = .ok payload ∧
      payload.length = digestLen := by
  unfold parseDigest parseChecked checkDigest
  cases parse hrp text with
  | error error => exact iff_of_false nofun nofun
  | ok found =>
    simp only [bind, Except.bind, pure, Except.pure]
    grind

/-- Every digest has an address text that parses back to it. -/
theorem parseDigest_render (readable : Readable hrp) (digest : payload.length = digestLen) :
    parseDigest hrp (render hrp payload) = .ok payload :=
  parseDigest_eq_ok.mpr
    ⟨parse_render _ _ readable.1 readable.2.2 (readable.render_short digest), digest⟩

theorem render_digest_injective (readable : Readable hrp)
    {other : List UInt8} (digest : payload.length = digestLen)
    (digestAgain : other.length = digestLen) (same : render hrp payload = render hrp other) :
    payload = other := by
  have parsed := congrArg (parseDigest hrp) same
  rw [parseDigest_render readable digest, parseDigest_render readable digestAgain] at parsed
  exact Except.ok.inj parsed

theorem readable_hrpAddress : Readable hrpAddress := by decide +kernel

theorem readable_hrpTx : Readable hrpTx := by decide +kernel

theorem parseAddress_render (digest : payload.length = digestLen) :
    parseAddress (render hrpAddress payload) = .ok payload :=
  parseDigest_render readable_hrpAddress digest

end RoundTrip

end QuantovaChain.Idfmt
