import Mathlib.Algebra.Group.Nat.Defs
import Mathlib.Order.Basic

/-!
# Unsigned machine words

A word of `w` bits is a natural number below `2 ^ w`. The arithmetic is the kinds a checked program
uses: saturating operations, which stop at the ends of the range, and checked operations, which
have no result outside it. There is no wrapping arithmetic here, and so no ring structure.
-/

/-- An unsigned integer of `w` bits. -/
@[ext]
structure Word (w : Nat) where
  val : Nat
  bound : val < 2 ^ w
  deriving DecidableEq, Repr

namespace Word

variable {w : Nat}

/-- The largest word. -/
def top (w : Nat) : Word w := ⟨2 ^ w - 1, Nat.sub_lt (Nat.two_pow_pos w) Nat.zero_lt_one⟩

/-- Literals are reduced to the range. -/
instance (n : Nat) : OfNat (Word w) n := ⟨⟨n % 2 ^ w, Nat.mod_lt _ (Nat.two_pow_pos w)⟩⟩

instance : LE (Word w) := ⟨fun first second => first.val ≤ second.val⟩

instance : LT (Word w) := ⟨fun first second => first.val < second.val⟩

instance (first second : Word w) : Decidable (first ≤ second) :=
  inferInstanceAs (Decidable (first.val ≤ second.val))

instance (first second : Word w) : Decidable (first < second) :=
  inferInstanceAs (Decidable (first.val < second.val))

instance : Min (Word w) := ⟨fun first second => if first ≤ second then first else second⟩

instance : Max (Word w) := ⟨fun first second => if first ≤ second then second else first⟩

variable {first second word : Word w} {n : Nat}

theorem le_def : first ≤ second ↔ first.val ≤ second.val := Iff.rfl

theorem lt_def : first < second ↔ first.val < second.val := Iff.rfl

@[simp] theorem val_zero : (0 : Word w).val = 0 := Nat.zero_mod _

theorem eq_zero_iff : word = 0 ↔ word.val = 0 := by
  rw [Word.ext_iff, val_zero]

theorem val_min (first second : Word w) :
    (Min.min first second).val = Min.min first.val second.val := by
  simp only [Min.min, le_def]
  split <;> omega

theorem val_max (first second : Word w) :
    (Max.max first second).val = Max.max first.val second.val := by
  simp only [Max.max, le_def]
  split <;> omega

/-- The word of a number in range. -/
def ofNat? (w n : Nat) : Option (Word w) :=
  if inside : n < 2 ^ w then some ⟨n, inside⟩ else none

theorem ofNat?_eq_some : ofNat? w n = some word ↔ word.val = n := by
  unfold ofNat?
  split
  next inside =>
    constructor
    · intro same
      cases same
      rfl
    · intro same
      cases word
      cases same
      rfl
  next outside =>
    constructor
    · intro same
      cases same
    · intro same
      exact absurd (same ▸ word.bound) outside

/-- A number cast to a width, without the bits above it. -/
def wrap (w n : Nat) : Word w := ⟨n % 2 ^ w, Nat.mod_lt _ (Nat.two_pow_pos w)⟩

@[simp] theorem val_wrap (n : Nat) : (wrap w n).val = n % 2 ^ w := rfl

theorem eq_wrap_iff {a : Word w} : a = wrap w n ∧ n < 2 ^ w ↔ n = a.val := by
  constructor
  · rintro ⟨rfl, small⟩
    exact (Nat.mod_eq_of_lt small).symm
  · rintro rfl
    exact ⟨Word.ext (Nat.mod_eq_of_lt a.bound).symm, a.bound⟩

/-- The word of a number, cut to the largest word. -/
def clamp (w n : Nat) : Word w := ⟨Min.min n (2 ^ w - 1), by
  have positive := Nat.two_pow_pos w
  omega⟩

@[simp] theorem val_clamp (n : Nat) : (clamp w n).val = Min.min n (2 ^ w - 1) := rfl

theorem clamp_eq_wrap (small : n < 2 ^ w) : clamp w n = wrap w n := by
  ext
  rw [val_clamp, val_wrap, Nat.mod_eq_of_lt small]
  omega

/-- Addition that stops at the largest word. -/
def satAdd (first second : Word w) : Word w := clamp w (first.val + second.val)

@[simp] theorem val_satAdd (first second : Word w) :
    (satAdd first second).val = Min.min (first.val + second.val) (2 ^ w - 1) := rfl

theorem satAdd_zero (word : Word w) : satAdd word 0 = word := by
  ext
  have bound := word.bound
  rw [val_satAdd, val_zero]
  omega

theorem val_le_satAdd (first second : Word w) : first.val ≤ (satAdd first second).val := by
  have bound := first.bound
  rw [val_satAdd]
  omega

/-- Subtraction that stops at zero. -/
def satSub (first second : Word w) : Word w :=
  ⟨first.val - second.val, Nat.lt_of_le_of_lt (Nat.sub_le _ _) first.bound⟩

@[simp] theorem val_satSub (first second : Word w) :
    (satSub first second).val = first.val - second.val := rfl

theorem satSub_zero (word : Word w) : satSub word 0 = word := Word.ext (Nat.sub_zero _)

theorem zero_satSub (word : Word w) : satSub 0 word = 0 := Word.ext (Nat.zero_sub _)

/-- Multiplication that stops at the largest word. -/
def satMul (first second : Word w) : Word w := clamp w (first.val * second.val)

@[simp] theorem val_satMul (first second : Word w) :
    (satMul first second).val = Min.min (first.val * second.val) (2 ^ w - 1) := rfl

/-- Addition without a result past the largest word. -/
def checkedAdd (first second : Word w) : Option (Word w) := ofNat? w (first.val + second.val)

theorem checkedAdd_eq_some {sum : Word w} :
    checkedAdd first second = some sum ↔ sum.val = first.val + second.val :=
  ofNat?_eq_some

/-- Subtraction without a result below zero. -/
def checkedSub (first second : Word w) : Option (Word w) :=
  if second ≤ first then some (satSub first second) else none

theorem checkedSub_eq_some {rest : Word w} : checkedSub first second = some rest ↔
      second.val ≤ first.val ∧ rest.val = first.val - second.val := by
  simp only [checkedSub, le_def]
  split
  next inside => simp [Word.ext_iff, inside, eq_comm]
  next outside => simp [outside]

/-- Division, which is zero for a zero divisor. -/
def div (first second : Word w) : Word w :=
  ⟨first.val / second.val, Nat.lt_of_le_of_lt (Nat.div_le_self _ _) first.bound⟩

@[simp] theorem val_div (first second : Word w) : (div first second).val = first.val / second.val :=
  rfl

/-- The digits of a number to base 256, least significant first. -/
def leDigits (number count : Nat) : List UInt8 :=
  (List.range count).map fun place => UInt8.ofNat (number / 256 ^ place % 256)

/-- The bytes of a word, least significant first. -/
def leBytes (word : Word w) (count : Nat) : List UInt8 := leDigits word.val count

/-- The bytes of a word, most significant first. -/
def beBytes (word : Word w) (count : Nat) : List UInt8 := (word.leBytes count).reverse

/-- The number that bytes spell, least significant first. -/
def natOfLe : List UInt8 → Nat
  | [] => 0
  | byte :: rest => byte.toNat + 256 * natOfLe rest

/-- The word that exactly `w / 8` bytes spell, least significant first. -/
def ofLe? (w : Nat) (bytes : List UInt8) : Option (Word w) :=
  if bytes.length = w / 8 then ofNat? w (natOfLe bytes) else none

theorem leBytes_eq (word : Word w) (count : Nat) : word.leBytes count = leDigits word.val count :=
  rfl

@[simp] theorem length_leBytes (word : Word w) (count : Nat) :
    (word.leBytes count).length = count := by
  simp [leBytes, leDigits]

theorem leDigits_succ (number count : Nat) :
    leDigits number (count + 1) =
      UInt8.ofNat (number % 256) :: leDigits (number / 256) count := by
  simp only [leDigits, List.range_succ_eq_map, List.map_cons, List.map_map, Nat.pow_zero,
    Nat.div_one]
  congr 2
  funext place
  simp only [Function.comp_apply, Nat.succ_eq_add_one, Nat.div_div_eq_div_mul]
  rw [Nat.pow_succ, Nat.mul_comm]

theorem natOfLe_leDigits (number count : Nat) :
    natOfLe (leDigits number count) = number % 256 ^ count := by
  induction count generalizing number with
  | zero => simp [leDigits, natOfLe, Nat.mod_one]
  | succ count hypothesis =>
    have digit : (UInt8.ofNat (number % 256)).toNat = number % 256 := by
      rw [UInt8.toNat_ofNat']
      omega
    rw [leDigits_succ, natOfLe, hypothesis, digit, Nat.pow_succ',
      Nat.mod_mul]

theorem leDigits_natOfLe (bytes : List UInt8) : leDigits (natOfLe bytes) bytes.length = bytes := by
  induction bytes with
  | nil => rfl
  | cons byte rest hypothesis =>
    have small := byte.toNat_lt
    have first : natOfLe (byte :: rest) % 256 = byte.toNat := by
      rw [natOfLe]
      omega
    have later : natOfLe (byte :: rest) / 256 = natOfLe rest := by
      rw [natOfLe]
      omega
    rw [List.length_cons, leDigits_succ, first, later, hypothesis, UInt8.ofNat_toNat]

theorem natOfLe_lt (bytes : List UInt8) : natOfLe bytes < 256 ^ bytes.length := by
  induction bytes with
  | nil => simp [natOfLe]
  | cons byte rest hypothesis =>
    have small := byte.toNat_lt
    rw [natOfLe, List.length_cons, Nat.pow_succ']
    omega

theorem natOfLe_append (low high : List UInt8) :
    natOfLe (low ++ high) = natOfLe low + 256 ^ low.length * natOfLe high := by
  induction low with
  | nil => simp [natOfLe]
  | cons byte rest hypothesis =>
    rw [List.cons_append, natOfLe, natOfLe, hypothesis, List.length_cons, Nat.pow_succ',
      Nat.mul_add, Nat.mul_assoc, Nat.add_assoc]

/-- The bytes of a word of whole bytes spell the word, and no other bytes do. -/
theorem ofLe?_eq_some {bytes : List UInt8} (octets : w = 8 * (w / 8)) :
    ofLe? w bytes = some word ↔ bytes = word.leBytes (w / 8) := by
  have power : 256 ^ (w / 8) = 2 ^ w := by
    rw [show 256 = 2 ^ 8 from rfl, ← Nat.pow_mul, ← octets]
  unfold ofLe?
  constructor
  · intro spelled
    split at spelled
    · next sized =>
      rw [leBytes_eq, ofNat?_eq_some.mp spelled, ← sized, leDigits_natOfLe]
    · cases spelled
  · rintro rfl
    rw [if_pos (length_leBytes word _), ofNat?_eq_some, leBytes_eq, natOfLe_leDigits, power,
      Nat.mod_eq_of_lt word.bound]

/-- The word that the low bytes of a list spell, least significant first. -/
def ofLe (w : Nat) (bytes : List UInt8) : Word w :=
  ⟨natOfLe bytes % 2 ^ w, Nat.mod_lt _ (Nat.two_pow_pos w)⟩

theorem ofLe_eq_iff {bytes : List UInt8} (octets : w = 8 * (w / 8))
    (sized : bytes.length = w / 8) : ofLe w bytes = word ↔ bytes = word.leBytes (w / 8) := by
  have power : 256 ^ (w / 8) = 2 ^ w := by
    rw [show 256 = 2 ^ 8 from rfl, ← Nat.pow_mul, ← octets]
  have inside : natOfLe bytes < 2 ^ w := by
    rw [← power, ← sized]
    exact natOfLe_lt bytes
  have small : (ofLe w bytes).val = natOfLe bytes := Nat.mod_eq_of_lt inside
  rw [← ofLe?_eq_some octets, ofLe?, if_pos sized, ofNat?_eq_some, Word.ext_iff, small, eq_comm]

end Word

/-- The widths in use. -/
abbrev U32 := Word 32

abbrev U64 := Word 64

abbrev U128 := Word 128
