import Mathlib.Algebra.Field.MinimalAxioms
import Mathlib.Order.Interval.Finset.Nat
import Mathlib.Dynamics.PeriodicPts.Defs

/-!
# The field of 256 elements

Erasure coding reads a byte as an element of a field. Sums are exclusive ors, and products go
through two tables: the powers of two, where two is a generator, and the logarithms. The tables are
filled by one loop. Multiplying by a power of two is doubling that many times, and doubling is
additive, so the operations make a field.
-/

namespace QuantovaChain.Net

/-- The powers of the generator, twice over, and the logarithms. -/
structure Field where
  exp : Vector UInt8 512
  log : Vector UInt8 256

namespace Field

/-- The next power of the generator. -/
def next (x : UInt16) : UInt16 :=
  let x := x <<< 1
  if x &&& 256 ≠ 0 then x ^^^ 285 else x

/-- The loop that fills the tables, from a power on. -/
def fill : (rounds power : Nat) → UInt16 → Field → Field
  | 0, _, _, field => field
  | rounds + 1, power, x, field =>
    fill rounds (power + 1) (next x)
      { exp := field.exp.setIfInBounds power x.toUInt8
        log := field.log.setIfInBounds x.toNat (UInt8.ofNat power) }

/-- The tables after the loop. -/
def filled : Field :=
  fill 255 0 1 { exp := Vector.replicate 512 0, log := Vector.replicate 256 0 }

/-- The first half of the powers is copied to the second. -/
def copied (field : Field) : Field where
  exp := Vector.ofFn fun place =>
    if place.val < 255 then field.exp[place.val] else field.exp[place.val - 255]
  log := field.log

def build : Field := copied filled

def logOf (field : Field) (a : UInt8) : Nat :=
  have inside := a.toNat_lt
  field.log[a.toNat].toNat

theorem logOf_copied (field : Field) (a : UInt8) : field.copied.logOf a = field.logOf a := by
  cases field
  simp only [logOf, copied]

theorem logOf_lt (field : Field) (a : UInt8) : field.logOf a < 256 := UInt8.toNat_lt _

def mul (field : Field) (a b : UInt8) : UInt8 :=
  have first := field.logOf_lt a
  have second := field.logOf_lt b
  if a = 0 ∨ b = 0 then 0 else field.exp[field.logOf a + field.logOf b]

def inv (field : Field) (a : UInt8) : UInt8 := field.exp[255 - field.logOf a]

end Field

/-- The tables of the code. -/
def field : Field := .build

/-! ## Doubling -/

/-- The next power, on bytes. -/
def double (b : UInt8) : UInt8 := (Field.next b.toUInt16).toUInt8

/-- Every byte is one of 256. -/
theorem forall_byte {holds : UInt8 → Prop} (all : ∀ n : Fin 256, holds (UInt8.ofFin n)) (b : UInt8) :
    holds b :=
  all b.toFin

theorem next_toUInt16 (b : UInt8) : Field.next b.toUInt16 = (double b).toUInt16 := by
  revert b
  exact forall_byte (by decide +kernel)

theorem double_eq (b : UInt8) : (double b).toBitVec =
    (b.toBitVec <<< 1) ^^^ (if b.toBitVec.msb then 29#8 else 0#8) := by
  revert b
  exact forall_byte (by decide +kernel)

theorem double_eq_zero (b : UInt8) : double b = 0 ↔ b = 0 := by
  revert b
  exact forall_byte (by decide +kernel)

theorem double_xor (a b : UInt8) : double (a ^^^ b) = double a ^^^ double b := by
  rw [← UInt8.toBitVec_inj, UInt8.toBitVec_xor, double_eq, double_eq, double_eq, UInt8.toBitVec_xor,
    BitVec.shiftLeft_xor_distrib, BitVec.msb_xor]
  generalize a.toBitVec <<< 1 = first
  generalize b.toBitVec <<< 1 = second
  have swap : ∀ high low : BitVec 8,
      first ^^^ second ^^^ (high ^^^ low) = first ^^^ high ^^^ (second ^^^ low) := by
    intro high low
    ac_rfl
  rw [← swap]
  congr 1
  cases a.toBitVec.msb <;> cases b.toBitVec.msb <;> rfl

theorem double_injective : Function.Injective double := by
  intro a b same
  rw [← UInt8.xor_eq_zero_iff, ← double_eq_zero, double_xor, same, UInt8.xor_self]

/-- The powers of the generator. -/
def power (exponent : Nat) : UInt8 := double^[exponent] 1

theorem power_255 : power 255 = 1 := by decide +kernel

theorem power_ne_one : ∀ exponent : Fin 255, exponent.val ≠ 0 → power exponent.val ≠ 1 := by
  decide +kernel

theorem power_add (first second : Nat) : power (first + second) = double^[first] (power second) :=
  Function.iterate_add_apply double first second 1

theorem power_mod (exponent : Nat) : power (exponent % 255) = power exponent :=
  Function.IsPeriodicPt.iterate_mod_apply power_255 exponent

theorem iterate_double_zero (rounds : Nat) : double^[rounds] 0 = 0 :=
  Function.iterate_fixed ((double_eq_zero 0).mpr rfl) rounds

theorem iterate_double_xor (rounds : Nat) (a b : UInt8) :
    double^[rounds] (a ^^^ b) = double^[rounds] a ^^^ double^[rounds] b := by
  induction rounds generalizing a b with
  | zero => rfl
  | succ rounds hypothesis =>
    simp only [Function.iterate_succ_apply, double_xor, hypothesis]

theorem power_ne_zero (exponent : Nat) : power exponent ≠ 0 := by
  intro zero
  rw [power, ← iterate_double_zero exponent] at zero
  exact absurd (double_injective.iterate exponent zero) (by decide)

/-- The powers below 255 are distinct. -/
theorem power_inj {first second : Nat} (low : first < 255) (high : second < 255)
    (same : power first = power second) : first = second := by
  wlog ordered : first ≤ second generalizing first second
  · exact (this high low same.symm (Nat.le_of_not_le ordered)).symm
  by_contra distinct
  have split : second = first + (second - first) := by omega
  rw [split, power_add] at same
  have cycle : 1 = power (second - first) := double_injective.iterate first same
  exact power_ne_one ⟨second - first, by omega⟩ (by simp only; omega) cycle.symm

/-- Every byte besides zero is a power, because there are as many powers as such bytes. -/
theorem exists_power {b : UInt8} (nonzero : b ≠ 0) : ∃ exponent < 255, power exponent = b := by
  let values := (Finset.range 255).image fun exponent => (power exponent).toNat
  have inside : values ⊆ Finset.Ioo 0 256 := by
    intro value found
    obtain ⟨exponent, _, rfl⟩ := Finset.mem_image.mp found
    have positive : (power exponent).toNat ≠ 0 :=
      fun zero => power_ne_zero exponent (UInt8.toNat_inj.mp zero)
    exact Finset.mem_Ioo.mpr ⟨Nat.pos_of_ne_zero positive, UInt8.toNat_lt _⟩
  have many : values.card = 255 := by
    rw [Finset.card_image_of_injOn, Finset.card_range]
    intro first low second high same
    exact power_inj (Finset.mem_range.mp low) (Finset.mem_range.mp high) (UInt8.toNat_inj.mp same)
  have all : values = Finset.Ioo 0 256 :=
    Finset.eq_of_subset_of_card_le inside (by rw [many, Nat.card_Ioo])
  have found : b.toNat ∈ values := by
    rw [all, Finset.mem_Ioo]
    exact ⟨Nat.pos_of_ne_zero fun zero => nonzero (UInt8.toNat_inj.mp zero), UInt8.toNat_lt _⟩
  obtain ⟨exponent, low, same⟩ := Finset.mem_image.mp found
  exact ⟨exponent, Finset.mem_range.mp low, UInt8.toNat_inj.mp same⟩

/-! ## The tables -/

/-- The tables hold the powers below a bound. -/
structure Filled (bound : Nat) (field : Field) : Prop where
  exp : ∀ place (inside : place < 512), place < bound → field.exp[place] = power place
  log : ∀ exponent < bound, field.logOf (power exponent) = exponent

theorem Filled.step {bound : Nat} {field : Field} (filled : Filled bound field) (room : bound < 255) :
    Filled (bound + 1)
      { exp := field.exp.setIfInBounds bound (power bound)
        log := field.log.setIfInBounds (power bound).toNat (UInt8.ofNat bound) } where
  exp := by
    intro place inside below
    by_cases here : bound = place
    · subst here
      simp
    · have before := filled.exp place inside (by omega)
      simpa [Vector.getElem_setIfInBounds, here] using before
  log := by
    intro exponent below
    by_cases here : bound = exponent
    · subst here
      simp only [Field.logOf, Vector.getElem_setIfInBounds, if_true, UInt8.toNat_ofNat']
      omega
    · have apart : (power bound).toNat ≠ (power exponent).toNat := by
        intro same
        exact here (power_inj room (by omega) (UInt8.toNat_inj.mp same))
      have before := filled.log exponent (by omega)
      simpa [Field.logOf, Vector.getElem_setIfInBounds, apart] using before

theorem fill_filled {rounds bound : Nat} {field : Field} (filled : Filled bound field)
    (room : bound + rounds ≤ 255) :
    Filled (bound + rounds) (Field.fill rounds bound (power bound).toUInt16 field) := by
  induction rounds generalizing bound field with
  | zero => exact filled
  | succ rounds hypothesis =>
    have stepped := hypothesis (filled.step (by omega)) (by omega)
    have following : Field.next (power bound).toUInt16 = (power (bound + 1)).toUInt16 := by
      rw [next_toUInt16, power, power, Function.iterate_succ_apply']
    rw [Field.fill, following, UInt8.toUInt8_toUInt16, UInt8.toNat_toUInt16,
      ← Nat.succ_add_eq_add_succ]
    exact stepped

theorem filled_tables : Filled 255 Field.filled := by
  have empty : Filled 0 { exp := Vector.replicate 512 0, log := Vector.replicate 256 0 } :=
    ⟨nofun, nofun⟩
  have start : (power 0).toUInt16 = 1 := rfl
  have done := fill_filled empty (Nat.le_refl (0 + 255))
  rw [start, Nat.zero_add] at done
  exact done

/-- The finished table has the powers twice, but for the last two places, which no product
reaches. -/
theorem exp_eq {place : Nat} (inside : place < 512) (below : place < 510) :
    field.exp[place] = power place := by
  simp only [field, Field.build, Field.copied, Vector.getElem_ofFn]
  split
  next first => exact filled_tables.exp place inside first
  next second =>
    rw [filled_tables.exp (place - 255) (by omega) (by omega), ← power_mod place,
      ← power_mod (place - 255), show place % 255 = (place - 255) % 255 by omega]

theorem logOf_power {exponent : Nat} (low : exponent < 255) :
    field.logOf (power exponent) = exponent := by
  rw [field, Field.build, Field.logOf_copied]
  exact filled_tables.log exponent low

/-! ## The operations -/

theorem mul_power {exponent : Nat} (low : exponent < 255) (b : UInt8) :
    field.mul (power exponent) b = double^[exponent] b := by
  by_cases zero : b = 0
  · rw [Field.mul, if_pos (Or.inr zero), zero, iterate_double_zero]
  · obtain ⟨other, high, rfl⟩ := exists_power zero
    rw [Field.mul, if_neg (by simp [power_ne_zero])]
    simp only [logOf_power low, logOf_power high]
    rw [exp_eq _ (by omega), power_add]

theorem inv_power {exponent : Nat} (low : exponent < 255) :
    field.inv (power exponent) = power (255 - exponent) := by
  simp only [Field.inv, logOf_power low]
  exact exp_eq _ (by omega)

/-- A byte as an element of the field. -/
structure Gf where
  byte : UInt8
  deriving DecidableEq

namespace Gf

theorem ext {a b : Gf} (same : a.byte = b.byte) : a = b := by
  cases a
  cases b
  cases same
  rfl

instance : Zero Gf := ⟨⟨0⟩⟩
instance : One Gf := ⟨⟨1⟩⟩
instance : Add Gf := ⟨fun a b => ⟨a.byte ^^^ b.byte⟩⟩
instance : Neg Gf := ⟨fun a => a⟩
instance : Mul Gf := ⟨fun a b => ⟨field.mul a.byte b.byte⟩⟩

/-- Zero has no inverse, and the code never asks for it. -/
instance : Inv Gf := ⟨fun a => if a = 0 then 0 else ⟨field.inv a.byte⟩⟩

@[simp] theorem byte_zero : (0 : Gf).byte = 0 := rfl
@[simp] theorem byte_one : (1 : Gf).byte = 1 := rfl
@[simp] theorem byte_add (a b : Gf) : (a + b).byte = a.byte ^^^ b.byte := rfl
@[simp] theorem byte_neg (a : Gf) : (-a).byte = a.byte := rfl
@[simp] theorem byte_mul (a b : Gf) : (a * b).byte = field.mul a.byte b.byte := rfl

/-- An element is zero or a power of the generator. -/
theorem zero_or_power (a : Gf) : a = 0 ∨ ∃ exponent < 255, a = ⟨power exponent⟩ := by
  by_cases zero : a.byte = 0
  · exact Or.inl (Gf.ext zero)
  · obtain ⟨exponent, low, found⟩ := exists_power zero
    exact Or.inr ⟨exponent, low, Gf.ext found.symm⟩

theorem power_mul {exponent : Nat} (low : exponent < 255) (b : Gf) :
    (⟨power exponent⟩ : Gf) * b = ⟨double^[exponent] b.byte⟩ :=
  Gf.ext (mul_power low b.byte)

theorem mul_comm_gf (a b : Gf) : a * b = b * a := by
  apply Gf.ext
  simp only [byte_mul, Field.mul, or_comm, Nat.add_comm]

theorem zero_mul_gf (b : Gf) : 0 * b = 0 := Gf.ext (by simp [Field.mul])

/-- Doubling 255 times gives the byte back. -/
theorem iterate_double_mod (rounds : Nat) (b : UInt8) :
    double^[rounds % 255] b = double^[rounds] b := by
  by_cases zero : b = 0
  · rw [zero, iterate_double_zero, iterate_double_zero]
  · obtain ⟨exponent, _, rfl⟩ := exists_power zero
    rw [← power_add, ← power_add, ← power_mod, Nat.mod_add_mod, power_mod]

theorem mul_assoc_gf (a b c : Gf) : a * b * c = a * (b * c) := by
  rcases zero_or_power a with rfl | ⟨first, low, rfl⟩
  · simp only [zero_mul_gf]
  rcases zero_or_power b with rfl | ⟨second, high, rfl⟩
  · rw [mul_comm_gf ⟨power first⟩ 0, zero_mul_gf, zero_mul_gf, mul_comm_gf, zero_mul_gf]
  have bounded : (first + second) % 255 < 255 := Nat.mod_lt _ (by decide)
  rw [power_mul low, power_mul high, power_mul low, ← power_add, ← power_mod, power_mul bounded,
    iterate_double_mod, Function.iterate_add_apply]

theorem mul_add_gf (a b c : Gf) : a * (b + c) = a * b + a * c := by
  rcases zero_or_power a with rfl | ⟨exponent, low, rfl⟩
  · simp only [zero_mul_gf]
    exact Gf.ext (by simp)
  · rw [power_mul low, power_mul low, power_mul low]
    exact Gf.ext (iterate_double_xor exponent b.byte c.byte)

theorem mul_inv_gf (a : Gf) (nonzero : a ≠ 0) : a * a⁻¹ = 1 := by
  rcases zero_or_power a with rfl | ⟨exponent, low, rfl⟩
  · exact absurd rfl nonzero
  · have inverse : (⟨power exponent⟩ : Gf)⁻¹ = ⟨power (255 - exponent)⟩ := by
      change (if _ then _ else _) = _
      rw [if_neg nonzero, inv_power low]
    rw [inverse, power_mul low, ← power_add, Nat.add_sub_cancel' (Nat.le_of_lt low), power_255]
    rfl

end Gf

end QuantovaChain.Net

namespace QuantovaChain

instance : Field Net.Gf :=
  Field.ofMinimalAxioms Net.Gf
    (fun a b c => Net.Gf.ext (UInt8.xor_assoc a.byte b.byte c.byte))
    (fun _ => Net.Gf.ext (by simp))
    (fun _ => Net.Gf.ext (by simp))
    Net.Gf.mul_assoc_gf Net.Gf.mul_comm_gf
    (fun a => Net.Gf.power_mul (show 0 < 255 by decide) a)
    Net.Gf.mul_inv_gf (if_pos rfl) Net.Gf.mul_add_gf
    ⟨0, 1, by decide⟩

end QuantovaChain
