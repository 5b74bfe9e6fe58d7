import Mathlib.Data.Nat.Bitwise
import Mathlib.Tactic.Linarith

/-!
# Fixed-width keys as bit strings

A key is a `BitVec w`, read from its most significant bit. A stem at `level` is a key whose bits
from `level` on are zero, and it stands for the subtree of all keys that agree with it on the first
`level` bits. The lemmas say what the stem operations do bit by bit, how a subtree splits into its
two halves, and that a subtree is exactly one interval of the numeric order.
-/

namespace KeyBits

variable {w : Nat}

/-- The bit that selects the branch at `level`. -/
def keyBit (key : BitVec w) (level : Nat) : Bool :=
  key.getMsbD level

/-- Sets the bit at `level`. -/
def withBit (key : BitVec w) (level : Nat) : BitVec w :=
  key ||| BitVec.twoPow w (w - 1 - level)

/-- Flips the bit at `level`. -/
def flipBit (key : BitVec w) (level : Nat) : BitVec w :=
  key ^^^ BitVec.twoPow w (w - 1 - level)

/-- Clears every bit from `level` on. -/
def prefixAt (key : BitVec w) (level : Nat) : BitVec w :=
  (key >>> (w - level)) <<< (w - level)

/-- Sets every bit from `level` on. -/
def subtreeEnd (stem : BitVec w) (level : Nat) : BitVec w :=
  stem ||| (BitVec.allOnes w >>> level)

/-- The key lies in the subtree of `stem` at `level`. Nothing lies below a key that is not a stem
of that level. -/
def Below (level : Nat) (stem key : BitVec w) : Prop :=
  prefixAt key level = stem

theorem compare_lt {a b : BitVec w} (order : compare a b = .lt) : a < b := by
  simp only [compare, compareOfLessAndEq] at order
  split at order
  · assumption
  · split at order <;> cases order

/-- Bits of a cleared key: those before `level` stay, the others are zero. -/
theorem getMsbD_prefixAt (key : BitVec w) (level i : Nat) :
    (prefixAt key level).getMsbD i = (decide (i < level) && key.getMsbD i) := by
  unfold prefixAt
  by_cases outside : w ≤ i
  · simp [BitVec.getMsbD_of_ge _ i outside]
  · by_cases kept : i < level
    · have shifted : i + (w - level) < w := by omega
      have back : i + (w - level) - (w - level) = i := by omega
      simp [BitVec.getMsbD_shiftLeft, BitVec.getMsbD_ushiftRight, kept, shifted, back]
    · have beyond : ¬ i + (w - level) < w := by omega
      simp [BitVec.getMsbD_shiftLeft, BitVec.getMsbD_ushiftRight, kept, beyond]

/-- Bits of a key with one more bit set. -/
theorem getMsbD_withBit (key : BitVec w) (level i : Nat) (inside : level < w) :
    (withBit key level).getMsbD i = (key.getMsbD i || decide (i = level)) := by
  have place : w - (w - 1 - level) - 1 = level := by omega
  have fits : w - 1 - level < w := by omega
  simp [withBit, BitVec.getMsbD_or, BitVec.getMsbD_twoPow, place, fits]

/-- Bits of a key with one bit flipped. -/
theorem getMsbD_flipBit (key : BitVec w) (level i : Nat) (inside : level < w) :
    (flipBit key level).getMsbD i = (key.getMsbD i ^^ decide (i = level)) := by
  have place : w - (w - 1 - level) - 1 = level := by omega
  have fits : w - 1 - level < w := by omega
  simp [flipBit, BitVec.getMsbD_xor, BitVec.getMsbD_twoPow, place, fits]

theorem prefixAt_zero (key : BitVec w) : prefixAt key 0 = 0 := by
  apply BitVec.eq_of_getMsbD_eq
  intro i _
  simp [getMsbD_prefixAt]

theorem prefixAt_of_full (key : BitVec w) (level : Nat) (full : w ≤ level) :
    prefixAt key level = key := by
  apply BitVec.eq_of_getMsbD_eq
  intro i within
  have kept : i < level := by omega
  simp [getMsbD_prefixAt, kept]

theorem prefixAt_prefixAt (key : BitVec w) (outer inner : Nat) :
    prefixAt (prefixAt key outer) inner = prefixAt key (min outer inner) := by
  apply BitVec.eq_of_getMsbD_eq
  intro i _
  simp only [getMsbD_prefixAt, lt_min_iff, Bool.decide_and, ← Bool.and_assoc]
  rw [Bool.and_comm (decide (i < inner))]

/-- Being below a stem, bit by bit. -/
theorem below_iff (level : Nat) (stem key : BitVec w) :
    Below level stem key ↔
      ∀ i < w, stem.getMsbD i = (decide (i < level) && key.getMsbD i) := by
  constructor
  · rintro rfl i _
    exact getMsbD_prefixAt key level i
  · intro bits
    apply BitVec.eq_of_getMsbD_eq
    intro i within
    rw [getMsbD_prefixAt, bits i within]

theorem below_root (key : BitVec w) : Below 0 0 key :=
  prefixAt_zero key

theorem below_prefixAt (level : Nat) (key : BitVec w) : Below level (prefixAt key level) key :=
  rfl

variable {level : Nat} {stem key : BitVec w}

/-- A key below some stem certifies that the stem is one. -/
theorem Below.stem_self (below : Below level stem key) : Below level stem stem := by
  subst below
  simp [Below, prefixAt_prefixAt]

theorem below_full_iff (stem key : BitVec w) : Below w stem key ↔ key = stem := by
  rw [Below, prefixAt_of_full key w le_rfl]

/-- A deeper stem below a shallower one passes its keys up. -/
theorem Below.mono {deeper : Nat} {inner : BitVec w} (order : level ≤ deeper)
    (innerBelow : Below level stem inner) (below : Below deeper inner key) :
    Below level stem key := by
  subst below
  rw [Below, prefixAt_prefixAt, min_eq_right order] at innerBelow
  exact innerBelow

/-- A half of a subtree holds the keys that branch into it. -/
theorem below_half_iff (isStem : Below level stem stem) (inside : level < w) (key : BitVec w)
    (branch : Bool) : Below (level + 1) (if branch then withBit stem level else stem) key ↔
      Below level stem key ∧ keyBit key level = branch := by
  have stemBits := (below_iff level stem stem).mp isStem
  have halfBits : ∀ i, (if branch then withBit stem level else stem).getMsbD i =
      if i = level then branch else stem.getMsbD i := by
    intro i
    cases branch
    · have clear := stemBits level inside
      by_cases here : i = level <;> simp_all
    · simp only [if_true, getMsbD_withBit stem level i inside]
      by_cases here : i = level <;> simp [here]
  simp only [below_iff, halfBits, keyBit]
  constructor
  · intro bits
    refine ⟨fun i within => ?_, by simpa using (bits level inside).symm⟩
    by_cases earlier : i < level
    · have later : i < level + 1 := by omega
      simpa [earlier, later, earlier.ne] using bits i within
    · simpa [earlier] using stemBits i within
  · rintro ⟨bits, chosen⟩ i within
    split
    next here => simp [here, chosen]
    next other =>
      have next : i < level + 1 ↔ i < level := by omega
      simp only [next, bits i within]

/-- The zero half of a subtree. -/
theorem below_left_iff (isStem : Below level stem stem) (inside : level < w) (key : BitVec w) :
    Below (level + 1) stem key ↔ Below level stem key ∧ keyBit key level = false :=
  below_half_iff isStem inside key false

/-- The one half of a subtree. -/
theorem below_right_iff (isStem : Below level stem stem) (inside : level < w) (key : BitVec w) :
    Below (level + 1) (withBit stem level) key ↔
      Below level stem key ∧ keyBit key level = true :=
  below_half_iff isStem inside key true

/-- Every key of a subtree lies in exactly the half its branch bit selects. -/
theorem below_children (below : Below level stem key) (inside : level < w) :
    Below (level + 1) (if keyBit key level then withBit stem level else stem) key :=
  (below_half_iff below.stem_self inside key _).mpr ⟨below, rfl⟩

theorem left_isStem (isStem : Below level stem stem)
    (inside : level < w) : Below (level + 1) stem stem := by
  refine (below_left_iff isStem inside stem).mpr ⟨isStem, ?_⟩
  simpa [keyBit] using (below_iff level stem stem).mp isStem level inside

theorem right_isStem (isStem : Below level stem stem)
    (inside : level < w) : Below (level + 1) (withBit stem level) (withBit stem level) := by
  rw [below_right_iff isStem inside, below_iff]
  have stemBits := (below_iff level stem stem).mp isStem
  refine ⟨fun i within => ?_, ?_⟩
  · rw [getMsbD_withBit stem level i inside]
    have clear := stemBits i within
    by_cases here : i = level
    · subst here
      simpa using clear
    · simpa [here] using clear
  · simp [keyBit, getMsbD_withBit stem level level inside]

/-- The stem of a key one level further down. -/
theorem prefixAt_succ (key : BitVec w) (inside : level < w) : prefixAt key (level + 1) =
      if keyBit key level then withBit (prefixAt key level) level else prefixAt key level :=
  below_children (below_prefixAt level key) inside

/-- The sibling of a key's stem one level further down is the other half of the subtree. -/
theorem flipBit_prefixAt_succ (key : BitVec w) (inside : level < w) :
    flipBit (prefixAt key (level + 1)) level =
      if keyBit key level then prefixAt key level else withBit (prefixAt key level) level := by
  apply BitVec.eq_of_getMsbD_eq
  intro i _
  rw [getMsbD_flipBit _ level i inside, getMsbD_prefixAt]
  have next : i < level + 1 ↔ i < level ∨ i = level := by omega
  by_cases here : i = level
  · subst here
    cases branch : keyBit key i
    · simp only [keyBit] at branch
      simp [branch, getMsbD_withBit _ i i inside]
    · simp only [keyBit] at branch
      simp [branch, getMsbD_prefixAt]
  · split
    · simp [here, next, getMsbD_prefixAt]
    · simp [here, next, getMsbD_prefixAt, getMsbD_withBit _ level i inside]

theorem toNat_prefixAt (key : BitVec w) (level : Nat) :
    (prefixAt key level).toNat = key.toNat / 2 ^ (w - level) * 2 ^ (w - level) := by
  have bounded : key.toNat / 2 ^ (w - level) * 2 ^ (w - level) < 2 ^ w :=
    lt_of_le_of_lt (Nat.div_mul_le_self _ _) key.isLt
  rw [prefixAt, BitVec.toNat_shiftLeft, BitVec.toNat_ushiftRight, Nat.shiftLeft_eq,
    Nat.shiftRight_eq_div_pow, Nat.mod_eq_of_lt bounded]

theorem toNat_allOnes_shift (level : Nat) :
    (BitVec.allOnes w >>> level).toNat = 2 ^ (w - level) - 1 := by
  rw [BitVec.toNat_ushiftRight, BitVec.toNat_allOnes, Nat.shiftRight_eq_div_pow]
  by_cases within : level ≤ w
  · have split : 2 ^ w = 2 ^ (w - level) * 2 ^ level := by
      rw [← pow_add, Nat.sub_add_cancel within]
    have positive : 0 < 2 ^ level := Nat.two_pow_pos level
    rw [split]
    apply Nat.div_eq_of_lt_le
    · rw [Nat.sub_mul]
      omega
    · have enough : 0 < 2 ^ (w - level) := Nat.two_pow_pos _
      rw [Nat.sub_add_cancel enough]
      have : 0 < 2 ^ (w - level) * 2 ^ level := Nat.mul_pos enough positive
      omega
  · have none : w - level = 0 := by omega
    have larger : 2 ^ w < 2 ^ level := Nat.pow_lt_pow_right (by omega) (by omega)
    have positive : 0 < 2 ^ level := Nat.two_pow_pos level
    rw [none, Nat.div_eq_of_lt (by omega)]
    rfl

/-- The last key of a subtree is its stem followed by ones. -/
theorem toNat_subtreeEnd (isStem : Below level stem stem) :
    (subtreeEnd stem level).toNat = stem.toNat + (2 ^ (w - level) - 1) := by
  have multiple := toNat_prefixAt stem level
  rw [show prefixAt stem level = stem from isStem] at multiple
  have short : 2 ^ (w - level) - 1 < 2 ^ (w - level) :=
    Nat.sub_lt (Nat.two_pow_pos _) Nat.one_pos
  rw [subtreeEnd, BitVec.toNat_or, toNat_allOnes_shift, multiple, Nat.mul_comm,
    Nat.two_pow_add_eq_or_of_lt short]

/-- A subtree is the interval from its stem to its last key. -/
theorem interval_iff (isStem : Below level stem stem)
    (key : BitVec w) : (stem ≤ key ∧ key ≤ subtreeEnd stem level) ↔ Below level stem key := by
  have multiple := toNat_prefixAt stem level
  rw [show prefixAt stem level = stem from isStem] at multiple
  have positive : 0 < 2 ^ (w - level) := Nat.two_pow_pos _
  rw [BitVec.le_def, BitVec.le_def, toNat_subtreeEnd isStem, Below, ← BitVec.toNat_inj,
    toNat_prefixAt]
  constructor
  · rintro ⟨low, high⟩
    have quotient : key.toNat / 2 ^ (w - level) = stem.toNat / 2 ^ (w - level) := by
      apply Nat.div_eq_of_lt_le
      · omega
      · rw [Nat.succ_mul]
        omega
    rw [quotient, ← multiple]
  · intro same
    have division := Nat.div_add_mod key.toNat (2 ^ (w - level))
    have remainder := Nat.mod_lt key.toNat positive
    rw [Nat.mul_comm, same] at division
    omega

/-- The stem of the one half lies one half-width above the stem. -/
theorem toNat_withBit (isStem : Below level stem stem) (inside : level < w) :
    (withBit stem level).toNat = stem.toNat + 2 ^ (w - (level + 1)) := by
  have multiple := toNat_prefixAt stem level
  rw [show prefixAt stem level = stem from isStem] at multiple
  have half : w - 1 - level = w - (level + 1) := by omega
  have short : 2 ^ (w - (level + 1)) < 2 ^ (w - level) :=
    Nat.pow_lt_pow_right (by omega) (by omega)
  have fits : 2 ^ (w - (level + 1)) < 2 ^ w := Nat.pow_lt_pow_right (by omega) (by omega)
  rw [withBit, BitVec.toNat_or, BitVec.toNat_twoPow, half, Nat.mod_eq_of_lt fits, multiple,
    Nat.mul_comm, Nat.two_pow_add_eq_or_of_lt short]

/-- Within a subtree the zero half comes before the one half. -/
theorem keyBit_mono {low high : BitVec w} (inside : level < w)
    (lowBelow : Below level stem low) (highBelow : Below level stem high) (order : low < high)
    (branch : keyBit low level = true) : keyBit high level = true := by
  by_contra other
  have isStem := lowBelow.stem_self
  have right := (below_right_iff isStem inside low).mpr ⟨lowBelow, branch⟩
  have left := (below_left_iff isStem inside high).mpr ⟨highBelow, by simpa using other⟩
  have leftEnd := ((interval_iff (left_isStem isStem inside) high).mpr left).2
  have rightStart := ((interval_iff (right_isStem isStem inside) low).mpr right).1
  have positive : 0 < 2 ^ (w - (level + 1)) := Nat.two_pow_pos _
  rw [BitVec.le_def, toNat_subtreeEnd (left_isStem isStem inside)] at leftEnd
  rw [BitVec.le_def, toNat_withBit isStem inside] at rightStart
  rw [BitVec.lt_def] at order
  omega

end KeyBits
