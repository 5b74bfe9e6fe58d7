import Mathlib.LinearAlgebra.Matrix.ToLin
import Mathlib.LinearAlgebra.Matrix.Nondegenerate

/-!
# Inverting a matrix by elimination

Gauss and Jordan's method on a square of rows: for each column in turn a row with an entry there is
moved up, scaled to have a one, and taken off all other rows. A second square starts as the identity
and goes through the same moves, and ends as the inverse. The method fails only on singular
matrices.
-/

namespace QuantovaChain.Elimination

open Matrix

variable {F : Type} [Field F] {k : ℕ}

/-- A square matrix, stored by rows. -/
abbrev Square (F : Type) (k : ℕ) := Vector (Vector F k) k

/-- The stored entries as a matrix. -/
def entries (square : Square F k) : Matrix (Fin k) (Fin k) F := fun row column =>
  square[row.val][column.val]

def identity (F : Type) [Field F] (k : ℕ) : Square F k :=
  Vector.ofFn fun row => Vector.ofFn fun column => if row = column then 1 else 0

def scaleRow (scale : F) (row : Vector F k) : Vector F k := row.map (· * scale)

/-- Takes a multiple of a row off another. -/
def takeOff (factor : F) (row pivot : Vector F k) : Vector F k :=
  Vector.zipWith (fun entry taken => entry - factor * taken) row pivot

variable [DecidableEq F]

/-- The first row from the diagonal down that has an entry in the column. -/
def pivotRow (matrix : Square F k) (column : Fin k) : Option (Fin k) :=
  (List.finRange k).find? fun row => column ≤ row ∧ matrix[row.val][column.val] ≠ 0

/-- Takes the pivot's row off all other rows, as often as the matrix has it in the column. -/
def clearRows (column : Fin k) (matrix square : Square F k) : Square F k :=
  Vector.ofFn fun row =>
    if row = column then square[row.val]
    else if matrix[row.val][column.val] = 0 then square[row.val]
    else takeOff matrix[row.val][column.val] square[row.val] square[column.val]

/-- One column of the sweep. -/
def clearColumn (state : Square F k × Square F k) (column : Fin k) :
    Option (Square F k × Square F k) := do
  let pivot ← pivotRow state.1 column
  let matrix := state.1.swap column.val pivot.val
  let inverse := state.2.swap column.val pivot.val
  let scale := (matrix[column.val][column.val])⁻¹
  let matrix := matrix.set column.val (scaleRow scale matrix[column.val])
  let inverse := inverse.set column.val (scaleRow scale inverse[column.val])
  return (clearRows column matrix matrix, clearRows column matrix inverse)

/-- The inverse of a matrix, if it has one. -/
def invert (matrix : Square F k) : Option (Square F k) :=
  ((List.finRange k).foldlM clearColumn (matrix, identity F k)).map Prod.snd

/-! ## The moves on rows -/

section Entries

variable (square : Square F k)

omit [DecidableEq F] in
theorem entries_identity : entries (identity F k) = 1 := by
  ext row column
  simp [entries, identity, Matrix.one_apply]

omit [Field F] [DecidableEq F] in
theorem entries_swap (first second row : Fin k) :
    entries (square.swap first.val second.val) row = entries square (Equiv.swap first second row) := by
  ext column
  simp only [entries, Vector.getElem_swap, Equiv.swap_apply_def, Fin.ext_iff]
  split
  next => rfl
  next =>
    split
    next => rfl
    next => rfl

omit [DecidableEq F] in
theorem entries_scale (scale : F) (place row : Fin k) :
    entries (square.set place.val (scaleRow scale square[place.val])) row =
      if row = place then scale • entries square place else entries square row := by
  ext column
  by_cases here : row = place
  · subst here
    simp [entries, scaleRow, mul_comm]
  · have apart : place.val ≠ row.val := fun same => here (Fin.ext same.symm)
    simp [entries, here, apart]

theorem entries_clearRows (matrix : Square F k) (column row : Fin k) :
    entries (clearRows column matrix square) row =
      if row = column then entries square column
      else entries square row - entries matrix row column • entries square column := by
  ext other
  by_cases here : row = column
  · subst here
    simp [entries, clearRows]
  · by_cases zero : matrix[row.val][column.val] = 0
    · simp [entries, clearRows, here, zero]
    · simp [entries, clearRows, takeOff, here, zero]

end Entries

/-! ## What the moves keep -/

/-- The sweep has come from a matrix to a state: the second square turns the matrix into the first,
and the first has no more in its kernel than the matrix. -/
structure Reduces (origin : Matrix (Fin k) (Fin k) F) (matrix inverse : Square F k) : Prop where
  product : ∀ row, entries inverse row ᵥ* origin = entries matrix row
  kernel : ∀ vector, (∀ row, entries matrix row ⬝ᵥ vector = 0) → origin *ᵥ vector = 0

variable {origin : Matrix (Fin k) (Fin k) F} {matrix inverse : Square F k}

omit [DecidableEq F] in
theorem reduces_refl (matrix : Square F k) : Reduces (entries matrix) matrix (identity F k) where
  product row := by rw [← Matrix.mul_apply_eq_vecMul, entries_identity, Matrix.one_mul]
  kernel vector zero := funext zero

omit [DecidableEq F] in
theorem Reduces.swap (reduces : Reduces origin matrix inverse) (first second : Fin k) :
    Reduces origin (matrix.swap first.val second.val) (inverse.swap first.val second.val) where
  product row := by
    rw [entries_swap, entries_swap]
    exact reduces.product _
  kernel vector zero := by
    apply reduces.kernel
    intro row
    have swapped := zero (Equiv.swap first second row)
    rwa [entries_swap, Equiv.swap_apply_self] at swapped

omit [DecidableEq F] in
theorem Reduces.scale (reduces : Reduces origin matrix inverse) {scale : F} (nonzero : scale ≠ 0)
    (place : Fin k) :
    Reduces origin (matrix.set place.val (scaleRow scale matrix[place.val]))
      (inverse.set place.val (scaleRow scale inverse[place.val])) where
  product row := by
    rw [entries_scale, entries_scale]
    split
    · rw [Matrix.smul_vecMul, reduces.product]
    · exact reduces.product row
  kernel vector zero := by
    apply reduces.kernel
    intro row
    have scaled := zero row
    rw [entries_scale] at scaled
    split at scaled
    next here =>
      rw [smul_dotProduct, smul_eq_mul, mul_eq_zero_iff_left nonzero] at scaled
      rwa [here]
    next => exact scaled

theorem Reduces.clear (reduces : Reduces origin matrix inverse) (column : Fin k) :
    Reduces origin (clearRows column matrix matrix) (clearRows column matrix inverse) where
  product row := by
    rw [entries_clearRows, entries_clearRows]
    split
    · exact reduces.product column
    · rw [Matrix.sub_vecMul, Matrix.smul_vecMul, reduces.product, reduces.product]
  kernel vector zero := by
    apply reduces.kernel
    have pivot : entries matrix column ⬝ᵥ vector = 0 := by
      have kept := zero column
      rwa [entries_clearRows, if_pos rfl] at kept
    intro row
    have cleared := zero row
    rw [entries_clearRows] at cleared
    split at cleared
    next here => rwa [here]
    next => rwa [sub_dotProduct, smul_dotProduct, pivot, smul_zero, sub_zero] at cleared

/-- The columns below a bound are those of the identity. -/
def CleanBelow (bound : ℕ) (matrix : Square F k) : Prop :=
  ∀ row column : Fin k, column.val < bound →
    entries matrix row column = if row = column then 1 else 0

variable {column : Fin k}

omit [DecidableEq F] in
/-- A regular matrix always has a pivot left. Otherwise the column would depend on the clean ones,
and the dependence would be in the kernel. -/
theorem Reduces.exists_pivot (reduces : Reduces origin matrix inverse) (regular : origin.det ≠ 0)
    (clean : CleanBelow column.val matrix) :
    ∃ row, column ≤ row ∧ entries matrix row column ≠ 0 := by
  by_contra none
  push Not at none
  let above : Fin k → F := fun row => if row < column then entries matrix row column else 0
  have spread : ∀ row, entries matrix row ⬝ᵥ above = above row := by
    intro row
    have term : ∀ other, entries matrix row other * above other =
        if row = other then above row else 0 := by
      intro other
      by_cases before : other < column
      · rw [clean row other before]
        split
        next same => rw [one_mul, same]
        next => rw [zero_mul]
      · have nothing : above other = 0 := if_neg before
        rw [nothing, mul_zero]
        split
        next same => rw [same, nothing]
        next => rfl
    simp only [dotProduct, term, Finset.sum_ite_eq, Finset.mem_univ, if_true]
  have zero : origin *ᵥ (Pi.single column 1 - above) = 0 := by
    apply reduces.kernel
    intro row
    rw [dotProduct_sub, spread, dotProduct_single_one, sub_eq_zero]
    by_cases before : row < column
    · exact (if_pos before).symm
    · rw [none row (not_lt.mp before)]
      exact (if_neg before).symm
  have vanishes := congrFun (Matrix.eq_zero_of_mulVec_eq_zero regular zero) column
  simp [above] at vanishes

omit [DecidableEq F] in
theorem CleanBelow.swap {pivot : Fin k} (clean : CleanBelow column.val matrix)
    (below : column ≤ pivot) : CleanBelow column.val (matrix.swap column.val pivot.val) := by
  intro row other before
  rw [entries_swap, clean _ other before]
  have fixed : Equiv.swap column pivot other = other := by
    apply Equiv.swap_apply_of_ne_of_ne
    · exact fun same => absurd before (by simp [same])
    · exact fun same => absurd (Fin.le_def.mp below) (by rw [← same]; omega)
  simp only [Equiv.swap_apply_eq_iff, fixed]

omit [DecidableEq F] in
theorem CleanBelow.scale (clean : CleanBelow column.val matrix) (scale : F) :
    CleanBelow column.val (matrix.set column.val (scaleRow scale matrix[column.val])) := by
  intro row other before
  rw [entries_scale]
  split
  next here =>
    have apart : column ≠ other := fun same => absurd before (by simp [same])
    rw [Pi.smul_apply, clean column other before, here, if_neg apart, smul_zero]
  next => exact clean row other before

theorem CleanBelow.clear (clean : CleanBelow column.val matrix)
    (unit : entries matrix column column = 1) :
    CleanBelow (column.val + 1) (clearRows column matrix matrix) := by
  intro row other before
  rw [entries_clearRows]
  by_cases last : other = column
  · subst last
    split
    next => exact unit
    next => rw [Pi.sub_apply, Pi.smul_apply, unit, smul_eq_mul, mul_one, sub_self]
  · have earlier : other.val < column.val := by
      have apart : other.val ≠ column.val := fun same => last (Fin.ext same)
      omega
    split
    next here =>
      rw [here]
      exact clean column other earlier
    next here =>
      rw [Pi.sub_apply, Pi.smul_apply, clean row other earlier, clean column other earlier,
        if_neg (Ne.symm last), smul_zero, sub_zero]

/-! ## The sweep -/

theorem pivotRow_spec {pivot : Fin k} (found : pivotRow matrix column = some pivot) :
    column ≤ pivot ∧ entries matrix pivot column ≠ 0 := by
  have passes := List.find?_some found
  rw [decide_eq_true_eq] at passes
  exact passes

theorem clearColumn_spec (reduces : Reduces origin matrix inverse) (regular : origin.det ≠ 0)
    (clean : CleanBelow column.val matrix) :
    ∃ next, clearColumn (matrix, inverse) column = some next ∧ Reduces origin next.1 next.2 ∧
      CleanBelow (column.val + 1) next.1 := by
  obtain ⟨row, low, entry⟩ := reduces.exists_pivot regular clean
  cases found : pivotRow matrix column with
  | none =>
    have nothing := List.find?_eq_none.mp found row (List.mem_finRange row)
    rw [decide_eq_true_eq] at nothing
    exact absurd ⟨low, entry⟩ nothing
  | some pivot =>
    obtain ⟨below, nonzero⟩ := pivotRow_spec found
    have moved := reduces.swap column pivot
    have head : entries (matrix.swap column.val pivot.val) column column ≠ 0 := by
      rw [entries_swap, Equiv.swap_apply_left]
      exact nonzero
    have scaled := moved.scale (inv_ne_zero head) column
    refine ⟨_, by rw [clearColumn, found]; rfl, scaled.clear column, ?_⟩
    apply ((clean.swap below).scale _).clear
    rw [entries_scale, if_pos rfl, Pi.smul_apply, smul_eq_mul]
    exact inv_mul_cancel₀ head

theorem sweep_spec (regular : origin.det ≠ 0) (columns : List (Fin k)) (bound : ℕ)
    (rest : columns.map Fin.val = List.range' bound (k - bound))
    (reduces : Reduces origin matrix inverse) (clean : CleanBelow bound matrix) :
    ∃ last, columns.foldlM clearColumn (matrix, inverse) = some last ∧
      Reduces origin last.1 last.2 ∧ CleanBelow k last.1 := by
  induction columns generalizing bound matrix inverse with
  | nil =>
    have all : k ≤ bound := by
      have none := congrArg List.length rest
      simp only [List.map_nil, List.length_nil, List.length_range'] at none
      omega
    exact ⟨_, rfl, reduces, fun row column _ =>
      clean row column (Nat.lt_of_lt_of_le column.isLt all)⟩
  | cons column columns hypothesis =>
    have some : k - bound = (k - (bound + 1)) + 1 := by
      have many := congrArg List.length rest
      simp only [List.map_cons, List.length_cons, List.length_range'] at many
      omega
    rw [some, List.range'_succ, List.map_cons, List.cons.injEq] at rest
    obtain ⟨first, others⟩ := rest
    subst first
    obtain ⟨next, done, reduced, cleaned⟩ := clearColumn_spec reduces regular clean
    obtain ⟨last, finished, result⟩ := hypothesis (column.val + 1) others reduced cleaned
    exact ⟨last, by rw [List.foldlM_cons, done]; exact finished, result⟩

/-- A regular matrix is inverted. -/
theorem invert_spec {matrix : Square F k} (regular : (entries matrix).det ≠ 0) :
    ∃ inverse, invert matrix = some inverse ∧ entries inverse * entries matrix = 1 := by
  have columns : (List.finRange k).map Fin.val = List.range' 0 (k - 0) := by
    rw [List.map_coe_finRange_eq_range, List.range_eq_range', Nat.sub_zero]
  obtain ⟨last, swept, reduces, clean⟩ :=
    sweep_spec regular (List.finRange k) 0 columns (reduces_refl matrix) nofun
  refine ⟨last.2, by rw [invert, swept]; rfl, ?_⟩
  ext row column
  rw [Matrix.mul_apply_eq_vecMul, reduces.product, clean row column column.isLt, Matrix.one_apply]

end QuantovaChain.Elimination
