import Mathlib.LinearAlgebra.Vandermonde
import QuantovaChain.Net.Erasure

/-!
# Any `k` shards give the data back

Every shard is a sum of the pieces, with the coefficients of one row of a generator: the row of a
Vandermonde matrix, turned so that the first `k` rows are the identity. Rows of different points are
independent, so the coefficients of any `k` shards have an inverse, and the inverse gives the pieces
back.
-/

namespace QuantovaChain.Net

open State (Bytes Hash)
open Elimination (Square entries)
open Matrix

/-! ## Work in parallel -/

variable {k n : Nat} {data : Bytes}

theorem flatten_chunks {α : Type} (size : Nat) (items : List α) :
    (chunks size items).flatten = items := by
  induction items using chunks.induct size with
  | case1 items last => rw [chunks, if_pos last, List.flatten_singleton]
  | case2 items more hypothesis =>
    rw [chunks, if_neg more, List.flatten_cons, hypothesis, List.take_append_drop]

@[simp] theorem mapOrdered_eq {α β : Type} (available : Nat) (items : List α) (work : Nat)
    (f : α → β) : mapOrdered available items work f = items.map f := by
  unfold mapOrdered
  dsimp only
  split
  · rfl
  · rw [List.flatMap_def, ← List.map_flatten, flatten_chunks]

/-! ## The generator -/

/-- The point of a shard. -/
def point (index : Nat) : Gf := ⟨UInt8.ofNat index⟩

theorem point_inj {first second : Nat} (low : first < 256) (high : second < 256)
    (same : point first = point second) : first = second := by
  have bytes := congrArg (fun element => element.byte.toNat) same
  simpa [point, Nat.mod_eq_of_lt, low, high] using bytes

theorem vandermondeRow_eq (index : Nat) {column : Nat} (inside : column < k) :
    (vandermondeRow index k)[column] = point index ^ column := by
  simp only [vandermondeRow, Vector.getElem_ofFn, mul_right_iterate, one_mul]
  rfl

theorem entries_vandermonde (k : Nat) :
    entries (vandermonde k) = Matrix.vandermonde fun index : Fin k => point index.val := by
  ext index column
  simp only [entries, vandermonde, Vector.getElem_ofFn, Matrix.vandermonde_apply]
  exact vandermondeRow_eq index.val column.isLt

theorem rowTimesMatrix_eq (row : Vector Gf k) (matrix : Square Gf k) {column : Nat}
    (inside : column < k) : (rowTimesMatrix row matrix)[column] =
      ((fun ⟨place, _⟩ => row[place]) ᵥ* entries matrix) ⟨column, inside⟩ := by
  have folded : ∀ (places : List (Fin k)) (out : Vector Gf k),
      (places.foldl (fun out place => addRow out row[place.val] matrix[place.val]) out)[column] =
        out[column] +
          (places.map fun place => row[place.val] * entries matrix place ⟨column, inside⟩).sum := by
    intro places
    induction places with
    | nil => simp
    | cons place places hypothesis =>
      intro out
      have added : (addRow out row[place.val] matrix[place.val])[column] =
          out[column] + row[place.val] * entries matrix place ⟨column, inside⟩ := by
        by_cases zero : row[place.val] = 0
        · rw [addRow, if_pos zero, zero, zero_mul, add_zero]
        · simp [addRow, zero, entries]
      rw [List.foldl_cons, hypothesis, added, List.map_cons, List.sum_cons, add_assoc]
  rw [rowTimesMatrix, folded]
  simp only [Vector.getElem_replicate, zero_add, Matrix.vecMul, dotProduct, Fin.sum_univ_def]

/-- What the code uses of the top of the Vandermonde matrix is its inverse. -/
structure TopInverse (k : Nat) (top : Square Gf k) : Prop where
  found : invert (vandermonde k) = .ok top
  inverse : entries top * Matrix.vandermonde (fun index : Fin k => point index.val) = 1

theorem invert_of_det {matrix : Square Gf k} (regular : (entries matrix).det ≠ 0) :
    ∃ inverse, invert matrix = .ok inverse ∧ entries inverse * entries matrix = 1 := by
  obtain ⟨inverse, found, product⟩ := Elimination.invert_spec regular
  exact ⟨inverse, by rw [invert, found], product⟩

theorem exists_topInverse (small : k ≤ 256) : ∃ top, TopInverse k top := by
  have regular : (entries (vandermonde k)).det ≠ 0 := by
    rw [entries_vandermonde, Matrix.det_vandermonde_ne_zero_iff]
    intro first second same
    exact Fin.ext (point_inj (by omega) (by omega) same)
  obtain ⟨top, found, product⟩ := invert_of_det regular
  rw [entries_vandermonde] at product
  exact ⟨top, found, product⟩

/-- The coefficients of a shard. -/
def coefficients {k : Nat} (top : Square Gf k) (index : Nat) : Fin k → Gf :=
  (fun column : Fin k => point index ^ column.val) ᵥ* entries top

variable {top : Square Gf k} {place : Nat}

/-- The first shards are the pieces. -/
theorem coefficients_piece (turned : TopInverse k top) (piece : Fin k) :
    coefficients top piece.val = Pi.single piece 1 := by
  have row : coefficients top piece.val = (1 : Matrix (Fin k) (Fin k) Gf) piece := by
    rw [← mul_eq_one_comm.mp turned.inverse, Matrix.mul_apply_eq_vecMul]
    rfl
  ext column
  rw [row, Matrix.one_apply, Pi.single_apply]
  simp only [eq_comm]

theorem coefficients_parity (top : Square Gf k) (index : Nat) {column : Nat} (inside : column < k) :
    (rowTimesMatrix (vandermondeRow index k) top)[column] =
      coefficients top index ⟨column, inside⟩ := by
  rw [rowTimesMatrix_eq _ _ inside, coefficients]
  simp only [vandermondeRow_eq]

/-! ## Bytes of shards -/

/-- A byte of a shard, as an element of the field. -/
def symbol (bytes : Bytes) (place : Nat) : Gf := ⟨bytes.getD place 0⟩

theorem eq_of_symbol {first second : Bytes} (length : first.length = second.length)
    (same : ∀ place < first.length, symbol first place = symbol second place) : first = second := by
  apply List.ext_getElem length
  intro place inside inside'
  have bytes := congrArg Gf.byte (same place inside)
  simpa [symbol, List.getD_eq_getElem, inside, inside'] using bytes

theorem length_addMultiple (coeff : Gf) (out bytes : Bytes) :
    (addMultiple coeff out bytes).length = out.length := by
  induction out generalizing bytes with
  | nil => simp [addMultiple]
  | cons slot out hypothesis =>
    cases bytes with
    | nil => simp [addMultiple]
    | cons byte bytes => simp [addMultiple, hypothesis]

theorem symbol_addMultiple (coeff : Gf) {out : Bytes} (bytes : Bytes)
    (inside : place < out.length) :
    symbol (addMultiple coeff out bytes) place = symbol out place + coeff * symbol bytes place := by
  induction out generalizing bytes place with
  | nil => simp at inside
  | cons slot out hypothesis =>
    cases bytes with
    | nil =>
      have nothing : symbol [] place = 0 := rfl
      rw [addMultiple, nothing, mul_zero, add_zero]
      simp
    | cons byte bytes =>
      cases place with
      | zero => rfl
      | succ place =>
        rw [addMultiple]
        exact hypothesis bytes (by simpa using inside)

theorem length_combine (coeffs : List Gf) (shards : List Bytes) (shardLen : Nat) :
    (combine coeffs shards shardLen).length = shardLen := by
  have folded : ∀ (entries : List (Gf × Bytes)) (out : Bytes),
      (entries.foldl (fun out entry =>
        if entry.1 = 0 then out else addMultiple entry.1 out entry.2) out).length = out.length := by
    intro entries
    induction entries with
    | nil => exact fun _ => rfl
    | cons entry entries hypothesis =>
      intro out
      rw [List.foldl_cons, hypothesis]
      split
      · rfl
      · exact length_addMultiple _ _ _
  rw [combine, folded, List.length_replicate]

theorem symbol_combine (coeffs : List Gf) (shards : List Bytes) {shardLen : Nat}
    (inside : place < shardLen) :
    symbol (combine coeffs shards shardLen) place =
      ((coeffs.zip shards).map fun entry => entry.1 * symbol entry.2 place).sum := by
  have folded : ∀ (entries : List (Gf × Bytes)) (out : Bytes), place < out.length →
      symbol (entries.foldl (fun out entry =>
        if entry.1 = 0 then out else addMultiple entry.1 out entry.2) out) place =
          symbol out place + (entries.map fun entry => entry.1 * symbol entry.2 place).sum := by
    intro entries
    induction entries with
    | nil => exact fun _ _ => (add_zero _).symm
    | cons entry entries hypothesis =>
      intro out within
      rw [List.foldl_cons, List.map_cons, List.sum_cons, ← add_assoc]
      split
      next zero => rw [hypothesis out within, zero, zero_mul, add_zero]
      next =>
        rw [hypothesis _ (by rwa [length_addMultiple]),
          symbol_addMultiple entry.1 entry.2 within]
  rw [combine, folded _ _ (by simpa using inside)]
  have blank : symbol (List.replicate shardLen 0) place = 0 := by
    rw [symbol, List.getD_replicate _ inside]
    rfl
  rw [blank, zero_add]

/-- The sum over as many shards as there are coefficients. -/
theorem symbol_combine_vector (coeffs : Vector Gf k) {shards : List Bytes}
    (many : shards.length = k) {shardLen : Nat} (inside : place < shardLen) :
    symbol (combine coeffs.toList shards shardLen) place =
      (fun column : Fin k => coeffs[column.val]) ⬝ᵥ
        fun column : Fin k => symbol (shards.getD column.val []) place := by
  subst many
  rw [symbol_combine _ _ inside, dotProduct, ← List.sum_ofFn]
  congr 1
  apply List.ext_getElem
  · simp
  · intro index _ _
    simp

/-! ## Pieces -/

theorem length_pieceOf (data : Bytes) (shardLen piece : Nat) :
    (pieceOf data shardLen piece).length = shardLen := by
  simp only [pieceOf, List.length_append, List.length_replicate, List.length_take]
  omega

/-- The pieces so far are the data so far, and zeros once the data is at its end. -/
theorem flatten_pieces (data : Bytes) (shardLen count : Nat) :
    ((List.range count).map (pieceOf data shardLen)).flatten =
      data.take (count * shardLen) ++ List.replicate (count * shardLen - data.length) 0 := by
  induction count with
  | zero => simp
  | succ count hypothesis =>
    rw [List.range_succ, List.map_append, List.flatten_append, hypothesis]
    simp only [List.map_singleton, List.flatten_singleton, pieceOf, Nat.succ_mul]
    by_cases more : count * shardLen ≤ data.length
    · rw [Nat.sub_eq_zero_of_le more, List.replicate_zero, List.append_nil, ← List.append_assoc,
        ← List.take_add]
      congr 2
      simp only [List.length_take, List.length_drop]
      omega
    · rw [List.drop_eq_nil_of_le (by omega), List.take_nil, List.nil_append,
        List.take_of_length_le (by omega), List.take_of_length_le (by omega), List.append_assoc,
        List.replicate_append_replicate]
      congr 2
      simp only [List.length_nil]
      omega

theorem take_flatten_pieces (data : Bytes) (some : 0 < k) :
    (pieces data k).flatten.take data.length = data := by
  have enough : data.length ≤ k * shardLength data k := by
    have ceiling : data.length ≤ k * ((data.length + k - 1) / k) := by
      have remainder := Nat.div_add_mod (data.length + k - 1) k
      have below := Nat.mod_lt (data.length + k - 1) some
      omega
    exact Nat.le_trans ceiling (Nat.mul_le_mul_left k (Nat.le_max_left _ _))
  rw [pieces, flatten_pieces, List.take_append_of_le_length, List.take_take, Nat.min_eq_left enough,
    List.take_length]
  rw [List.length_take]
  omega

/-! ## The shards of an encoding -/

/-- The bytes of all pieces at a place. -/
def pieceSymbols (data : Bytes) (k place : Nat) : Fin k → Gf := fun piece =>
  symbol (pieceOf data (shardLength data k) piece.val) place

/-- A shard is the sum of the pieces with its coefficients. -/
structure Codes (data : Bytes) {k : Nat} (top : Square Gf k) (shard : Shard) : Prop where
  length : shard.bytes.length = shardLength data k
  symbols : ∀ place < shardLength data k,
    symbol shard.bytes place = coefficients top shard.index ⬝ᵥ pieceSymbols data k place

theorem getD_pieces (data : Bytes) (piece : Fin k) :
    (pieces data k).getD piece.val [] = pieceOf data (shardLength data k) piece.val := by
  simp [pieces]

theorem codes_piece (data : Bytes) (turned : TopInverse k top) (piece : Fin k) :
    Codes data top ⟨piece.val, pieceOf data (shardLength data k) piece.val⟩ where
  length := length_pieceOf _ _ _
  symbols place _ := by
    rw [coefficients_piece turned, single_one_dotProduct]
    rfl

theorem codes_parity (data : Bytes) (top : Square Gf k) (index : Nat) :
    Codes data top ⟨index, combine (rowTimesMatrix (vandermondeRow index k) top).toList
      (pieces data k) (shardLength data k)⟩ where
  length := length_combine _ _ _
  symbols place inside := by
    rw [symbol_combine_vector _ (by simp [pieces]) inside]
    congr 1
    · funext column
      exact coefficients_parity top index column.isLt
    · funext piece
      rw [getD_pieces]
      rfl

/-- All shards, before they are numbered. -/
def shardBytes (data : Bytes) {k : Nat} (top : Square Gf k) (n : Nat) : List Bytes :=
  pieces data k ++ (List.range' k (n - k)).map fun index =>
    combine (rowTimesMatrix (vandermondeRow index k) top).toList (pieces data k) (shardLength data k)

theorem length_shardBytes (data : Bytes) (top : Square Gf k) (fits : k ≤ n) :
    (shardBytes data top n).length = n := by
  simp only [shardBytes, pieces, List.length_append, List.length_map, List.length_range,
    List.length_range']
  omega

/-- All shards with their numbers. -/
def shardsOf (data : Bytes) {k : Nat} (top : Square Gf k) (n : Nat) : List Shard :=
  (shardBytes data top n).mapIdx fun index bytes => { index, bytes }

theorem codes_of_getElem? {index : Nat} (turned : TopInverse k top)
    {bytes : Bytes} (there : (shardBytes data top n)[index]? = some bytes) :
    Codes data top ⟨index, bytes⟩ := by
  have many : (pieces data k).length = k := by simp [pieces]
  by_cases piece : index < k
  · rw [shardBytes, List.getElem?_append_left (by omega)] at there
    have found := getD_pieces data ⟨index, piece⟩
    rw [List.getD_eq_getElem?_getD, there, Option.getD_some] at found
    rw [found]
    exact codes_piece data turned ⟨index, piece⟩
  · rw [shardBytes, List.getElem?_append_right (by omega), many, List.getElem?_map,
      Option.map_eq_some_iff] at there
    obtain ⟨number, found, rfl⟩ := there
    obtain ⟨within, rfl⟩ := List.getElem?_eq_some_iff.mp found
    have same : (List.range' k (n - k))[index - k] = index := by
      rw [List.getElem_range']
      omega
    rw [same]
    exact codes_parity data top index

theorem codes_of_mem (turned : TopInverse k top) (fits : k ≤ n)
    {shard : Shard} (inside : shard ∈ shardsOf data top n) :
    shard.index < n ∧ Codes data top shard := by
  obtain ⟨index, within, rfl⟩ := List.mem_mapIdx.mp inside
  rw [length_shardBytes data top fits] at within
  exact ⟨within, codes_of_getElem? turned (List.getElem?_eq_getElem _)⟩

section Coding

variable [Platform]

/-- The tree over the shards. -/
def shardTree (data : Bytes) {k : Nat} (top : Square Gf k) (n : Nat) : List (List Hash) :=
  merkleTree ((shardBytes data top n).map (leafHash (shardLength data k)))

def commitmentOf (data : Bytes) {k : Nat} (top : Square Gf k) (n : Nat) : Commitment where
  root := rootHash (treeRoot (shardTree data top n)) k n (shardLength data k) data.length
  k := k
  n := n
  shardLen := shardLength data k
  dataLen := data.length

omit [Platform] in
theorem outOfRange_eq_false : outOfRange k n = false ↔ 1 ≤ k ∧ k ≤ n ∧ n ≤ 256 := by
  unfold outOfRange maxShards
  simp only [Bool.or_eq_false_iff, beq_eq_false_iff_ne, decide_eq_false_iff_not]
  omega

/-- What an encoding is. -/
def codedOf (data : Bytes) {k : Nat} (top : Square Gf k) (n : Nat) : Coded where
  commitment := commitmentOf data top n
  shards := shardsOf data top n
  tree := shardTree data top n

variable {top : Square Gf k} {available : Nat} {coded : Coded}

theorem encode_eq (available : Nat) (data : Bytes) (turned : TopInverse k top)
    (inRange : outOfRange k n = false) : encode available data k n = .ok (codedOf data top n) := by
  have parity : parityCoefficients k n = .ok ((List.range' k (n - k)).map fun index =>
      rowTimesMatrix (vandermondeRow index k) top) := by
    rw [parityCoefficients, turned.found]
    rfl
  have bytes : pieces data k ++ ((List.range' k (n - k)).map fun index =>
      rowTimesMatrix (vandermondeRow index k) top).map (fun coeffs =>
        combine coeffs.toList (pieces data k) (shardLength data k)) = shardBytes data top n := by
    rw [List.map_map]
    rfl
  rw [encode, inRange, if_neg Bool.false_ne_true, parity]
  simp only [mapOrdered_eq]
  change Except.ok _ = _
  rw [bytes]
  rfl

/-! ## Reconstruction -/

omit [Platform] in
/-- The shards that are taken are the first `k`. -/
theorem gather_eq (commitment : Commitment) (shards : List Shard) (indices : List Nat)
    (rows : List Bytes) (room : indices.length ≤ commitment.k)
    (distinct : (indices ++ (shards.take (commitment.k - indices.length)).map Shard.index).Nodup)
    (fit : ∀ shard ∈ shards.take (commitment.k - indices.length),
      shard.index < commitment.n ∧ shard.bytes.length = commitment.shardLen) :
    gather commitment shards indices rows = .ok
      (indices ++ (shards.take (commitment.k - indices.length)).map Shard.index,
        rows ++ (shards.take (commitment.k - indices.length)).map Shard.bytes) := by
  induction shards generalizing indices rows with
  | nil => simp [gather]
  | cons shard shards hypothesis =>
    by_cases full : indices.length = commitment.k
    · simp [gather, full]
    · obtain ⟨left, counted⟩ : ∃ left, commitment.k - indices.length = left + 1 :=
        ⟨commitment.k - indices.length - 1, by omega⟩
      rw [counted, List.take_succ_cons] at distinct fit ⊢
      rw [List.map_cons] at distinct
      have taken := fit shard List.mem_cons_self
      have fresh : shard.index ∉ indices := by
        intro twice
        exact (List.nodup_append.mp distinct).2.2 _ twice _ List.mem_cons_self rfl
      have rest : commitment.k - (indices ++ [shard.index]).length = left := by
        rw [List.length_append, List.length_singleton]
        omega
      have following := hypothesis (indices ++ [shard.index]) (rows ++ [shard.bytes])
      rw [rest, List.length_append, List.length_singleton, List.append_assoc, List.append_assoc]
        at following
      rw [gather, if_neg full, if_neg (by simp [taken.1, fresh]), if_neg (by simp [taken.2])]
      exact following (by omega) distinct (List.forall_mem_cons.mp fit).2

omit [Platform] in
/-- The coefficients of chosen shards. -/
theorem decodeMatrix_eq (turned : TopInverse k top) (indices : List Nat) :
    ∃ matrix, decodeMatrix indices k = .ok matrix ∧
      ∀ place : Fin k, entries matrix place = coefficients top (indices.getD place.val 0) := by
  refine ⟨_, by rw [decodeMatrix, turned.found]; rfl, fun place => ?_⟩
  ext column
  simp only [entries, Vector.getElem_ofFn]
  split
  next piece =>
    rw [coefficients_piece turned ⟨_, piece⟩, Pi.single_apply]
    simp [Fin.ext_iff]
  next => exact coefficients_parity top _ column.isLt

omit [Platform] in
/-- The coefficients of distinct shards are independent. -/
theorem det_coefficients_ne_zero {matrix : Square Gf k} (turned : TopInverse k top)
    {indices : List Nat} (many : indices.length = k) (small : ∀ index ∈ indices, index < 256)
    (distinct : indices.Nodup)
    (rows : ∀ place : Fin k, entries matrix place = coefficients top (indices.getD place.val 0)) :
    (entries matrix).det ≠ 0 := by
  subst many
  have product : entries matrix =
      Matrix.vandermonde (fun place : Fin indices.length => point indices[place.val]) *
        entries top := by
    ext place column
    rw [Matrix.mul_apply_eq_vecMul, rows place, List.getD_eq_getElem _ _ place.isLt]
    rfl
  have invertible : (entries top).det ≠ 0 := by
    intro zero
    have one := congrArg Matrix.det turned.inverse
    rw [Matrix.det_mul, zero, zero_mul, Matrix.det_one] at one
    exact zero_ne_one one
  rw [product, Matrix.det_mul]
  refine mul_ne_zero ?_ invertible
  rw [Matrix.det_vandermonde_ne_zero_iff]
  intro first second same
  have equal := point_inj (small _ (List.getElem_mem _)) (small _ (List.getElem_mem _)) same
  exact Fin.ext (distinct.getElem_inj_iff.mp equal)

omit [Platform] in
/-- The inverse of the coefficients gives the pieces back. -/
theorem combine_inverse {chosen : List Shard} (many : chosen.length = k)
    (coded : ∀ shard ∈ chosen, Codes data top shard) {matrix inverse : Square Gf k}
    (rows : ∀ place : Fin k, entries matrix place = coefficients top ((chosen.map
      Shard.index).getD place.val 0)) (product : entries inverse * entries matrix = 1) :
    inverse.toList.map (fun row =>
      combine row.toList (chosen.map Shard.bytes) (shardLength data k)) = pieces data k := by
  apply List.ext_getElem
  · simp [pieces]
  intro piece inside inside'
  have within : piece < k := by simpa [pieces] using inside'
  simp only [List.getElem_map, Vector.getElem_toList, pieces, List.getElem_range]
  apply eq_of_symbol
  · rw [length_combine, length_pieceOf]
  intro place below
  rw [length_combine] at below
  rw [symbol_combine_vector _ (by simpa using many) below]
  have shardSymbols : (fun column : Fin k =>
      symbol ((chosen.map Shard.bytes).getD column.val []) place) =
        entries matrix *ᵥ pieceSymbols data k place := by
    funext column
    have there : column.val < chosen.length := by omega
    rw [Matrix.mulVec, rows column]
    simp only [List.getD_eq_getElem?_getD, List.getElem?_map, List.getElem?_eq_getElem there,
      Option.map_some, Option.getD_some]
    exact (coded _ (List.getElem_mem there)).symbols place below
  rw [shardSymbols]
  change (entries inverse *ᵥ (entries matrix *ᵥ pieceSymbols data k place)) ⟨piece, within⟩ = _
  rw [Matrix.mulVec_mulVec, product, Matrix.one_mulVec]
  rfl

omit [Platform] in
theorem reconstruct_eq {cores : Nat} {commitment : Commitment} {shards : List Shard}
    {indices : List Nat} {rows : List Bytes} {matrix inverse : Square Gf commitment.k}
    (inRange : outOfRange commitment.k commitment.n = false)
    (gathered : gather commitment shards [] [] = .ok (indices, rows))
    (enough : ¬indices.length < commitment.k)
    (decoded : decodeMatrix indices commitment.k = .ok matrix)
    (inverted : invert matrix = .ok inverse) :
    reconstruct cores commitment shards = .ok ((inverse.toList.map fun row =>
      combine row.toList rows commitment.shardLen).flatten.take commitment.dataLen) := by
  rw [reconstruct, inRange, if_neg Bool.false_ne_true, gathered]
  change (if indices.length < commitment.k then _ else _) = _
  rw [if_neg enough, decoded]
  change (invert matrix >>= _) = _
  rw [inverted]
  simp only [mapOrdered_eq]
  rfl

/-- What has been encoded. -/
theorem encode_spec (encoded : encode available data k n = .ok coded) :
    outOfRange k n = false ∧ ∃ top : Square Gf k, TopInverse k top ∧ coded = codedOf data top n := by
  cases inRange : outOfRange k n with
  | true =>
    rw [encode, inRange] at encoded
    cases encoded
  | false =>
    obtain ⟨_, fits, few⟩ := outOfRange_eq_false.mp inRange
    obtain ⟨top, turned⟩ := exists_topInverse (Nat.le_trans fits few)
    rw [encode_eq available data turned inRange, Except.ok.injEq] at encoded
    exact ⟨rfl, top, turned, encoded.symm⟩

/-- The shards of an encoding are numbered. -/
theorem index_shards (encoded : encode available data k n = .ok coded) :
    coded.shards.map Shard.index = List.range n := by
  obtain ⟨inRange, top, _, rfl⟩ := encode_spec encoded
  have fits := (outOfRange_eq_false.mp inRange).2.1
  have length := length_shardBytes data top fits
  apply List.ext_getElem
  · simp [codedOf, shardsOf, length]
  · intro index _ _
    simp [codedOf, shardsOf]

/-- Shards of an encoding whose first `k` are distinct give the data back. -/
theorem reconstruct_of_encode (cores : Nat)
    (encoded : encode available data k n = .ok coded) {shards : List Shard}
    (taken : ∀ shard ∈ shards, shard ∈ coded.shards) (enough : k ≤ shards.length)
    (distinct : ((shards.take k).map Shard.index).Nodup) :
    reconstruct cores coded.commitment shards = .ok data := by
  obtain ⟨inRange, top, turned, rfl⟩ := encode_spec encoded
  obtain ⟨some, fits, few⟩ := outOfRange_eq_false.mp inRange
  have codes : ∀ shard ∈ shards.take k, shard.index < n ∧ Codes data top shard :=
    fun shard inside => codes_of_mem turned fits (taken shard (List.mem_of_mem_take inside))
  have many : (shards.take k).length = k := by
    rw [List.length_take]
    omega
  have gathered := gather_eq (commitmentOf data top n) shards [] [] (Nat.zero_le _) distinct
    fun shard inside => ⟨(codes shard inside).1, (codes shard inside).2.length⟩
  obtain ⟨matrix, decoded, rows⟩ := decodeMatrix_eq turned ((shards.take k).map Shard.index)
  have regular : (entries matrix).det ≠ 0 := by
    refine det_coefficients_ne_zero turned (by simpa using many) ?_ distinct rows
    intro index inside
    obtain ⟨shard, chosen, rfl⟩ := List.mem_map.mp inside
    exact Nat.lt_of_lt_of_le (codes shard chosen).1 few
  obtain ⟨inverse, inverted, product⟩ := invert_of_det regular
  have whole : ¬((shards.take k).map Shard.index).length < k := by
    rw [List.length_map, many]
    exact Nat.lt_irrefl k
  have recovered := combine_inverse many (fun shard inside => (codes shard inside).2) rows product
  refine (reconstruct_eq inRange gathered whole decoded inverted).trans ?_
  change Except.ok ((List.flatten (inverse.toList.map fun row => combine row.toList
    ((shards.take k).map Shard.bytes) (shardLength data k))).take data.length) = _
  rw [recovered, take_flatten_pieces data some]

/-- As many shards as the field has elements can be encoded. -/
theorem exists_encode (available : Nat) (data : Bytes) (positive : 1 ≤ k) (fits : k ≤ n)
    (few : n ≤ 256) : ∃ coded, encode available data k n = .ok coded := by
  obtain ⟨top, turned⟩ := exists_topInverse (Nat.le_trans fits few)
  exact ⟨_, encode_eq available data turned (outOfRange_eq_false.mpr ⟨positive, fits, few⟩)⟩

/-- Every encoding succeeds, and any shards of it whose first `k` are distinct give the data back.
The number of cores at either end makes no difference. Any `k` rows of the code are invertible, and
the decoder inverts them. -/
theorem reconstruct_encode (available cores : Nat) (data : Bytes) (k n : Nat) (some : 1 ≤ k)
    (fits : k ≤ n) (few : n ≤ 256) :
    ∃ coded, encode available data k n = .ok coded ∧
      ∀ shards : List Shard, (∀ shard ∈ shards, shard ∈ coded.shards) → k ≤ shards.length →
        ((shards.take k).map Shard.index).Nodup →
          reconstruct cores coded.commitment shards = .ok data := by
  obtain ⟨_, encoded⟩ := exists_encode available data some fits few
  exact ⟨_, encoded, fun _ taken enough distinct =>
    reconstruct_of_encode cores encoded taken enough distinct⟩

end Coding

/-- Three bytes in two pieces with one shard more: the last two shards, in the other order, are
enough. -/
theorem reconstruct_encode_last_two :
    ∃ coded, letI := Platform.blank
      encode 1 [5, 6, 7] 2 3 = .ok coded ∧
        reconstruct 1 coded.commitment (coded.shards.drop 1).reverse = .ok [5, 6, 7] := by
  let := Platform.blank
  obtain ⟨coded, encoded, back⟩ :=
    reconstruct_encode 1 1 [5, 6, 7] 2 3 (by decide) (by decide) (by decide)
  have numbered := index_shards encoded
  have three : coded.shards.length = 3 := by
    rw [← List.length_map Shard.index, numbered, List.length_range]
  refine ⟨coded, encoded, back _ ?_ ?_ ?_⟩
  · intro shard inside
    exact List.mem_of_mem_drop (List.mem_reverse.mp inside)
  · simp [three]
  · rw [List.take_of_length_le (by simp [three]), List.map_reverse, List.map_drop, numbered]
    decide

end QuantovaChain.Net
