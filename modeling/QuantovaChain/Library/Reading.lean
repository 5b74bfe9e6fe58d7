import Mathlib.Data.List.Basic

/-!
# Readers that invert writers

A reader takes a value off the front of its input and leaves the rest, in a monad where it may fail.
It inverts a writer on a set of values when it reads a value exactly off the inputs that start with
what the writer writes for a value of the set. One equivalence says both that everything written is
read back and that nothing else is ever read, so there is one input for every value. Sequences of
reads are taken apart by the rules for `pure` and `bind`.
-/

namespace Reading

/-- A monad whose computations return at most one value. -/
class Partial (m : Type → Type) [Monad m] : Prop where
  pure_injective {α : Type} {first second : α} : (pure first : m α) = pure second → first = second
  bind_eq_pure {α β : Type} {first : m α} {next : α → m β} {result : β} :
    first >>= next = pure result ↔ ∃ value, first = pure value ∧ next value = pure result

instance : Partial Option where
  pure_injective := Option.some.inj
  bind_eq_pure := Option.bind_eq_some_iff

instance {ε : Type} : Partial (Except ε) where
  pure_injective := Except.ok.inj
  bind_eq_pure {_ _ first _ _} := by
    cases first with
    | error error => simp [bind, Except.bind, pure, Except.pure]
    | ok value => simp [bind, Except.bind, pure, Except.pure]

variable {τ : Type} {m : Type → Type} [Monad m]

/-- The reader takes the value off the input and leaves the rest. -/
def Reads {α : Type} (reader : StateT (List τ) m α) (input : List τ) (value : α)
    (rest : List τ) : Prop :=
  reader input = pure (value, rest)

/-- The reader reads exactly what the writer writes for the values that fit. -/
def Inverts {α : Type} (reader : StateT (List τ) m α) (write : α → List τ) (fits : α → Prop) :
    Prop :=
  ∀ input value rest, Reads reader input value rest ↔ fits value ∧ input = write value ++ rest

/-- A number of elements, one after another. -/
def many {α : Type} (element : StateT (List τ) m α) : Nat → StateT (List τ) m (List α)
  | 0 => pure []
  | count + 1 => do
    let first ← element
    let rest ← many element count
    pure (first :: rest)

/-- A vector of elements, filled one after another. -/
def fill {α : Type} (element : StateT (List τ) m α) :
    (count : Nat) → StateT (List τ) m (Vector α count)
  | 0 => pure #v[]
  | count + 1 => do
    let filled ← fill element count
    let last ← element
    pure (filled.push last)

variable [Partial m] {α β : Type}

variable {reader : StateT (List τ) m α} {write : α → List τ} {fits : α → Prop} {input rest : List τ}
  {next : α → StateT (List τ) m β}

variable {value : α} {result : β}

theorem reads_pure {result : α} :
    Reads (pure value : StateT (List τ) m α) input result rest ↔ value = result ∧ input = rest := by
  constructor
  · intro reads
    exact Prod.mk.inj (Partial.pure_injective reads)
  · rintro ⟨rfl, rfl⟩
    rfl

theorem reads_bind : Reads (reader >>= next) input result rest ↔
      ∃ value middle, Reads reader input value middle ∧ Reads (next value) middle result rest := by
  constructor
  · intro reads
    obtain ⟨⟨value, middle⟩, first, second⟩ := Partial.bind_eq_pure.mp reads
    exact ⟨value, middle, first, second⟩
  · rintro ⟨value, middle, first, second⟩
    exact Partial.bind_eq_pure.mpr ⟨(value, middle), first, second⟩

omit [Partial m] in
theorem reads_ite {check : Prop} [Decidable check] {other : StateT (List τ) m α} :
    Reads (if check then reader else other) input value rest ↔
      check ∧ Reads reader input value rest ∨ ¬ check ∧ Reads other input value rest := by
  split <;> simp [*]

/-- Reading a part and then the remainder, where the part is known by what its reader inverts. -/
theorem Inverts.reads_bind (inverts : Inverts reader write fits) :
    Reads (reader >>= next) input result rest ↔
      ∃ value middle, fits value ∧ input = write value ++ middle ∧
        Reads (next value) middle result rest := by
  rw [Reading.reads_bind]
  constructor
  · rintro ⟨value, middle, first, second⟩
    obtain ⟨fitting, written⟩ := (inverts input value middle).mp first
    exact ⟨value, middle, fitting, written, second⟩
  · rintro ⟨value, middle, fitting, written, second⟩
    exact ⟨value, middle, (inverts input value middle).mpr ⟨fitting, written⟩, second⟩

/-- What is written for a part is read, and then the remainder. -/
theorem Inverts.andThen (inverts : Inverts reader write fits) {middle : List τ}
    (fitting : fits value) (later : Reads (next value) middle result rest) :
    Reads (reader >>= next) (write value ++ middle) result rest :=
  inverts.reads_bind.mpr ⟨value, middle, fitting, rfl, later⟩

omit [Partial m] in
/-- The same reader against another account of what it reads. -/
theorem Inverts.congr {other : α → List τ} {limits : α → Prop} (inverts : Inverts reader other limits)
    (fit : ∀ value, fits value ↔ limits value)
    (writes : ∀ value, limits value → write value = other value) : Inverts reader write fits := by
  intro input value rest
  rw [inverts input value rest, fit]
  exact and_congr_right fun fitting => by rw [writes value fitting]

omit [Partial m] in
/-- A record is read by its fields. -/
theorem Inverts.ofFields {fields : α → List τ} {limits : α → Prop}
    (writes : ∀ record, write record = fields record)
    (fit : ∀ record, fits record ↔ limits record)
    (inverts : Inverts reader fields fun record => True ∧ limits record) :
    Inverts reader write fits :=
  inverts.congr (by simp [fit]) fun record _ => writes record

/-- A field of a record is read, and then the rest of a record that has this field. -/
theorem Inverts.field (inverts : Inverts reader write fits) (part : β → α) {others : β → List τ}
    {known later : β → Prop}
    (rest : ∀ value, Inverts (next value) others fun record => (known record ∧ part record =
      value) ∧ later record) :
    Inverts (reader >>= next) (fun record => write (part record) ++ others record) fun record =>
      known record ∧ fits (part record) ∧ later record := by
  intro input record after
  rw [inverts.reads_bind]
  constructor
  · rintro ⟨value, middle, fitting, rfl, reads⟩
    obtain ⟨⟨⟨known, rfl⟩, later⟩, rfl⟩ := (rest value _ _ _).mp reads
    exact ⟨⟨known, fitting, later⟩, (List.append_assoc ..).symm⟩
  · rintro ⟨⟨known, fitting, later⟩, rfl⟩
    exact ⟨part record, _, fitting, List.append_assoc ..,
      (rest _ _ _ _).mpr ⟨⟨⟨known, rfl⟩, later⟩, rfl⟩⟩

/-- A head is read, and then what it announces. -/
theorem Inverts.headed (inverts : Inverts reader write fits) {body : β → List τ} {head : β → α}
    {sound : β → Prop}
    (announced : ∀ raw, Inverts (next raw) body fun value => raw = head value ∧ sound value) :
    Inverts (reader >>= next) (fun value => write (head value) ++ body value) fun value =>
      fits (head value) ∧ sound value := by
  intro input value rest
  rw [inverts.reads_bind]
  constructor
  · rintro ⟨raw, middle, fitting, rfl, reads⟩
    obtain ⟨⟨rfl, sound⟩, rfl⟩ := (announced raw _ _ _).mp reads
    exact ⟨⟨fitting, sound⟩, (List.append_assoc ..).symm⟩
  · rintro ⟨⟨fitting, sound⟩, rfl⟩
    exact ⟨head value, _, fitting, List.append_assoc ..,
      (announced _ _ _ _).mpr ⟨⟨rfl, sound⟩, rfl⟩⟩

/-- A field of a record that a head announces. -/
theorem Inverts.headedField [LawfulMonad m] {γ : Type} {record : β → StateT (List τ) m γ}
    (inverts : Inverts reader write fits) {body : β → List τ} {head : β → α} {sound : β → Prop}
    (announced : ∀ raw, Inverts (next raw) body fun value => raw = head value ∧ sound value)
    (part : γ → β) {others : γ → List τ} {known later : γ → Prop}
    (rest : ∀ value, Inverts (record value) others fun whole => (known whole ∧ part whole =
      value) ∧ later whole) :
    Inverts (reader >>= fun raw => next raw >>= record)
      (fun whole => write (head (part whole)) ++ body (part whole) ++ others whole) fun whole =>
      known whole ∧ (fits (head (part whole)) ∧ sound (part whole)) ∧ later whole := by
  rw [← bind_assoc]
  exact (inverts.headed announced).field part rest

/-- The record of the fields that were read. -/
theorem inverts_record {known : α → Prop} (only : ∀ record, known record ↔ record = value) :
    Inverts (pure value : StateT (List τ) m α) (fun _ => []) fun record => known record ∧ True := by
  intro input record rest
  simp only [reads_pure, only, and_true, List.nil_append, eq_comm]

theorem reads_map [LawfulMonad m] {change : α → β} : Reads (change <$> reader) input result rest ↔
      ∃ value, Reads reader input value rest ∧ change value = result := by
  rw [← bind_pure_comp, Reading.reads_bind]
  simp only [reads_pure]
  constructor
  · rintro ⟨value, middle, reads, changed, same⟩
    exact ⟨value, same ▸ reads, changed⟩
  · rintro ⟨value, reads, changed⟩
    exact ⟨value, rest, reads, changed, rfl⟩

/-- A run of a reader on its whole input. -/
theorem run'_eq_pure [LawfulMonad m] :
    reader.run' input = pure value ↔ ∃ rest, Reads reader input value rest := by
  change (Prod.fst <$> reader input) = pure value ↔ _
  rw [← bind_pure_comp, Partial.bind_eq_pure]
  constructor
  · rintro ⟨⟨found, rest⟩, reads, same⟩
    cases Partial.pure_injective same
    exact ⟨rest, reads⟩
  · rintro ⟨rest, reads⟩
    exact ⟨(value, rest), reads, rfl⟩

theorem Inverts.many {element : StateT (List τ) m α} (inverts : Inverts element write fits)
    (count : Nat) :
    Inverts (many element count) (fun values => values.flatMap write)
      fun values => values.length = count ∧ ∀ value ∈ values, fits value := by
  induction count with
  | zero =>
    intro input values rest
    rw [Reading.many, reads_pure]
    constructor
    · rintro ⟨rfl, rfl⟩
      exact ⟨⟨rfl, fun _ none => absurd none List.not_mem_nil⟩, rfl⟩
    · rintro ⟨⟨empty, -⟩, written⟩
      cases List.length_eq_zero_iff.mp empty
      exact ⟨rfl, written⟩
  | succ count hypothesis =>
    intro input values rest
    rw [Reading.many, inverts.reads_bind]
    simp only [hypothesis.reads_bind, reads_pure]
    constructor
    · rintro ⟨first, _, firstFits, rfl, later, _, ⟨counted, laterFit⟩, rfl, rfl, rfl⟩
      refine ⟨⟨by rw [List.length_cons, counted], ?_⟩, ?_⟩
      · exact List.forall_mem_cons.mpr ⟨firstFits, laterFit⟩
      · rw [List.flatMap_cons, List.append_assoc]
    · rintro ⟨⟨counted, fit⟩, rfl⟩
      cases values with
      | nil => cases counted
      | cons first later =>
        obtain ⟨firstFits, laterFit⟩ := List.forall_mem_cons.mp fit
        refine ⟨first, later.flatMap write ++ rest, firstFits, ?_, later, rest,
          ⟨Nat.succ.inj counted, laterFit⟩, rfl, rfl, rfl⟩
        rw [List.flatMap_cons, List.append_assoc]

theorem Inverts.fill {element : StateT (List τ) m α} (inverts : Inverts element write fits)
    (count : Nat) :
    Inverts (fill element count) (fun values => values.toList.flatMap write)
      fun values => ∀ value ∈ values.toList, fits value := by
  induction count with
  | zero =>
    intro input values rest
    rw [Reading.fill, reads_pure]
    have empty : values = #v[] := by simp
    subst empty
    simp
  | succ count hypothesis =>
    intro input values rest
    rw [Reading.fill, hypothesis.reads_bind]
    simp only [inverts.reads_bind, reads_pure]
    constructor
    · rintro ⟨filled, _, filledFit, rfl, last, _, lastFits, rfl, rfl, rfl⟩
      refine ⟨?_, ?_⟩
      · rw [Vector.toList_push]
        exact List.forall_mem_append.mpr ⟨filledFit, by simpa using lastFits⟩
      · simp [Vector.toList_push, List.flatMap_append]
    · rintro ⟨fit, rfl⟩
      have split : values = values.pop.push values.back := (Vector.push_pop_back values).symm
      rw [split, Vector.toList_push, List.forall_mem_append] at fit
      refine ⟨values.pop, write values.back ++ rest, fit.1, ?_, values.back, rest,
        fit.2 _ (List.mem_singleton.mpr rfl), rfl, split.symm, rfl⟩
      conv_lhs => rw [split, Vector.toList_push, List.flatMap_append]
      simp

/-- The writer's output determines the value. -/
theorem Inverts.injective (inverts : Inverts reader write fits) {first second : α}
    {after : List τ} (firstFits : fits first) (secondFits : fits second)
    (same : write first ++ after = write second ++ rest) : first = second ∧ after = rest := by
  have reads := (inverts _ first after).mpr ⟨firstFits, rfl⟩
  rw [same] at reads
  have again := (inverts _ second rest).mpr ⟨secondFits, rfl⟩
  exact Prod.mk.inj (Partial.pure_injective (reads.symm.trans again))

theorem Inverts.injective_whole (inverts : Inverts reader write fits) {first second : α}
    (firstFits : fits first) (secondFits : fits second) (same : write first = write second) :
    first = second :=
  (inverts.injective firstFits secondFits (congrArg (· ++ []) same)).1

end Reading
