import QuantovaChain.Library.Triples

/-!
# Programs that return

`Ensures` promises nothing of a program that panics. `Returns state program post` promises that the
program, started in `state`, ends with a value, and that `post` holds of the value and of the state
it ends in. The rules are those of `Ensures`, except that an expected value has to be there.
-/

namespace Transaction

open Program

variable {S K : Type} {V : K → Type} {E F X α β : Type} [KeyedStore S K V]
variable {state : State S K V E F X} {post : α → State S K V E F X → Prop}

/-- Started in `state`, the program ends with a value, and as `post` says. -/
def Returns (state : State S K V E F X) (program : Program K V E F X α)
    (post : α → State S K V E F X → Prop) : Prop :=
  ∃ value, (program.plain state).1 = some value ∧ post value (program.plain state).2

variable {program : Program K V E F X α}

theorem returns_of_plain {value : α} {after : State S K V E F X}
    (runs : program.plain state = (some value, after)) :
    Returns state program post ↔ post value after := by
  simp [Returns, runs]

@[simp] theorem returns_pure {value : α} :
    Returns state (pure value : Program K V E F X α) post ↔ post value state :=
  returns_of_plain rfl

@[simp] theorem returns_bind {next : α → Program K V E F X β} {post : β → State S K V E F X → Prop} :
    Returns state (program >>= next) post ↔
      Returns state program fun value after => Returns after (next value) post := by
  simp only [Returns, bind_eq, plain_bind]
  cases (program.plain state).1 <;> simp

@[simp] theorem returns_put {key : K} {value : V key} {post : Unit → State S K V E F X → Prop} :
    Returns state (put key value) post ↔ post () (state.write key value) :=
  returns_of_plain rfl

@[simp] theorem returns_emit {event : E} {post : Unit → State S K V E F X → Prop} :
    Returns state (emit event) post ↔ post () (state.push event) :=
  returns_of_plain rfl

@[simp] theorem returns_emitSide {event : F} {post : Unit → State S K V E F X → Prop} :
    Returns state (emitSide event) post ↔ post () (state.pushSide event) :=
  returns_of_plain rfl

@[simp] theorem returns_expect {found : Option α} :
    Returns state (expect found) post ↔ ∃ value, found = some value ∧ post value state := by
  cases found with
  | none => simp [Returns, expect, plain]
  | some value => exact returns_pure.trans (by simp)

/-- A program that returns ensures what it returns with, since it has one run. -/
theorem Returns.ensures (holds : Returns state program post) : Ensures state program post := by
  obtain ⟨value, returned, reached⟩ := holds
  intro other also
  obtain rfl := Option.some.inj (returned.symm.trans also)
  exact reached

theorem Returns.mono {weaker : α → State S K V E F X → Prop} (holds : Returns state program post)
    (implies : ∀ value after, post value after → weaker value after) :
    Returns state program weaker := by
  obtain ⟨value, returned, reached⟩ := holds
  exact ⟨value, returned, implies value _ reached⟩

/-- A program in sequence, by a condition that holds in between. -/
theorem Returns.bind {next : α → Program K V E F X β}
    {goal : β → State S K V E F X → Prop} (first : Returns state program post)
    (second : ∀ value after, post value after → Returns after (next value) goal) :
    Returns state (program >>= next) goal :=
  returns_bind.mpr (first.mono second)

end Transaction
