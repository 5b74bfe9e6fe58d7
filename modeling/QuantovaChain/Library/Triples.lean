import QuantovaChain.Library.Transaction

/-!
# Reasoning about plain runs

Rules for what a program guarantees when it runs without journals. `Ensures state program post` says
that if the program, started in `state`, ends with a value, then `post` holds of the value and of
the state it ends in; a panic promises nothing, since whoever runs the program discards its effects.
The rules follow the structure of a program, so that a proof walks down the program text.
-/

namespace Transaction

variable {S K : Type} {V : K → Type} {E F X α β : Type}

namespace Program

def put (key : K) (value : V key) : Program K V E F X Unit := .write key value (.done ())

def delete (key : K) : Program K V E F X Bool := .erase key .done

def emit (event : E) : Program K V E F X Unit := .event event (.done ())

def emitSide (event : F) : Program K V E F X Unit := .sideEvent event (.done ())

def leave (extra : X) : Program K V E F X Unit := .setExtra extra (.done ())

/-- Runs an inner transaction. -/
def attempt (body : Program K V E F X Bool) : Program K V E F X Bool := .atomic body .done

/-- The value that must be there; its absence is a panic. -/
def expect : Option α → Program K V E F X α
  | some value => .done value
  | none => .panic

/-- Runs an action for each element in turn. -/
def each (action : β → Program K V E F X Unit) : List β → Program K V E F X Unit
  | [] => .done ()
  | first :: rest => do
    action first
    each action rest

theorem bind_eq (program : Program K V E F X α) (next : α → Program K V E F X β) :
    program >>= next = program.bind next := rfl

end Program

namespace State

def push (state : State S K V E F X) (event : E) : State S K V E F X :=
  { state with events := state.events ++ [event] }

def pushSide (state : State S K V E F X) (event : F) : State S K V E F X :=
  { state with sideEvents := state.sideEvents ++ [event] }

def withExtra (state : State S K V E F X) (extra : X) : State S K V E F X :=
  { state with extra := extra }

variable [KeyedStore S K V] {state : State S K V E F X} {key other : K}

@[simp] theorem get_push (event : E) : (state.push event).get key = state.get key := rfl

@[simp] theorem get_pushSide (event : F) : (state.pushSide event).get key = state.get key := rfl

@[simp] theorem get_write_self (value : V key) : (state.write key value).get key = some value :=
  get_insert_self _ _ _

@[simp] theorem get_write_ne (value : V key) (apart : key ≠ other) :
    (state.write key value).get other = state.get other :=
  get_insert_ne _ _ _ _ apart

@[simp] theorem get_erase_self : (state.erase key).get key = none :=
  get_remove_self _ _

@[simp] theorem get_erase_ne (apart : key ≠ other) : (state.erase key).get other = state.get other :=
  get_remove_ne _ _ _ apart

end State

section Ensures

variable [KeyedStore S K V]

open Program

/-- Started in `state`, the program ends only with what `post` allows. -/
def Ensures (state : State S K V E F X) (program : Program K V E F X α)
    (post : α → State S K V E F X → Prop) : Prop :=
  ∀ value, (program.plain state).1 = some value → post value (program.plain state).2

variable {state : State S K V E F X} {post : α → State S K V E F X → Prop}

/-- A program in sequence runs its second part where the first ended. -/
theorem Program.plain_bind (program : Program K V E F X α) (next : α → Program K V E F X β)
    (state : State S K V E F X) :
    (program.bind next).plain state =
      match (program.plain state).1 with
      | some value => (next value).plain (program.plain state).2
      | none => (none, (program.plain state).2) := by
  induction program generalizing state with
  | done value => rfl
  | panic => rfl
  | read rest hypothesis => exact hypothesis _ next state
  | write key value rest hypothesis => exact hypothesis next _
  | erase key rest hypothesis => exact hypothesis _ next _
  | event pushed rest hypothesis =>
    exact hypothesis next { state with events := state.events ++ [pushed] }
  | sideEvent pushed rest hypothesis =>
    exact hypothesis next { state with sideEvents := state.sideEvents ++ [pushed] }
  | setExtra extra rest hypothesis =>
    exact hypothesis next { state with extra := extra }
  | atomic body rest _ hypothesis =>
    simp only [Program.bind, plain]
    split
    · exact hypothesis true next _
    · exact hypothesis false next { state with extra := (body.plain state).2.extra }

variable {program : Program K V E F X α} {value : α}

/-- A program whose plain run is known. -/
theorem ensures_of_plain {after : State S K V E F X}
    (runs : program.plain state = (some value, after)) :
    Ensures state program post ↔ post value after := by
  constructor
  · intro holds
    have ended := holds value
    rw [runs] at ended
    exact ended rfl
  · intro holds ended returned
    rw [runs] at returned ⊢
    cases returned
    exact holds

@[simp] theorem ensures_pure :
    Ensures state (pure value : Program K V E F X α) post ↔ post value state :=
  ensures_of_plain rfl

@[simp] theorem ensures_panic : Ensures state (.panic : Program K V E F X α) post ↔ True := by
  simp [Ensures, plain]

@[simp] theorem ensures_bind {next : α → Program K V E F X β}
    {post : β → State S K V E F X → Prop} :
    Ensures state (program >>= next) post ↔
      Ensures state program fun value after => Ensures after (next value) post := by
  simp only [Ensures, bind_eq, plain_bind]
  cases (program.plain state).1 <;> simp

@[simp] theorem ensures_put {key : K} {value : V key} {post : Unit → State S K V E F X → Prop} :
    Ensures state (put key value) post ↔ post () (state.write key value) :=
  ensures_of_plain rfl

@[simp] theorem ensures_delete {key : K} {post : Bool → State S K V E F X → Prop} :
    Ensures state (delete key) post ↔ post (state.get key).isSome (state.erase key) :=
  ensures_of_plain rfl

@[simp] theorem ensures_emit {event : E} {post : Unit → State S K V E F X → Prop} :
    Ensures state (emit event) post ↔ post () (state.push event) :=
  ensures_of_plain rfl

@[simp] theorem ensures_emitSide {event : F} {post : Unit → State S K V E F X → Prop} :
    Ensures state (emitSide event) post ↔ post () (state.pushSide event) :=
  ensures_of_plain rfl

@[simp] theorem ensures_leave {extra : X} {post : Unit → State S K V E F X → Prop} :
    Ensures state (leave extra) post ↔ post () (state.withExtra extra) :=
  ensures_of_plain rfl

@[simp] theorem ensures_expect {found : Option α} :
    Ensures state (expect found) post ↔ ∀ value, found = some value → post value state := by
  cases found with
  | none => simp [Ensures, expect, plain]
  | some value =>
    constructor
    · intro holds found same
      cases same
      exact ensures_pure.mp holds
    · intro holds
      exact ensures_pure.mpr (holds value rfl)

/-- An inner transaction ends as its body when that returns true, and otherwise leaves only its
`extra`. -/
theorem ensures_attempt {body : Program K V E F X Bool} {post : Bool → State S K V E F X → Prop}
    (commits : Ensures state body fun ended after => ended = true → post true after)
    (fails : ∀ extra, post false (state.withExtra extra)) :
    Ensures state (attempt body) post := by
  intro value returned
  simp only [attempt, plain] at returned ⊢
  split at returned
  next succeeded =>
    cases returned
    rw [if_pos succeeded]
    exact commits true succeeded rfl
  next refused =>
    cases returned
    rw [if_neg refused]
    exact fails _

theorem Ensures.mono {weaker : α → State S K V E F X → Prop} (holds : Ensures state program post)
    (implies : ∀ value after, post value after → weaker value after) :
    Ensures state program weaker :=
  fun value returned => implies value _ (holds value returned)

/-- A program in sequence, by a condition that holds in between. -/
theorem Ensures.bind {next : α → Program K V E F X β}
    {goal : β → State S K V E F X → Prop} (first : Ensures state program post)
    (second : ∀ value after, post value after → Ensures after (next value) goal) :
    Ensures state (program >>= next) goal :=
  ensures_bind.mpr (first.mono second)

theorem Ensures.and {other : α → State S K V E F X → Prop}
    (first : Ensures state program post) (second : Ensures state program other) :
    Ensures state program fun value after => post value after ∧ other value after :=
  fun value returned => ⟨first value returned, second value returned⟩

/-- A program ends where its plain run ends. -/
theorem ensures_plain (program : Program K V E F X α) :
    Ensures state program fun value after => program.plain state = (some value, after) :=
  fun _ returned => Prod.ext returned rfl

/-- What a program ensures holds where its run ended. -/
theorem Ensures.ended {after : State S K V E F X}
    (holds : Ensures state program post) (ran : program.plain state = (some value, after)) :
    post value after :=
  (ensures_of_plain ran).mp holds

/-- A loop keeps what each round keeps. -/
theorem ensures_each {action : β → Program K V E F X Unit}
    {invariant : State S K V E F X → Prop} {elements : List β}
    (keeps : ∀ element ∈ elements, ∀ state, invariant state →
      Ensures state (action element) fun _ after => invariant after)
    (start : invariant state) :
    Ensures state (each action elements) fun _ after => invariant after := by
  induction elements generalizing state with
  | nil => exact ensures_pure.mpr start
  | cons first rest hypothesis =>
    refine ensures_bind.mpr ((keeps first List.mem_cons_self state start).mono ?_)
    intro _ after kept
    exact hypothesis (List.forall_mem_cons.mp keeps).2
      kept

/-- A loop folds what each round makes of a view of the state. -/
theorem ensures_each_foldl {γ : Type} (view : State S K V E F X → γ) (step : γ → β → γ)
    {action : β → Program K V E F X Unit}
    (round : ∀ element state,
      Ensures state (action element) fun _ after => view after = step (view state) element)
    (elements : List β) (state : State S K V E F X) :
    Ensures state (each action elements) fun _ after =>
      view after = elements.foldl step (view state) := by
  induction elements generalizing state with
  | nil => exact ensures_pure.mpr rfl
  | cons first rest hypothesis =>
    refine (round first state).bind ?_
    intro _ middle stepped
    rw [List.foldl_cons, ← stepped]
    exact hypothesis middle

end Ensures

/-! ## Programs that write only some keys -/

section Within

namespace Program

/-- Whatever it reads, the program writes and erases only allowed keys. -/
def Within (writes erases : K → Bool) : {α : Type} → Program K V E F X α → Prop
  | _, done _ => True
  | _, panic => True
  | _, read next => ∀ view, (next view).Within writes erases
  | _, write key _ next => writes key = true ∧ next.Within writes erases
  | _, erase key next => erases key = true ∧ ∀ existed, (next existed).Within writes erases
  | _, event _ next => next.Within writes erases
  | _, sideEvent _ next => next.Within writes erases
  | _, setExtra _ next => next.Within writes erases
  | _, atomic body next =>
    body.Within writes erases ∧ ∀ committed, (next committed).Within writes erases

variable {writes erases : K → Bool}

variable {program : Program K V E F X α}

theorem within_bind {next : α → Program K V E F X β}
    (first : program.Within writes erases) (second : ∀ value, (next value).Within writes erases) :
    (program >>= next).Within writes erases := by
  change (program.bind next).Within writes erases
  induction program with
  | done value => exact second value
  | panic => trivial
  | read rest hypothesis => exact fun view => hypothesis view (first view) second
  | write key value rest hypothesis =>
    exact ⟨first.1, hypothesis first.2 second⟩
  | erase key rest hypothesis =>
    exact ⟨first.1, fun existed => hypothesis existed (first.2 existed) second⟩
  | event pushed rest hypothesis => exact hypothesis first second
  | sideEvent pushed rest hypothesis => exact hypothesis first second
  | setExtra extra rest hypothesis => exact hypothesis first second
  | atomic body rest _ hypothesis =>
    exact ⟨first.1, fun committed => hypothesis committed (first.2 committed) second⟩

theorem within_expect (found : Option α) :
    (expect found : Program K V E F X α).Within writes erases := by
  cases found <;> trivial

theorem within_each {action : β → Program K V E F X Unit} {elements : List β}
    (each_within : ∀ element, (action element).Within writes erases) :
    (each action elements).Within writes erases := by
  induction elements with
  | nil => trivial
  | cons first rest hypothesis =>
    exact within_bind (each_within first) fun _ => hypothesis

variable [KeyedStore S K V] {state : State S K V E F X}

/-- What allowed writes keep, the program keeps. -/
theorem Within.keeps (within : program.Within writes erases) (invariant : State S K V E F X → Prop)
    (write : ∀ state key value, writes key = true → invariant state →
      invariant (state.write key value))
    (erase : ∀ state key, erases key = true → invariant state → invariant (state.erase key))
    (event : ∀ state event, invariant state → invariant (state.push event))
    (sideEvent : ∀ state event, invariant state → invariant (state.pushSide event))
    (extra : ∀ state extra, invariant state → invariant (state.withExtra extra))
    (start : invariant state) : invariant (program.plain state).2 := by
  induction program generalizing state with
  | done value => exact start
  | panic => exact start
  | read next hypothesis => exact hypothesis _ (within _) start
  | write key value next hypothesis =>
    exact hypothesis within.2 (write state key value within.1 start)
  | erase key next hypothesis =>
    exact hypothesis _ (within.2 _) (erase state key within.1 start)
  | event pushed next hypothesis => exact hypothesis within (event state _ start)
  | sideEvent pushed next hypothesis =>
    exact hypothesis within (sideEvent state _ start)
  | setExtra left next hypothesis => exact hypothesis within (extra state _ start)
  | atomic body next bodyHypothesis nextHypothesis =>
    rw [plain]
    split
    · exact nextHypothesis true (within.2 true) (bodyHypothesis within.1 start)
    · exact nextHypothesis false (within.2 false) (extra state _ start)

/-- What the program may not write stays, whether or not the program ends with a value. -/
theorem Within.get_eq (within : program.Within writes erases)
    {key : K} (unwritten : writes key = false) (unerased : erases key = false)
    (state : State S K V E F X) : (program.plain state).2.get key = state.get key := by
  apply within.keeps fun after => after.get key = state.get key
  case write =>
    intro _ other _ written same
    rw [State.get_write_ne _ (by rintro rfl; simp [unwritten] at written), same]
  case erase =>
    intro _ other erased same
    rw [State.get_erase_ne (by rintro rfl; simp [unerased] at erased), same]
  case event => exact fun _ _ same => same
  case sideEvent => exact fun _ _ same => same
  case extra => exact fun _ _ same => same
  case start => rfl

theorem Within.frame (within : program.Within writes erases) (state : State S K V E F X) :
    Ensures state program fun _ after =>
      ∀ key, writes key = false → erases key = false → after.get key = state.get key :=
  fun _ _ _ unwritten unerased => within.get_eq unwritten unerased state

end Program

end Within

end Transaction
