import QuantovaChain.Library.Triples

/-!
# What a program leaves behind

The `extra` part of the state survives a failed transaction, so what it holds afterwards depends on
how far a program got, and a panic counts. `Leaving post extra program` says that the program,
started with `extra`, ends or panics only with an `extra` that `post` allows, whatever the leaves
are. The rules follow the structure of a program. Most programs never write the `extra`; they are
steady, and in sequence the part around them is all that matters.
-/

namespace Transaction

variable {S K : Type} {V : K → Type} {E F X α β : Type}

namespace Program

/-- Started with an `extra`, the program ends, or panics without a value, only with what `post`
allows. -/
def Leaving : {α : Type} → (Option α → X → Prop) → X → Program K V E F X α → Prop
  | _, post, extra, done value => post (some value) extra
  | _, post, extra, panic => post none extra
  | _, post, extra, read next => ∀ view : View K V E F X, view.extra = extra →
    (next view).Leaving post extra
  | _, post, extra, write _ _ next => next.Leaving post extra
  | _, post, extra, erase _ next => ∀ found, (next found).Leaving post extra
  | _, post, extra, event _ next => next.Leaving post extra
  | _, post, extra, sideEvent _ next => next.Leaving post extra
  | _, post, _, setExtra extra next => next.Leaving post extra
  | _, post, extra, atomic body next =>
    body.Leaving (fun ended extra => (next (decide (ended = some true))).Leaving post extra) extra

/-- The program never writes the `extra`. -/
def Steady : {α : Type} → Program K V E F X α → Prop
  | _, done _ => True
  | _, panic => True
  | _, read next => ∀ view : View K V E F X, (next view).Steady
  | _, write _ _ next => next.Steady
  | _, erase _ next => ∀ found, (next found).Steady
  | _, event _ next => next.Steady
  | _, sideEvent _ next => next.Steady
  | _, setExtra _ _ => False
  | _, atomic body next => body.Steady ∧ ∀ ended, (next ended).Steady

variable {post weaker : Option α → X → Prop} {extra : X} {program : Program K V E F X α}

theorem Leaving.mono (holds : program.Leaving post extra)
    (implies : ∀ ended extra, post ended extra → weaker ended extra) :
    program.Leaving weaker extra := by
  induction program generalizing extra with
  | done value => exact implies _ _ holds
  | panic => exact implies _ _ holds
  | read next hypothesis =>
    exact fun view same => hypothesis view (holds view same) implies
  | write key value next hypothesis => exact hypothesis holds implies
  | erase key next hypothesis =>
    exact fun found => hypothesis found (holds found) implies
  | event pushed next hypothesis => exact hypothesis holds implies
  | sideEvent pushed next hypothesis => exact hypothesis holds implies
  | setExtra written next hypothesis => exact hypothesis holds implies
  | atomic body next bodyHypothesis nextHypothesis =>
    exact bodyHypothesis holds fun ended left inner => nextHypothesis _ inner implies

variable {next : α → Program K V E F X β}

theorem Leaving.bind {goal : Option β → X → Prop} (first : program.Leaving post extra)
    (second : ∀ value left, post (some value) left → (next value).Leaving goal left)
    (panics : ∀ left, post none left → goal none left) : (program >>= next).Leaving goal extra := by
  rw [bind_eq]
  induction program generalizing extra with
  | done value => exact second _ _ first
  | panic => exact panics _ first
  | read rest hypothesis =>
    exact fun view same => hypothesis view (first view same) second panics
  | write key value rest hypothesis => exact hypothesis first second panics
  | erase key rest hypothesis =>
    exact fun found => hypothesis found (first found) second panics
  | event pushed rest hypothesis => exact hypothesis first second panics
  | sideEvent pushed rest hypothesis => exact hypothesis first second panics
  | setExtra written rest hypothesis => exact hypothesis first second panics
  | atomic body rest _ hypothesis =>
    have inner : body.Leaving (fun ended left =>
        (rest (decide (ended = some true))).Leaving post left) extra := first
    exact inner.mono fun ended left later => hypothesis _ later second panics

theorem leaving_attempt {body : Program K V E F X Bool} {post : Option Bool → X → Prop}
    (holds : body.Leaving (fun ended left => post (some (decide (ended = some true))) left) extra) :
    (attempt body).Leaving post extra := holds

/-- What a plain run leaves is what the program may leave. -/
theorem Leaving.plain [KeyedStore S K V] {state : State S K V E F X}
    (holds : program.Leaving post state.extra) :
    post (program.plain state).1 (program.plain state).2.extra := by
  induction program generalizing state with
  | done value => exact holds
  | panic => exact holds
  | read next hypothesis => exact hypothesis _ (holds state.view rfl)
  | write key value next hypothesis =>
    exact @hypothesis post (state.write key value) holds
  | erase key next hypothesis =>
    exact @hypothesis _ post (state.erase key) (holds _)
  | event pushed next hypothesis => exact @hypothesis post (state.push pushed) holds
  | sideEvent pushed next hypothesis =>
    exact @hypothesis post (state.pushSide pushed) holds
  | setExtra written next hypothesis =>
    exact @hypothesis post (state.withExtra written) holds
  | atomic body next bodyHypothesis nextHypothesis =>
    have inner := bodyHypothesis holds
    rw [Program.plain]
    split
    next succeeded =>
      rw [succeeded, decide_eq_true rfl] at inner
      exact nextHypothesis true inner
    next refused =>
      rw [decide_eq_false refused] at inner
      exact @nextHypothesis false post { state with extra := (body.plain state).2.extra } inner

/-! ## Steady programs -/

theorem Steady.leaving (steady : program.Steady) (holds : ∀ ended, post ended extra) :
    program.Leaving post extra := by
  induction program generalizing extra with
  | done value => exact holds _
  | panic => exact holds _
  | read next hypothesis =>
    exact fun view _ => hypothesis view (steady view) holds
  | write key value next hypothesis => exact hypothesis steady holds
  | erase key next hypothesis =>
    exact fun found => hypothesis found (steady found) holds
  | event pushed next hypothesis => exact hypothesis steady holds
  | sideEvent pushed next hypothesis => exact hypothesis steady holds
  | setExtra written next => exact absurd steady not_false
  | atomic body next bodyHypothesis nextHypothesis =>
    exact bodyHypothesis steady.1 fun ended => nextHypothesis _ (steady.2 _) holds

/-- A steady program first: the rest starts with the same `extra`. -/
theorem Steady.leaving_bind {goal : Option β → X → Prop}
    (steady : program.Steady) (second : ∀ value, (next value).Leaving goal extra)
    (panics : goal none extra) : (program >>= next).Leaving goal extra := by
  have same : program.Leaving (fun _ left => left = extra) extra := steady.leaving fun _ => rfl
  exact same.bind (fun value _ same => same ▸ second value) fun _ same => same ▸ panics

theorem Steady.bind (first : program.Steady)
    (second : ∀ value, (next value).Steady) : (program >>= next).Steady := by
  rw [bind_eq]
  induction program with
  | done value => exact second value
  | panic => trivial
  | read rest hypothesis => exact fun view => hypothesis view (first view) second
  | write key value rest hypothesis => exact hypothesis first second
  | erase key rest hypothesis =>
    exact fun found => hypothesis found (first found) second
  | event pushed rest hypothesis => exact hypothesis first second
  | sideEvent pushed rest hypothesis => exact hypothesis first second
  | setExtra written rest => exact absurd first not_false
  | atomic body rest _ hypothesis =>
    exact ⟨first.1, fun ended => hypothesis ended (first.2 ended) second⟩

theorem steady_pure (value : α) : (pure value : Program K V E F X α).Steady := trivial

theorem steady_put (key : K) (value : V key) : (put key value : Program K V E F X Unit).Steady :=
  trivial

theorem steady_delete (key : K) : (delete key : Program K V E F X Bool).Steady := fun _ => trivial

theorem steady_expect (found : Option α) : (expect found : Program K V E F X α).Steady := by
  cases found <;> trivial

theorem steady_each {action : β → Program K V E F X Unit} {elements : List β}
    (steady : ∀ element ∈ elements, (action element).Steady) : (each action elements).Steady := by
  induction elements with
  | nil => trivial
  | cons first rest hypothesis =>
    exact (steady first List.mem_cons_self).bind fun _ =>
      hypothesis (List.forall_mem_cons.mp steady).2

end Program

end Transaction
