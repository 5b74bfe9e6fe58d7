import Mathlib.Algebra.Group.Nat.Defs
import Mathlib.Data.List.Infix

/-!
# Nested transactions over a journaled store

A state with a key-value store, two event logs and a counter of fresh keys, on which programs run.
A transaction keeps a journal of the prior value of every key it writes, and on failure puts the
prior values back in reverse order, cuts the logs and resets the counter. Transactions nest: an
inner one that commits hands its journal to the outer one.

The journal implements snapshots. `Program.exec` runs a program with journals and `Program.plain`
runs it without: a failed inner program is simply forgotten. The agreement theorem says that a
transaction ends as the plain run does when it commits and where it began when it fails, except for
the `extra` part of the state, which no transaction restores.
-/

namespace Transaction

/-- A store of values by key, with the laws of a map. The type of a value may depend on its key. -/
class KeyedStore (S : Type) (K : outParam Type) (V : outParam (K → Type)) where
  get : S → (key : K) → Option (V key)
  insert : S → (key : K) → V key → S
  remove : S → K → S
  get_insert_self : ∀ store key value, get (insert store key value) key = some value
  get_insert_ne : ∀ store key value other, key ≠ other →
    get (insert store key value) other = get store other
  get_remove_self : ∀ store key, get (remove store key) key = none
  get_remove_ne : ∀ store key other, key ≠ other →
    get (remove store key) other = get store other

export KeyedStore (get_insert_self get_insert_ne get_remove_self get_remove_ne)

/-- A prior value as a journal records it. -/
abbrev Entry (K : Type) (V : K → Type) := (key : K) × Option (V key)

/-- The state programs run on. -/
structure State (S K : Type) (V : K → Type) (E F X : Type) where
  store : S
  events : List E
  sideEvents : List F
  fresh : Nat
  ceiling : Option Nat
  journal : Option (List (Entry K V))
  extra : X

/-- What a program can read of the state. -/
structure View (K : Type) (V : K → Type) (E F X : Type) where
  leaf : (key : K) → Option (V key)
  events : List E
  sideEvents : List F
  fresh : Nat
  extra : X

/-- A program: reads, writes, erasures, event pushes and nested transactions, ending with a value
or with a panic. -/
inductive Program (K : Type) (V : K → Type) (E F X : Type) : Type → Type 1
  | done {α : Type} (value : α) : Program K V E F X α
  | panic {α : Type} : Program K V E F X α
  | read {α : Type} (next : View K V E F X → Program K V E F X α) : Program K V E F X α
  | write {α : Type} (key : K) (value : V key) (next : Program K V E F X α) :
    Program K V E F X α
  | erase {α : Type} (key : K) (next : Bool → Program K V E F X α) : Program K V E F X α
  | event {α : Type} (pushed : E) (next : Program K V E F X α) : Program K V E F X α
  | sideEvent {α : Type} (pushed : F) (next : Program K V E F X α) : Program K V E F X α
  | setExtra {α : Type} (extra : X) (next : Program K V E F X α) : Program K V E F X α
  | atomic {α : Type} (body : Program K V E F X Bool) (next : Bool → Program K V E F X α) :
    Program K V E F X α

variable {S K : Type} {V : K → Type} {E F X α β : Type}

namespace Program

/-- Continues a program with the value it ends with. -/
def bind (program : Program K V E F X α) (next : α → Program K V E F X β) :
    Program K V E F X β :=
  match program with
  | done value => next value
  | panic => panic
  | read rest => read fun view => (rest view).bind next
  | write key value rest => write key value (rest.bind next)
  | erase key rest => erase key fun existed => (rest existed).bind next
  | event pushed rest => event pushed (rest.bind next)
  | sideEvent pushed rest => sideEvent pushed (rest.bind next)
  | setExtra extra rest => setExtra extra (rest.bind next)
  | atomic body rest => atomic body fun committed => (rest committed).bind next

instance : Monad (Program K V E F X) where
  pure := done
  bind := bind

end Program

section Running

variable [KeyedStore S K V]

namespace State

/-- The largest value of the fresh key counter. -/
def freshLimit : Nat := 2 ^ 64 - 1

variable (state : State S K V E F X) (key : K)

def get : Option (V key) := KeyedStore.get state.store key

def view : View K V E F X where
  leaf := state.get
  events := state.events
  sideEvents := state.sideEvents
  fresh := state.fresh
  extra := state.extra

/-- Notes the prior value of a key, if a journal is kept. -/
def note : Option (List (Entry K V)) :=
  state.journal.map fun entries => entries ++ [⟨key, state.get key⟩]

/-- Writes a key; a key that was absent counts as fresh. -/
def write (value : V key) : State S K V E F X :=
  { state with
    store := KeyedStore.insert state.store key value
    fresh := if (state.get key).isNone then min (state.fresh + 1) freshLimit else state.fresh
    journal := state.note key }

/-- Erases a key. -/
def erase : State S K V E F X :=
  { state with
    store := KeyedStore.remove state.store key
    journal := state.note key }

end State

/-- Puts one prior value back. -/
def restore (store : S) (entry : Entry K V) : S :=
  match entry.2 with
  | some value => KeyedStore.insert store entry.1 value
  | none => KeyedStore.remove store entry.1

/-- Undoes a journal, latest entry first. -/
def undo (store : S) (entries : List (Entry K V)) : S :=
  entries.reverse.foldl restore store

/-- The fresh keys exceed the ceiling. -/
def overCeiling (state : State S K V E F X) : Bool :=
  match state.ceiling with
  | some ceiling => decide (state.fresh > ceiling)
  | none => false

/-- Runs `action` as a transaction. Only the outermost one is held to the ceiling. -/
def applyAtomic (action : State S K V E F X → Option Bool × State S K V E F X)
    (state : State S K V E F X) : Bool × State S K V E F X :=
  let ran := action { state with journal := some [] }
  let unwound := ran.2.journal.getD []
  let after := { ran.2 with journal := state.journal }
  if ran.1 = some true ∧ ¬ (state.journal.isNone ∧ overCeiling after) then
    (true, { after with journal := after.journal.map fun entries => entries ++ unwound })
  else
    (false, { after with
      store := undo after.store unwound
      events := after.events.take state.events.length
      sideEvents := after.sideEvents.take state.sideEvents.length
      fresh := state.fresh })

namespace Program

/-- Runs a program with journals. The value is missing after a panic. -/
def exec : {α : Type} → Program K V E F X α → State S K V E F X → Option α × State S K V E F X
  | _, done value, state => (some value, state)
  | _, panic, state => (none, state)
  | _, read next, state => (next state.view).exec state
  | _, write key value next, state => next.exec (state.write key value)
  | _, erase key next, state => (next (state.get key).isSome).exec (state.erase key)
  | _, event pushed next, state => next.exec { state with events := state.events ++ [pushed] }
  | _, sideEvent pushed next, state =>
    next.exec { state with sideEvents := state.sideEvents ++ [pushed] }
  | _, setExtra extra next, state => next.exec { state with extra := extra }
  | _, atomic body next, state =>
    let ran := applyAtomic body.exec state
    (next ran.1).exec ran.2

/-- Runs a program without transactions: a failed inner program leaves only its `extra`. -/
def plain : {α : Type} → Program K V E F X α → State S K V E F X → Option α × State S K V E F X
  | _, done value, state => (some value, state)
  | _, panic, state => (none, state)
  | _, read next, state => (next state.view).plain state
  | _, write key value next, state => next.plain (state.write key value)
  | _, erase key next, state => (next (state.get key).isSome).plain (state.erase key)
  | _, event pushed next, state => next.plain { state with events := state.events ++ [pushed] }
  | _, sideEvent pushed next, state =>
    next.plain { state with sideEvents := state.sideEvents ++ [pushed] }
  | _, setExtra extra next, state => next.plain { state with extra := extra }
  | _, atomic body next, state =>
    let ran := body.plain state
    if ran.1 = some true then (next true).plain ran.2
    else (next false).plain { state with extra := ran.2.extra }

end Program

/-- Two stores that read alike. -/
def Alike (first second : S) : Prop :=
  ∀ key, KeyedStore.get first key = KeyedStore.get second key

theorem restore_alike {first second : S} (alike : Alike first second) (entry : Entry K V) :
    Alike (restore first entry) (restore second entry) := by
  intro key
  obtain ⟨noted, prior⟩ := entry
  by_cases here : noted = key
  · subst here
    cases prior <;> simp [restore, get_insert_self, get_remove_self]
  · cases prior <;> simp [restore, get_insert_ne _ _ _ _ here, get_remove_ne _ _ _ here, alike key]

theorem undo_alike {first second : S} (alike : Alike first second)
    (entries : List (Entry K V)) : Alike (undo first entries) (undo second entries) := by
  unfold undo
  induction entries.reverse generalizing first second with
  | nil => exact alike
  | cons entry rest hypothesis => exact hypothesis (restore_alike alike entry)

/-- The journal leads from `after` back to `before`. -/
def Reverts (before after : S) (entries : List (Entry K V)) : Prop :=
  Alike (undo after entries) before

theorem reverts_nil (store : S) : Reverts store store ([] : List (Entry K V)) :=
  fun _ => rfl

/-- Journals of successive stretches compose. -/
theorem Reverts.trans {before middle after : S} {first second : List (Entry K V)}
    (earlier : Reverts before middle first) (later : Reverts middle after second) :
    Reverts before after (first ++ second) := by
  intro key
  rw [undo, List.reverse_append, List.foldl_append]
  exact (undo_alike later first key).trans (earlier key)

/-- One noted change is undone by putting the prior value back. -/
theorem reverts_single {before after : S} {key : K}
    (same : ∀ other, key ≠ other → KeyedStore.get after other = KeyedStore.get before other) :
    Reverts before after [⟨key, KeyedStore.get before key⟩] := by
  intro other
  simp only [undo, List.reverse_singleton, List.foldl_cons, List.foldl_nil, restore]
  by_cases here : key = other
  · subst here
    cases prior : KeyedStore.get before key <;> simp [get_insert_self, get_remove_self]
  · cases prior : KeyedStore.get before key <;>
      simp [get_insert_ne _ _ _ _ here, get_remove_ne _ _ _ here, same other here]

/-- The observable parts of two states agree. -/
structure Same (first second : State S K V E F X) : Prop where
  store : Alike first.store second.store
  events : first.events = second.events
  sideEvents : first.sideEvents = second.sideEvents
  fresh : first.fresh = second.fresh
  extra : first.extra = second.extra

variable {state first second : State S K V E F X}
  {action : State S K V E F X → Option Bool × State S K V E F X} {holds : S → Prop}

theorem Same.view_eq (same : Same first second) : first.view = second.view := by
  rw [State.view, State.view, same.events, same.sideEvents, same.fresh, same.extra,
    show first.get = second.get from funext same.store]

theorem Same.refl (state : State S K V E F X) : Same state state :=
  ⟨fun _ => rfl, rfl, rfl, rfl, rfl⟩

theorem Same.trans {third : State S K V E F X} (early : Same first second)
    (late : Same second third) : Same first third :=
  ⟨fun key => (early.store key).trans (late.store key), early.events.trans late.events,
    early.sideEvents.trans late.sideEvents, early.fresh.trans late.fresh,
    early.extra.trans late.extra⟩

theorem Same.write (same : Same first second) (key : K) (value : V key) :
    Same (first.write key value) (second.write key value) :=
  { same with
    store := fun other => by
      by_cases here : key = other
      · subst here
        simp [State.write, get_insert_self]
      · simp [State.write, get_insert_ne _ _ _ _ here, same.store other]
    fresh := by
      have prior : first.get key = second.get key := same.store key
      simp only [State.write, prior, same.fresh] }

theorem Same.erase (same : Same first second) (key : K) :
    Same (first.erase key) (second.erase key) :=
  { same with
    store := fun other => by
      by_cases here : key = other
      · subst here
        simp [State.erase, get_remove_self]
      · simp [State.erase, get_remove_ne _ _ _ here, same.store other] }

/-- What a run inside a transaction does to the journal and the logs: the journal grows by entries
that lead back, and the logs only grow. -/
structure Journaled (before after : State S K V E F X) : Prop where
  journal : ∀ entries, before.journal = some entries → ∃ added,
    after.journal = some (entries ++ added) ∧ Reverts before.store after.store added
  events : before.events <+: after.events
  sideEvents : before.sideEvents <+: after.sideEvents
  ceiling : after.ceiling = before.ceiling

theorem Journaled.refl (state : State S K V E F X) : Journaled state state where
  journal entries _ := ⟨[], by simpa, reverts_nil _⟩
  events := List.prefix_rfl
  sideEvents := List.prefix_rfl
  ceiling := rfl

theorem Journaled.trans {before middle after : State S K V E F X}
    (first : Journaled before middle) (second : Journaled middle after) :
    Journaled before after where
  journal entries kept := by
    obtain ⟨added, grown, back⟩ := first.journal entries kept
    obtain ⟨later, grownAgain, backAgain⟩ := second.journal _ grown
    exact ⟨added ++ later, by rw [grownAgain, List.append_assoc], back.trans backAgain⟩
  events := first.events.trans second.events
  sideEvents := first.sideEvents.trans second.sideEvents
  ceiling := second.ceiling.trans first.ceiling

theorem journaled_write (state : State S K V E F X) (key : K) (value : V key) :
    Journaled state (state.write key value) :=
  { Journaled.refl state with
    journal := fun entries kept =>
      ⟨[⟨key, state.get key⟩], by simp [State.write, State.note, kept],
        reverts_single fun other apart => get_insert_ne _ _ _ _ apart⟩ }

theorem journaled_erase (state : State S K V E F X) (key : K) :
    Journaled state (state.erase key) :=
  { Journaled.refl state with
    journal := fun entries kept =>
      ⟨[⟨key, state.get key⟩], by simp [State.erase, State.note, kept],
        reverts_single fun other apart => get_remove_ne _ _ _ apart⟩ }

/-- Steps that leave store and journal alone and only extend the logs. -/
theorem journaled_of_store_eq {before after : State S K V E F X}
    (store : after.store = before.store) (journal : after.journal = before.journal)
    (ceiling : after.ceiling = before.ceiling) (events : before.events <+: after.events)
    (sideEvents : before.sideEvents <+: after.sideEvents) : Journaled before after where
  journal entries kept := ⟨[], by simpa [journal] using kept, by rw [store]; exact reverts_nil _⟩
  events := events
  sideEvents := sideEvents
  ceiling := ceiling

/-- Whether a transaction commits. -/
def commits (state : State S K V E F X) (ran : Option Bool × State S K V E F X) : Prop :=
  ran.1 = some true ∧ ¬ (state.journal.isNone ∧ overCeiling ran.2)

/-- A committed transaction keeps what its action did and hands on its journal. -/
theorem applyAtomic_commit (ends : commits state (action { state with journal := some [] })) :
    applyAtomic action state =
      (true, { (action { state with journal := some [] }).2 with
        journal := state.journal.map fun entries =>
          entries ++ (action { state with journal := some [] }).2.journal.getD [] }) :=
  if_pos ends

/-- A failed transaction leaves the state as it was, up to `extra`. -/
theorem applyAtomic_rollback
    (journaled : Journaled { state with journal := some [] }
      (action { state with journal := some [] }).2)
    (fails : ¬ commits state (action { state with journal := some [] })) :
    (applyAtomic action state).1 = false ∧
      (applyAtomic action state).2.journal = state.journal ∧
      (applyAtomic action state).2.ceiling = state.ceiling ∧
      Same (applyAtomic action state).2
        { state with extra := (action { state with journal := some [] }).2.extra } := by
  have outcome : applyAtomic action state = _ := if_neg fails
  obtain ⟨added, grown, back⟩ := journaled.journal [] rfl
  rw [outcome]
  refine ⟨rfl, rfl, journaled.ceiling, ?_, ?_, ?_, rfl, rfl⟩
  · simp only [grown, Option.getD_some, List.nil_append]
    exact back
  · exact (List.prefix_iff_eq_take.mp journaled.events).symm
  · exact (List.prefix_iff_eq_take.mp journaled.sideEvents).symm

theorem applyAtomic_journaled
    (journaled : Journaled { state with journal := some [] }
      (action { state with journal := some [] }).2) :
    Journaled state (applyAtomic action state).2 := by
  by_cases ends : commits state (action { state with journal := some [] })
  · obtain ⟨added, grown, back⟩ := journaled.journal [] rfl
    rw [applyAtomic_commit ends]
    refine ⟨fun entries kept => ⟨added, ?_, back⟩, journaled.events, journaled.sideEvents,
      journaled.ceiling⟩
    simp [kept, grown]
  · obtain ⟨_, journal, ceiling, same⟩ := applyAtomic_rollback journaled ends
    refine ⟨fun entries kept => ⟨[], by simpa [journal] using kept, same.store⟩, ?_, ?_, ceiling⟩
    · rw [same.events]
    · rw [same.sideEvents]

/-- A transaction whose action ends as a plain run keeps what that run did, or restores the
state. -/
theorem applyAtomic_cases {ran : Option Bool × State S K V E F X} (same : Same first second)
    (journaled : Journaled { first with journal := some [] }
      (action { first with journal := some [] }).2)
    (outcome : (action { first with journal := some [] }).1 = ran.1)
    (after : Same (action { first with journal := some [] }).2 ran.2) :
    commits first (action { first with journal := some [] }) ∧
        (applyAtomic action first).1 = true ∧ ran.1 = some true ∧
        Same (applyAtomic action first).2 ran.2 ∨
      ¬ commits first (action { first with journal := some [] }) ∧
        (applyAtomic action first).1 = false ∧
        Same (applyAtomic action first).2 { second with extra := ran.2.extra } := by
  by_cases ends : commits first (action { first with journal := some [] })
  · rw [applyAtomic_commit ends]
    exact .inl ⟨ends, rfl, outcome.symm.trans ends.1, { after with }⟩
  · obtain ⟨failed, -, -, restored⟩ := applyAtomic_rollback journaled ends
    exact .inr ⟨ends, failed, restored.trans { same with extra := after.extra }⟩

/-- Every run keeps its journal. -/
theorem Program.exec_journaled (program : Program K V E F X α) (state : State S K V E F X) :
    Journaled state (program.exec state).2 := by
  induction program generalizing state with
  | done value => exact .refl state
  | panic => exact .refl state
  | read next hypothesis => exact hypothesis _ state
  | write key value next hypothesis =>
    exact (journaled_write state key value).trans (hypothesis _)
  | erase key next hypothesis =>
    exact (journaled_erase state key).trans (hypothesis _ _)
  | event pushed next hypothesis =>
    refine Journaled.trans ?_ (hypothesis { state with events := state.events ++ [pushed] })
    exact journaled_of_store_eq rfl rfl rfl (List.prefix_append _ _) List.prefix_rfl
  | sideEvent pushed next hypothesis =>
    refine Journaled.trans ?_
      (hypothesis { state with sideEvents := state.sideEvents ++ [pushed] })
    exact journaled_of_store_eq rfl rfl rfl List.prefix_rfl (List.prefix_append _ _)
  | setExtra extra next hypothesis =>
    refine Journaled.trans ?_ (hypothesis { state with extra := extra })
    exact journaled_of_store_eq rfl rfl rfl List.prefix_rfl List.prefix_rfl
  | atomic body next bodyHypothesis nextHypothesis =>
    exact (applyAtomic_journaled (bodyHypothesis _)).trans (nextHypothesis _ _)

section

variable (inserts : ∀ store key value, holds store → holds (KeyedStore.insert store key value))
  (removes : ∀ store key, holds store → holds (KeyedStore.remove store key))

include inserts removes

/-- What every insertion and every removal keeps of the store holds after undoing a journal. -/
theorem undo_keeps {store : S} (initially : holds store) (entries : List (Entry K V)) :
    holds (undo store entries) := by
  unfold undo
  induction entries.reverse generalizing store with
  | nil => exact initially
  | cons entry rest hypothesis =>
    refine hypothesis ?_
    unfold restore
    split
    · exact inserts _ _ _ initially
    · exact removes _ _ initially

theorem applyAtomic_keeps (acts : holds (action { state with journal := some [] }).2.store) :
    holds (applyAtomic action state).2.store := by
  unfold applyAtomic
  dsimp only
  split
  · exact acts
  · exact undo_keeps inserts removes acts _

/-- What every insertion and every removal keeps of the store, a program keeps, whether its
transactions commit or not. -/
theorem Program.exec_keeps (program : Program K V E F X α) (initially : holds state.store) :
    holds (program.exec state).2.store := by
  induction program generalizing state with
  | done value => exact initially
  | panic => exact initially
  | read next hypothesis => exact hypothesis _ initially
  | write key value next hypothesis =>
    exact hypothesis (inserts _ key value initially)
  | erase key next hypothesis => exact hypothesis _ (removes _ key initially)
  | event pushed next hypothesis => exact hypothesis initially
  | sideEvent pushed next hypothesis => exact hypothesis initially
  | setExtra extra next hypothesis => exact hypothesis initially
  | atomic body next bodyHypothesis nextHypothesis =>
    exact nextHypothesis _ (applyAtomic_keeps inserts removes (bodyHypothesis initially))

end

/-- Inside a transaction, running with journals is running plainly. Proof: by induction on the
program; an inner transaction is never held to the ceiling, commits when its plain run returns
true, and otherwise restores the state it started from. -/
theorem Program.exec_agrees (program : Program K V E F X α)
    (inside : first.journal.isSome) (same : Same first second) :
    (program.exec first).1 = (program.plain second).1 ∧
      Same (program.exec first).2 (program.plain second).2 := by
  induction program generalizing first second with
  | done value => exact ⟨rfl, same⟩
  | panic => exact ⟨rfl, same⟩
  | read next hypothesis =>
    rw [exec, plain, ← same.view_eq]
    exact hypothesis _ inside same
  | write key value next hypothesis =>
    exact hypothesis (by simpa [State.write, State.note]) (same.write key value)
  | erase key next hypothesis =>
    rw [exec, plain, show first.get key = second.get key from same.store key]
    exact hypothesis _ (by simpa [State.erase, State.note]) (same.erase key)
  | event pushed next hypothesis =>
    exact hypothesis inside { same with events := by simp [same.events] }
  | sideEvent pushed next hypothesis =>
    exact hypothesis inside { same with sideEvents := by simp [same.sideEvents] }
  | setExtra extra next hypothesis =>
    exact hypothesis inside { same with extra := rfl }
  | atomic body next bodyHypothesis nextHypothesis =>
    have entered : Same { first with journal := some [] } second := { same with }
    obtain ⟨outcome, after⟩ := bodyHypothesis rfl entered
    have journaled := body.exec_journaled { first with journal := some [] }
    obtain ⟨entries, kept⟩ := Option.isSome_iff_exists.mp inside
    obtain ⟨added, grown, -⟩ := (applyAtomic_journaled journaled).journal entries kept
    have stays : (applyAtomic body.exec first).2.journal.isSome := by simp [grown]
    rcases applyAtomic_cases same journaled outcome after with
      ⟨-, done, returned, same⟩ | ⟨fails, failed, same⟩
    · have plainly : (atomic body next).plain second =
          (next true).plain (body.plain second).2 := if_pos returned
      rw [exec, plainly, done]
      exact nextHypothesis true stays same
    · have refused : (body.plain second).1 ≠ some true :=
        fun returned => fails ⟨outcome.trans returned, by simp [kept]⟩
      have plainly : (atomic body next).plain second =
          (next false).plain { second with extra := (body.plain second).2.extra } :=
        if_neg refused
      rw [exec, plainly, failed]
      exact nextHypothesis false stays same

/-- A plain run does not move the ceiling. -/
theorem Program.plain_ceiling (program : Program K V E F X α) (state : State S K V E F X) :
    (program.plain state).2.ceiling = state.ceiling := by
  induction program generalizing state with
  | done value => rfl
  | panic => rfl
  | read next hypothesis => exact hypothesis _ state
  | write key value next hypothesis => exact hypothesis _
  | erase key next hypothesis => exact hypothesis _ _
  | event pushed next hypothesis => exact hypothesis { state with events := state.events ++ [pushed] }
  | sideEvent pushed next hypothesis =>
    exact hypothesis { state with sideEvents := state.sideEvents ++ [pushed] }
  | setExtra extra next hypothesis => exact hypothesis { state with extra := extra }
  | atomic body next bodyHypothesis nextHypothesis =>
    rw [plain]
    split
    · exact (nextHypothesis true _).trans (bodyHypothesis state)
    · exact nextHypothesis false { state with extra := (body.plain state).2.extra }

section Plainly

variable (program : Program K V E F X Bool) (state : State S K V E F X)

theorem entered_agrees :
    (program.exec { state with journal := some [] }).1 = (program.plain state).1 ∧
      Same (program.exec { state with journal := some [] }).2 (program.plain state).2 :=
  program.exec_agrees rfl { Same.refl state with }

/-- A transaction opened outside any other is the plain run when that returns true within the
ceiling, and restores the state otherwise. -/
theorem applyAtomic_agrees (outermost : state.journal = none) :
    if (program.plain state).1 = some true ∧ ¬ overCeiling (program.plain state).2 then
      (applyAtomic program.exec state).1 = true ∧
        Same (applyAtomic program.exec state).2 (program.plain state).2
    else
      (applyAtomic program.exec state).1 = false ∧
        Same (applyAtomic program.exec state).2
          { state with extra := (program.plain state).2.extra } := by
  obtain ⟨outcome, after⟩ := entered_agrees program state
  have journaled := program.exec_journaled { state with journal := some [] }
  have ceilings : overCeiling (program.exec { state with journal := some [] }).2 =
      overCeiling (program.plain state).2 := by
    rw [overCeiling, overCeiling, journaled.ceiling, program.plain_ceiling, after.fresh]
  have commitIff : commits state (program.exec { state with journal := some [] }) ↔
      (program.plain state).1 = some true ∧ ¬ overCeiling (program.plain state).2 := by
    simp [commits, outcome, ceilings, outermost]
  rcases applyAtomic_cases (.refl state) journaled outcome after with
    ⟨ends, done, -, same⟩ | ⟨fails, failed, same⟩
  · rw [if_pos (commitIff.mp ends)]
    exact ⟨done, same⟩
  · rw [if_neg fun holds => fails (commitIff.mpr holds)]
    exact ⟨failed, same⟩

/-- A transaction, opened inside another or not, ends as the plain run does or where it began. -/
theorem applyAtomic_outcome :
    (applyAtomic program.exec state).1 = true ∧ (program.plain state).1 = some true ∧
        Same (applyAtomic program.exec state).2 (program.plain state).2 ∨
      (applyAtomic program.exec state).1 = false ∧
        Same (applyAtomic program.exec state).2
          { state with extra := (program.plain state).2.extra } := by
  obtain ⟨outcome, after⟩ := entered_agrees program state
  exact (applyAtomic_cases (.refl state) (program.exec_journaled _) outcome after).imp
    And.right And.right

end Plainly

end Running

end Transaction
