import Mathlib.Data.List.Basic

/-!
# Acts that can be interrupted

A call changes the world by a list of acts, one after another, and it can be interrupted between any
two of them. What is shown of such a call is where all of its acts lead, and that every state on the
way is a safe one to be interrupted in.
-/

namespace Acts

variable {σ α : Type} (perform : σ → α → σ) (safe : σ → Prop)

/-- The acts lead to a state with a property, through safe states only. -/
def Leads : σ → List α → (σ → Prop) → Prop
  | state, [], goal => safe state ∧ goal state
  | state, act :: rest, goal => safe state ∧ Leads (perform state act) rest goal

variable {perform safe}

variable {state : σ} {goal : σ → Prop} {acts : List α}

/-- All of the acts together lead to the goal. By induction on the acts, as each leads on to the
rest. -/
theorem Leads.reaches
    (leads : Leads perform safe state acts goal) : goal (acts.foldl perform state) := by
  induction acts generalizing state with
  | nil => exact leads.2
  | cons act rest hypothesis => exact hypothesis leads.2

/-- After any number of the acts, also none or all of them, the state is a safe one. -/
theorem Leads.interrupted (leads : Leads perform safe state acts goal) (count : Nat) :
    safe ((acts.take count).foldl perform state) := by
  induction acts generalizing state count with
  | nil =>
    rw [List.take_nil]
    exact leads.1
  | cons act rest hypothesis =>
    cases count with
    | zero => exact leads.1
    | succ count => exact hypothesis leads.2 count

/-- The same acts lead to whatever follows from the goal. -/
theorem Leads.mono {other : σ → Prop}
    (leads : Leads perform safe state acts goal) (onward : ∀ state, goal state → other state) :
    Leads perform safe state acts other := by
  induction acts generalizing state with
  | nil => exact ⟨leads.1, onward state leads.2⟩
  | cons act rest hypothesis => exact ⟨leads.1, hypothesis leads.2⟩

/-- Acts that lead on from the goal of others may follow them, and the states between stay safe. -/
theorem Leads.append {first second : List α} {middle : σ → Prop}
    (leads : Leads perform safe state first middle)
    (onward : ∀ state, middle state → Leads perform safe state second goal) :
    Leads perform safe state (first ++ second) goal := by
  induction first generalizing state with
  | nil => exact onward state leads.2
  | cons act rest hypothesis => exact ⟨leads.1, hypothesis leads.2⟩

end Acts
