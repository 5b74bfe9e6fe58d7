import Mathlib.Data.List.Basic

/-!
# A memory of accepted questions in two generations

A memo keeps the keys of questions that were answered with yes. When the current generation is full
it becomes the previous one, whose keys are forgotten. If questions of equal key have equal answers,
asking through the memo is asking directly, however often the generations turn.
-/

structure Memo (κ : Type*) where
  current : List κ := []
  previous : List κ := []

namespace Memo

variable {κ : Type*} [DecidableEq κ] {memo : Memo κ} {limit : Nat}

def remembers (memo : Memo κ) (key : κ) : Bool :=
  memo.current.contains key || memo.previous.contains key

/-- Keeps a key in the current generation, after turning a full one. -/
def remember (memo : Memo κ) (limit : Nat) (key : κ) : Memo κ :=
  if limit ≤ memo.current.length then { current := [key], previous := memo.current }
  else { memo with current := memo.current.insert key }

/-- Answers a question by its key if that is remembered, and else by the answer itself, of which a
yes is remembered. -/
def ask (memo : Memo κ) (limit : Nat) (key : κ) (answer : Bool) : Bool × Memo κ :=
  if memo.remembers key then (true, memo)
  else if answer then (true, memo.remember limit key)
  else (false, memo)

/-- Everything that is remembered satisfies a property. -/
def Keeps (memo : Memo κ) (property : κ → Prop) : Prop :=
  ∀ key, memo.remembers key → property key

theorem keeps_empty {property : κ → Prop} : ({} : Memo κ).Keeps property :=
  fun _ remembered => nomatch remembered

theorem Keeps.remember {property : κ → Prop} (keeps : memo.Keeps property) {key : κ}
    (holds : property key) : (memo.remember limit key).Keeps property := by
  intro other remembered
  have known := keeps other
  simp only [remembers, Memo.remember] at remembered known
  grind

/-- When every remembered key is that of a yes and the answer agrees with the key's other answers,
asking through the memo gives the answer. -/
theorem Keeps.ask {yes : κ → Prop} (keeps : memo.Keeps yes) (limit : Nat) {key : κ} {answer : Bool}
    (sound : yes key → answer) (holds : answer → yes key) :
    (memo.ask limit key answer).1 = answer ∧ (memo.ask limit key answer).2.Keeps yes := by
  unfold Memo.ask
  split_ifs with remembered accepted
  · exact ⟨(sound (keeps key remembered)).symm, keeps⟩
  · exact ⟨accepted.symm, keeps.remember (holds accepted)⟩
  · exact ⟨(Bool.eq_false_iff.mpr accepted).symm, keeps⟩

end Memo
