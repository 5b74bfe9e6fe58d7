import Mathlib.Data.List.Basic

/-!
# Sequences of frames

Items are written one after another, each as a frame of its own. Where such a sequence is cut, some
frames lie wholly before the cut, and what is left of the next one is a proper beginning of it.
-/

namespace Frames

variable {α β : Type} (encode : α → List β)

/-- The frames of items, one after another. -/
def written (items : List α) : List β := items.flatMap encode

/-- The items whose frames lie wholly within the first elements. -/
def whole : List α → Nat → List α
  | [], _ => []
  | item :: rest, count =>
    if (encode item).length ≤ count then item :: whole rest (count - (encode item).length) else []

/-- What is left of the frame that a cut goes through. -/
def torn (items : List α) (count : Nat) : List β :=
  ((written encode items).take count).drop (written encode (whole encode items count)).length

section

variable {encode}

@[simp] theorem written_nil : written encode [] = [] := rfl

@[simp] theorem written_cons (item : α) (rest : List α) :
    written encode (item :: rest) = encode item ++ written encode rest := by
  simp [written]

@[simp] theorem written_append (first second : List α) :
    written encode (first ++ second) = written encode first ++ written encode second := by
  simp [written]

theorem mem_of_mem_whole {items : List α} {count : Nat} {item : α}
    (member : item ∈ whole encode items count) : item ∈ items := by
  induction items generalizing count with
  | nil => exact member
  | cons first rest hypothesis =>
    unfold whole at member
    split at member
    next =>
      rcases List.mem_cons.mp member with rfl | later
      · exact List.mem_cons_self
      · exact List.mem_cons_of_mem _ (hypothesis later)
    next => cases member

/-- A cut behind the end leaves every frame whole. -/
theorem whole_of_le {items : List α} {count : Nat} (long : (written encode items).length ≤ count) :
    whole encode items count = items := by
  induction items generalizing count with
  | nil => rfl
  | cons item rest hypothesis =>
    rw [written_cons, List.length_append] at long
    rw [whole, if_pos (by omega), hypothesis (by omega)]

end

theorem take_written_eq (items : List α) (count : Nat) :
    ∃ left, (written encode items).take count = written encode (whole encode items count) ++ left ∧
      (left = [] ∨ ∃ item missing, item ∈ items ∧ missing ≠ [] ∧ left ++ missing = encode item) := by
  induction items generalizing count with
  | nil => exact ⟨[], by simp [whole], .inl rfl⟩
  | cons first rest hypothesis =>
    unfold whole
    split
    next fits =>
      obtain ⟨left, cut, shape⟩ := hypothesis (count - (encode first).length)
      refine ⟨left, ?_, shape.imp id ?_⟩
      · rw [written_cons, written_cons, List.take_append, List.take_of_length_le fits, cut,
          List.append_assoc]
      · rintro ⟨item, missing, member, filled, shape⟩
        exact ⟨item, missing, List.mem_cons_of_mem _ member, filled, shape⟩
    next short =>
      have below := Nat.not_le.mp short
      refine ⟨(encode first).take count, ?_, .inr ⟨first, (encode first).drop count,
        List.mem_cons_self, ?_, List.take_append_drop _ _⟩⟩
      · rw [written_cons, written_nil, List.nil_append,
          List.take_append_of_le_length (Nat.le_of_lt below)]
      · intro empty
        exact short (List.drop_eq_nil_iff.mp empty)

/-- A cut leaves the whole frames and what is left of the next. -/
theorem take_written (items : List α) (count : Nat) :
    (written encode items).take count =
      written encode (whole encode items count) ++ torn encode items count := by
  obtain ⟨left, cut, -⟩ := take_written_eq encode items count
  rw [torn, cut, List.drop_left]

/-- What is left of a frame is nothing, or a proper beginning of it. -/
theorem torn_shape (items : List α) (count : Nat) :
    torn encode items count = [] ∨ ∃ item missing, item ∈ items ∧ missing ≠ [] ∧
      torn encode items count ++ missing = encode item := by
  obtain ⟨left, cut, shape⟩ := take_written_eq encode items count
  rwa [torn, cut, List.drop_left]

end Frames
