import Mathlib.Data.List.Basic

/-!
# Shared cells with counted holders

A cell is held by any number of holders and knows how many there are. A holder that is alone may
write in place; another one writes a copy in a new cell and lets go of the old. As long as the
counts are those of the holders, no write is seen by anyone but its writer.
-/

/-- A store of shared cells: what each cell holds, the number of its holders, and the first cell
that was never used. -/
structure Arena (α : Type) where
  read : Nat → α
  count : Nat → Nat
  next : Nat

namespace Arena

variable {α : Type}

/-- The store without cells. -/
def empty (value : α) : Arena α := ⟨fun _ => value, fun _ => 0, 0⟩

/-- Takes the next cell for one holder. -/
def alloc (arena : Arena α) (value : α) : Arena α where
  read := Function.update arena.read arena.next value
  count := Function.update arena.count arena.next 1
  next := arena.next + 1

/-- One more holder. -/
def share (arena : Arena α) (cell : Nat) : Arena α :=
  { arena with count := Function.update arena.count cell (arena.count cell + 1) }

/-- One holder less. -/
def release (arena : Arena α) (cell : Nat) : Arena α :=
  { arena with count := Function.update arena.count cell (arena.count cell - 1) }

/-- Whether a cell has a single holder. -/
def unique (arena : Arena α) (cell : Nat) : Bool := arena.count cell = 1

/-- Writes in place. -/
def write (arena : Arena α) (cell : Nat) (value : α) : Arena α :=
  { arena with read := Function.update arena.read cell value }

/-- A holder's edit: in place where it is alone, and else in a cell of its own. The cell it holds
from then on comes with the store. -/
def makeMut (arena : Arena α) (cell : Nat) (edit : α → α) : Arena α × Nat :=
  if arena.unique cell then (arena.write cell (edit (arena.read cell)), cell)
  else ((arena.release cell).alloc (edit (arena.read cell)), arena.next)

/-- The counts are those of the holders, and every holder has a cell in use. -/
structure Held (arena : Arena α) (holders : List (Option Nat)) : Prop where
  counted : ∀ cell, arena.count cell = holders.count (some cell)
  used : ∀ cell, some cell ∈ holders → cell < arena.next

variable {arena : Arena α} {holders : List (Option Nat)} {index other cell another : Nat}

theorem held_empty (value : α) : (empty value).Held [] := ⟨fun _ => rfl, nofun⟩

theorem Held.next_count (held : arena.Held holders) : holders.count (some arena.next) = 0 := by
  rw [List.count_eq_zero]
  exact fun listed => Nat.lt_irrefl _ (held.used _ listed)

theorem held_alloc (held : arena.Held holders) (value : α) :
    (arena.alloc value).Held (holders ++ [some arena.next]) := by
  refine ⟨fun cell => ?_, fun cell listed => ?_⟩
  · rw [List.count_append, List.count_singleton]
    by_cases here : cell = arena.next
    · simp [alloc, here, held.next_count]
    · simp [alloc, here, Ne.symm here, held.counted]
  · rcases List.mem_append.mp listed with before | last
    · exact Nat.lt_succ_of_lt (held.used cell before)
    · obtain rfl : cell = arena.next := by simpa using last
      exact Nat.lt_succ_self _

theorem held_share (held : arena.Held holders) (listed : some cell ∈ holders) :
    (arena.share cell).Held (holders ++ [some cell]) := by
  refine ⟨fun other => ?_, fun other found => ?_⟩
  · rw [List.count_append, List.count_singleton]
    by_cases here : other = cell
    · simp [share, here, held.counted]
    · simp [share, here, Ne.symm here, held.counted]
  · rcases List.mem_append.mp found with before | last
    · exact held.used other before
    · obtain rfl : other = cell := by simpa using last
      exact held.used other listed

/-- What a holder that changes its cell does to the counts. -/
theorem count_set_holder (holds : holders[index]? = some (some cell)) (new : Option Nat)
    (other : Nat) :
    (holders.set index new).count (some other) =
      holders.count (some other) - (if cell = other then 1 else 0) +
        (if new = some other then 1 else 0) := by
  obtain ⟨inside, here⟩ := List.getElem?_eq_some_iff.mp holds
  rw [List.count_set inside, here]
  simp

theorem held_release (held : arena.Held holders) (holds : holders[index]? = some (some cell)) :
    (arena.release cell).Held (holders.set index none) := by
  refine ⟨fun other => ?_, fun other listed => ?_⟩
  · rw [count_set_holder holds]
    by_cases here : other = cell
    · simp [release, here, held.counted]
    · simp [release, here, Ne.symm here, held.counted]
  · rcases List.mem_or_eq_of_mem_set listed with before | absurd
    · exact held.used other before
    · cases absurd

theorem held_write (held : arena.Held holders) (cell : Nat) (value : α) :
    (arena.write cell value).Held holders :=
  ⟨held.counted, held.used⟩

/-- A cell with a single holder has no other. -/
theorem Held.alone (held : arena.Held holders) (single : arena.unique cell = true)
    (holds : holders[index]? = some (some cell)) (also : holders[other]? = some (some cell)) :
    other = index := by
  by_contra apart
  have one : holders.count (some cell) = 1 := by
    rw [← held.counted]
    simpa [unique] using single
  have gone := count_set_holder holds none cell
  rw [one, if_pos rfl, if_neg nofun] at gone
  have listed : some cell ∈ holders.set index none := by
    apply List.mem_of_getElem? (i := other)
    rw [List.getElem?_set_ne (Ne.symm apart), also]
  have positive := List.count_pos_iff.mpr listed
  omega

theorem held_makeMut (held : arena.Held holders) (holds : holders[index]? = some (some cell))
    (edit : α → α) :
    (arena.makeMut cell edit).1.Held (holders.set index (some (arena.makeMut cell edit).2)) := by
  unfold makeMut
  split
  · obtain ⟨inside, here⟩ := List.getElem?_eq_some_iff.mp holds
    rw [← here, List.set_getElem_self]
    exact held_write held _ _
  · have below := held.used cell (List.mem_of_getElem? holds)
    have apart : cell ≠ arena.next := Nat.ne_of_lt below
    refine ⟨fun other => ?_, fun other listed => ?_⟩
    · rw [count_set_holder holds]
      by_cases fresh : other = arena.next
      · simp [alloc, release, fresh, apart, held.next_count]
      · by_cases here : other = cell
        · simp [alloc, release, here, apart, Ne.symm apart, held.counted]
        · simp [alloc, release, fresh, here, Ne.symm fresh, Ne.symm here, held.counted]
    · rcases List.mem_or_eq_of_mem_set listed with before | new
      · exact Nat.lt_succ_of_lt (held.used other before)
      · obtain rfl : other = arena.next := by simpa using new
        exact Nat.lt_succ_self _

/-- The writer reads its edit. -/
theorem read_makeMut_self (arena : Arena α) (cell : Nat) (edit : α → α) :
    (arena.makeMut cell edit).1.read (arena.makeMut cell edit).2 = edit (arena.read cell) := by
  unfold makeMut
  split
  · exact Function.update_self ..
  · exact Function.update_self ..

/-- A write in place is not seen by the other holders. -/
theorem Held.read_write (held : arena.Held holders) (single : arena.unique cell = true)
    (holds : holders[index]? = some (some cell)) (also : holders[other]? = some (some another))
    (apart : other ≠ index) (value : α) :
    (arena.write cell value).read another = arena.read another := by
  refine Function.update_of_ne ?_ _ _
  rintro rfl
  exact apart (held.alone single holds also)

/-- A new cell is not seen by the holders there were. -/
theorem Held.read_alloc (held : arena.Held holders) (also : holders[other]? = some (some another))
    (value : α) : (arena.alloc value).read another = arena.read another :=
  Function.update_of_ne (Nat.ne_of_lt (held.used another (List.mem_of_getElem? also))) _ _

/-- An edit is not seen by the other holders. -/
theorem Held.read_makeMut (held : arena.Held holders) (holds : holders[index]? = some (some cell))
    (also : holders[other]? = some (some another)) (apart : other ≠ index) (edit : α → α) :
    (arena.makeMut cell edit).1.read another = arena.read another := by
  unfold makeMut
  split
  next single => exact held.read_write single holds also apart _
  next =>
    exact Function.update_of_ne (Nat.ne_of_lt (held.used another (List.mem_of_getElem? also))) _ _

end Arena
