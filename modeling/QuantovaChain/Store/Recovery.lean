import QuantovaChain.Store.Log

/-!
# Recovery of logs

A log whose last write was cut short is opened with the payloads whose frames are whole, and what is
appended afterwards is read back behind them. The strict way of opening has to look at every place
of the torn bytes for a frame first, and gives up when there are too many places, or too many bytes
to check at them. A log that is damaged in the middle is refused by the strict way of opening, and
its file is left alone.
-/

namespace QuantovaChain.Store

open State (Bytes)
open Frames (written whole torn)

/-- A visitor that notes every payload. -/
def collect : Visitor (List Bytes) := fun seen payload _ _ => (seen ++ [payload], true)

theorem accepts_collect (payloads : List Bytes) : Accepts collect payloads := fun _ _ _ _ _ => rfl

theorem visited_collect (salt : Salt) (position : Nat) (seen payloads : List Bytes) :
    visited collect salt position seen payloads = seen ++ payloads := by
  induction payloads generalizing position seen with
  | nil => rw [visited, List.append_nil]
  | cons payload rest hypothesis =>
    rw [visited, hypothesis, collect, List.append_assoc, List.singleton_append]

theorem not_wellFormed_nil (salt : Salt) : ¬ WellFormed salt [] := by
  rintro ⟨_, _, read⟩
  cases read

theorem absent_of_lt {salt : Salt} {bytes : Bytes}
    (absent : ∀ place < bytes.length, ¬ WellFormed salt (bytes.drop place)) (place : Nat) :
    ¬ WellFormed salt (bytes.drop place) := by
  by_cases inside : place < bytes.length
  · exact absent place inside
  · rw [List.drop_eq_nil_of_le (Nat.not_lt.mp inside)]
    exact not_wellFormed_nil salt

theorem affordable_nil : Affordable [] := ⟨Nat.zero_le _, Nat.zero_le _⟩

/-! ## Torn tails -/

section Strict

variable {σ : Type} {visit : Visitor σ} {salt : Salt} {tail : Bytes}

theorem scanLoop_ends (ends : Ends salt tail)
    (absent : ∀ place, ¬ WellFormed salt (tail.drop place)) (rounds position : Nat) (state : σ) :
    scanLoop ⟨true, true⟩ visit salt (rounds + 1) position state tail =
      if Affordable (tail.drop lengthWidth) then .ok (state, position)
      else .error corruptMiddle := by
  rcases ends with short | overrun
  · have empty : tail.drop lengthWidth = [] :=
      List.drop_eq_nil_of_le (Nat.le_of_lt (length_lt_of_short short))
    rw [empty, if_pos affordable_nil, scanLoop, short]
  · have later : ∀ place, ¬ WellFormed salt ((tail.drop lengthWidth).drop place) := by
      intro place
      rw [List.drop_drop]
      exact absent _
    rw [scanLoop, overrun]
    simp only [scanLoop.unreadable, if_true, aWellFormedFrameFollows_of_none later]
    by_cases affordable : Affordable (tail.drop lengthWidth)
    · rw [if_pos affordable, if_pos affordable]
      rfl
    · rw [if_neg affordable, if_neg affordable]
      rfl

theorem openScannedStrict_written (fresh : Salt) (start : σ) {payloads : List Bytes}
    (accepts : Accepts visit payloads) (small : ∀ payload ∈ payloads, payload.length < 2 ^ 64)
    (ends : Ends salt tail) (absent : ∀ place, ¬ WellFormed salt (tail.drop place)) :
    openScannedStrict fresh visit start (header salt ++ (written (frame salt) payloads ++ tail)) =
      if Affordable (tail.drop lengthWidth) then
        (header salt ++ written (frame salt) payloads,
          .ok (salt, visited visit salt headerLen start payloads))
      else (header salt ++ (written (frame salt) payloads ++ tail), .error corruptMiddle) := by
  obtain ⟨spare, rounds⟩ := rounds_left salt payloads tail
  rw [openScannedStrict, scanOpenParts, prepareHeader_header]
  simp only [List.drop_left' (length_header salt), rounds, scanLoop_written accepts small,
    scanLoop_ends ends absent]
  by_cases affordable : Affordable (tail.drop lengthWidth)
  · simp only [if_pos affordable]
    split
    next => rw [← List.append_assoc, List.take_left' (by simp)]
    next enough =>
      have empty : tail = [] := by
        simp only [List.length_append, length_header, true_and] at enough
        exact List.eq_nil_of_length_eq_zero (by omega)
      rw [empty, List.append_nil]
  · simp only [if_neg affordable]

end Strict

/-- The file of a log that was cut somewhere behind its header. -/
theorem take_file (salt : Salt) (payloads : List Bytes) (cut : Nat) :
    (appendAll salt (header salt) payloads).take (headerLen + cut) =
      header salt ++ (written (frame salt) (whole (frame salt) payloads cut) ++
        torn (frame salt) payloads cut) := by
  rw [appendAll, ← length_header salt, List.take_length_add_append, Frames.take_written]

/-- A log that was cut somewhere behind its header is opened with the payloads whose frames are
whole, by the strict way if the torn bytes are affordable to look through and else not at all. What
is appended to the opened log is read back behind these payloads. The scan stops at the torn frame,
and the search behind it finds no other. -/
theorem torn_tail_recovered (salt fresh again : Salt) (payloads more : List Bytes)
    (small : ∀ payload ∈ payloads ++ more, payload.length < 2 ^ 64) (cut : Nat)
    (absent : ∀ place < (torn (frame salt) payloads cut).length,
      ¬ WellFormed salt ((torn (frame salt) payloads cut).drop place)) :
    let file := (appendAll salt (header salt) payloads).take (headerLen + cut)
    let kept := whole (frame salt) payloads cut
    let recovered := header salt ++ written (frame salt) kept
    Log.openLog fresh file = (recovered, .ok (salt, kept)) ∧
      openScannedStrict fresh collect [] file =
        (if Affordable ((torn (frame salt) payloads cut).drop lengthWidth) then
          (recovered, .ok (salt, kept))
        else (file, .error corruptMiddle)) ∧
      Log.openLog again (appendAll salt recovered more) =
        (appendAll salt recovered more, .ok (salt, kept ++ more)) ∧
      openScannedStrict again collect [] (appendAll salt recovered more) =
        (appendAll salt recovered more, .ok (salt, kept ++ more)) := by
  intro file kept recovered
  have smallAll : ∀ payload ∈ payloads, payload.length < 2 ^ 64 :=
    (List.forall_mem_append.mp small).1
  have smallKept : ∀ payload ∈ kept, payload.length < 2 ^ 64 :=
    fun payload member => smallAll payload (Frames.mem_of_mem_whole member)
  have smallLater : ∀ payload ∈ kept ++ more, payload.length < 2 ^ 64 :=
    List.forall_mem_append.mpr ⟨smallKept, (List.forall_mem_append.mp small).2⟩
  have ends := ends_torn salt smallAll cut
  have fileEq : file = header salt ++ (written (frame salt) kept ++ torn (frame salt) payloads cut) :=
    take_file salt payloads cut
  have appended : appendAll salt recovered more =
      header salt ++ (written (frame salt) (kept ++ more) ++ []) := by
    rw [appendAll, Frames.written_append, List.append_nil, List.append_assoc]
  have nothing : ∀ place, ¬ WellFormed salt (([] : Bytes).drop place) := by
    intro place
    rw [List.drop_nil]
    exact not_wellFormed_nil salt
  refine ⟨?_, ?_, ?_, ?_⟩
  · rw [fileEq]
    exact open_written smallKept fresh ends
  · have opened := openScannedStrict_written fresh [] (accepts_collect kept) smallKept ends
      (absent_of_lt absent)
    rw [visited_collect, List.nil_append] at opened
    rw [fileEq]
    exact opened
  · rw [appended, open_written smallLater again (ends_nil salt), List.append_nil]
  · have opened := openScannedStrict_written again [] (accepts_collect (kept ++ more)) smallLater
      (ends_nil salt) nothing
    rw [List.drop_nil, if_pos affordable_nil, visited_collect, List.nil_append] at opened
    rw [appended, opened, List.append_nil]

/-- The words "one" and "two" were appended, and the last two bytes of the file are lost. -/
theorem torn_tail_recovered_one :
    let salt : Salt := Vector.replicate 16 7
    let payloads : List Bytes := [[111, 110, 101], [116, 119, 111]]
    openScannedStrict salt collect []
        ((appendAll salt (header salt) payloads).take (headerLen + 28)) =
      (header salt ++ written (frame salt) [[111, 110, 101]], .ok (salt, [[111, 110, 101]])) := by
  intro salt payloads
  have recovered := (torn_tail_recovered salt salt salt payloads [] (by decide) 28
    (by decide +kernel)).2.1
  have affordable : Affordable ((torn (frame salt) payloads 28).drop lengthWidth) := by
    decide +kernel
  have kept : whole (frame salt) payloads 28 = [[111, 110, 101]] := by decide +kernel
  rw [if_pos affordable, kept] at recovered
  exact recovered

/-! ## Torn bytes that are too many to look through -/

/-- No frame starts where the highest byte of the length is large. -/
theorem not_wellFormed_of_high {salt : Salt} {bytes : Bytes} (high : bytes[7]? = some 255)
    (small : bytes.length < 2 ^ 63) : ¬ WellFormed salt bytes := by
  rintro ⟨payload, frameEnd, read⟩
  have front : bytes.take lengthWidth = bytes.take 7 ++ [255] := by
    rw [lengthWidth, List.take_add_one, high]
    rfl
  have seven : (bytes.take 7).length = 7 := by
    have inside := (List.getElem?_eq_some_iff.mp high).1
    rw [List.length_take]
    omega
  have large : 2 ^ 63 ≤ Word.natOfLe (bytes.take lengthWidth) := by
    rw [front, Word.natOfLe_append, seven]
    have one : Word.natOfLe [255] = 255 := rfl
    omega
  unfold readFrame at read
  split at read
  next => cases read
  next =>
    simp only at read
    rw [if_pos (by omega)] at read
    cases read

/-- One payload of more than sixteen mebibytes. -/
def largePayload : Bytes := List.replicate (2 ^ 24 + 8) 255

theorem length_largePayload : largePayload.length = 2 ^ 24 + 8 := List.length_replicate

/-- The payload was written, and the checksum behind it is lost. -/
theorem torn_largePayload (salt : Salt) :
    whole (frame salt) [largePayload] (2 ^ 24 + 16) = [] ∧
      torn (frame salt) [largePayload] (2 ^ 24 + 16) = Codec.putBytes largePayload := by
  have missing : ¬ (frame salt largePayload).length ≤ 2 ^ 24 + 16 := by
    rw [length_frame, length_largePayload]
    simp [lengthWidth, checksumWidth]
  have nothing : whole (frame salt) [largePayload] (2 ^ 24 + 16) = [] := by
    rw [whole, if_neg missing]
  refine ⟨nothing, ?_⟩
  rw [torn, nothing, Frames.written_nil, List.length_nil, List.drop_zero, Frames.written_cons,
    Frames.written_nil, List.append_nil, frame]
  apply List.take_left'
  rw [length_putBytes, length_largePayload]
  rfl

theorem absent_largePayload (salt : Salt) (place : Nat) :
    ¬ WellFormed salt ((Codec.putBytes largePayload).drop place) := by
  have total : (Codec.putBytes largePayload).length = 2 ^ 24 + 16 := by
    rw [length_putBytes, length_largePayload]
    rfl
  by_cases far : 2 ^ 24 + 16 < place + 8
  · rintro ⟨payload, frameEnd, read⟩
    rw [readFrame, if_pos (by rw [List.length_drop, total, lengthWidth]; omega)] at read
    cases read
  · cases place with
    | zero =>
      rintro ⟨payload, frameEnd, read⟩
      have shape : Codec.putBytes largePayload ++
          Crc.stored (salt.toList ++ Codec.putBytes largePayload) = frame salt largePayload := rfl
      have filled : Crc.stored (salt.toList ++ Codec.putBytes largePayload) ≠ [] := by
        intro empty
        cases (Crc.length_stored _).symm.trans (congrArg List.length empty)
      have small : largePayload.length < 2 ^ 64 := by
        rw [length_largePayload]
        decide
      rcases readFrame_torn small filled shape with short | overrun
      · cases short.symm.trans read
      · cases overrun.symm.trans read
    | succ place =>
      refine not_wellFormed_of_high ?_ ?_
      · have behind : (Codec.putU64 (Word.clamp 64 largePayload.length)).length ≤ place + 1 + 7 := by
          simp [Codec.putU64]
        rw [List.getElem?_drop, Codec.putBytes, List.getElem?_append_right behind, largePayload,
          List.getElem?_replicate_of_lt]
        simp only [Codec.putU64, Word.length_leBytes]
        omega
      · rw [List.length_drop, total]
        omega

/-- A torn frame of more than sixteen mebibytes, without a frame in it, is refused by the strict way
of opening. -/
theorem torn_tail_gives_up :
    let salt : Salt := Vector.replicate 16 0
    let file := (appendAll salt (header salt) [largePayload]).take (headerLen + (2 ^ 24 + 16))
    (∀ place < (torn (frame salt) [largePayload] (2 ^ 24 + 16)).length,
      ¬ WellFormed salt ((torn (frame salt) [largePayload] (2 ^ 24 + 16)).drop place)) ∧
    openScannedStrict salt collect [] file = (file, .error corruptMiddle) := by
  intro salt file
  obtain ⟨nothing, remains⟩ := torn_largePayload salt
  have fileEq : file = header salt ++ (written (frame salt) [] ++ Codec.putBytes largePayload) := by
    have cut := take_file salt [largePayload] (2 ^ 24 + 16)
    rwa [nothing, remains] at cut
  have ends : Ends salt (Codec.putBytes largePayload) := by
    rw [← remains]
    refine ends_torn salt ?_ _
    intro payload member
    rw [List.mem_singleton.mp member, length_largePayload]
    decide
  have many : ¬ Affordable ((Codec.putBytes largePayload).drop lengthWidth) := by
    rintro ⟨places, -⟩
    rw [List.length_drop, length_putBytes, length_largePayload, lengthWidth, maxResyncProbes] at places
    omega
  refine ⟨?_, ?_⟩
  · intro place _
    rw [remains]
    exact absent_largePayload salt place
  · rw [fileEq, openScannedStrict_written salt [] (accepts_collect []) (List.forall_mem_nil _) ends
      (absent_largePayload salt), if_neg many]

/-! ## Damage in the middle -/

/-- A log in which the bytes of a frame that is not the last were replaced by others is refused by
the strict way of opening, if no frame starts in them, and its file stays as it is. The scan stops
at the damage, and the search behind it meets the next frame. -/
theorem damaged_log_refused {σ : Type} (visit : Visitor σ) (start : σ) (salt fresh : Salt)
    (before after : List Bytes) (payload damaged : Bytes)
    (small : ∀ payload ∈ before ++ after, payload.length < 2 ^ 64) (more : after ≠ [])
    (sized : damaged.length = (frame salt payload).length)
    (absent : ∀ place < damaged.length,
      ¬ WellFormed salt ((damaged ++ written (frame salt) after).drop place)) :
    let file := header salt ++ (written (frame salt) before ++
      (damaged ++ written (frame salt) after))
    ∃ message, openScannedStrict fresh visit start file = (file, .error message) := by
  intro file
  rw [length_frame] at sized
  obtain ⟨next, later, rfl⟩ := List.exists_cons_of_ne_nil more
  have behind : WellFormed salt
      (((damaged ++ written (frame salt) (next :: later)).drop lengthWidth).drop
        (damaged.length - lengthWidth)) := by
    rw [List.drop_drop, show lengthWidth + (damaged.length - lengthWidth) = damaged.length by omega,
      List.drop_left, Frames.written_cons]
    exact wellFormed_frame (small next (by simp)) _
  have refused : ∀ rounds position state, ∃ message,
      scanLoop ⟨true, true⟩ visit salt (rounds + 1) position state
        (damaged ++ written (frame salt) (next :: later)) = .error message := by
    intro rounds position state
    have unreadable : ∃ message, scanLoop.unreadable ⟨true, true⟩ salt position state
        (damaged ++ written (frame salt) (next :: later)) = .error message := by
      have sought := probeFrom_ne_false behind 0 maxProbeBytes
      simp only [scanLoop.unreadable, if_true, aWellFormedFrameFollows]
      cases probed : probeFrom salt ((damaged ++ written (frame salt) (next :: later)).drop
          lengthWidth) 0 maxProbeBytes with
      | error message => exact ⟨message, rfl⟩
      | ok found =>
        cases found with
        | false => exact absurd probed sought
        | true => exact ⟨corruptMiddle, rfl⟩
    rw [scanLoop]
    split
    next short =>
      have few := length_lt_of_short short
      rw [List.length_append] at few
      omega
    next => exact unreadable
    next => exact unreadable
    next payload frameEnd read =>
      exact absurd ⟨payload, frameEnd, read⟩ (absent 0 (by simp only [lengthWidth] at sized; omega))
  obtain ⟨spare, rounds⟩ :=
    rounds_left salt before (damaged ++ written (frame salt) (next :: later))
  obtain ⟨message, scanned⟩ := scanLoop_error
    (List.forall_mem_append.mp small).1 (refused spare) headerLen
    start
  refine ⟨message, ?_⟩
  rw [openScannedStrict, scanOpenParts, prepareHeader_header]
  simp only [List.drop_left' (length_header salt), rounds, scanned]
  rfl

/-- Of the words "one", "two" and "three", the first letter of the second was flipped. -/
theorem damaged_log_refused_two :
    let salt : Salt := Vector.replicate 16 7
    let damaged := (frame salt [116, 119, 111]).set 8 139
    let file := header salt ++ (written (frame salt) [[111, 110, 101]] ++
      (damaged ++ written (frame salt) [[116, 104, 114, 101, 101]]))
    ∃ message, openScannedStrict salt collect [] file = (file, .error message) := by
  intro salt damaged
  exact damaged_log_refused collect [] salt salt [[111, 110, 101]] [[116, 104, 114, 101, 101]]
    [116, 119, 111] damaged (by decide) (by decide) (by rw [List.length_set]) (by decide +kernel)

end QuantovaChain.Store
