import Mathlib.Data.List.Pairwise
import QuantovaChain.Library.Word
import QuantovaChain.State.Trie

/-!
# The finality ledger

A node notes the value that was finalized at each height, and compares every later certificate with
it. Only a window of heights below the highest one is retained. A height that has left the window is
unknown to the ledger, and nothing is noted for it again, so that a height that was forgotten cannot
be finalized with another value.
-/

namespace QuantovaChain.Node

open State (Hash)
open Std (ExtTreeMap TransCmp LawfulEqCmp)

inductive FinalityStatus
  | extending
  | confirms
  | unknown
  | violation (height : U64) (finalized conflicting : Hash)
  deriving DecidableEq

/-- The verdict says that the value is the final one of its height. -/
def FinalityStatus.Endorses (status : FinalityStatus) : Prop :=
  status = .extending ∨ status = .confirms

def finalityRetainedEpochs : Nat := 64

/-- The width of the window, for the number of slots of an epoch. The source computes it as a
constant of 64 bits. -/
def finalityRetainedHeights (defaultSlots : Nat) : U64 :=
  Word.clamp 64 (finalityRetainedEpochs * defaultSlots)

def compareHeights : U64 → U64 → Ordering := compareOn Word.val

instance : TransCmp compareHeights := inferInstanceAs (TransCmp (compareOn _))

instance : LawfulEqCmp compareHeights where
  compare_self := Std.ReflCmp.compare_self
  eq_of_compare same := Word.ext (Std.LawfulEqOrd.eq_of_compare same)

structure FinalityLedger where
  finalized : ExtTreeMap U64 Hash compareHeights
  highest : U64

namespace FinalityLedger

def new : FinalityLedger := ⟨∅, 0⟩

/-- Drops the heights below a floor, if there are any. -/
def splitOff (finalized : ExtTreeMap U64 Hash compareHeights) (floor : U64) :
    ExtTreeMap U64 Hash compareHeights :=
  if finalized.minKey?.any (· < floor) then finalized.filter fun height _ => floor ≤ height
  else finalized

variable (retained : U64)

def observe (ledger : FinalityLedger) (height : U64) (value : Hash) :
    FinalityLedger × FinalityStatus :=
  match ledger.finalized[height]? with
  | some seen =>
    if seen = value then (ledger, .confirms) else (ledger, .violation height seen value)
  | none =>
    if height.satAdd retained < ledger.highest then (ledger, .unknown)
    else
      let highest := max ledger.highest height
      (⟨splitOff (ledger.finalized.insert height value) (highest.satSub retained), highest⟩,
        .extending)

/-- An observation and the verdict on it. -/
structure Verdict where
  height : U64
  value : Hash
  status : FinalityStatus
  deriving DecidableEq

/-- The verdicts on observations, in their order. -/
def verdicts : FinalityLedger → List (U64 × Hash) → List Verdict
  | _, [] => []
  | ledger, (height, value) :: rest =>
    let (after, status) := ledger.observe retained height value
    ⟨height, value, status⟩ :: verdicts after rest

/-! ## What the ledger recalls -/

theorem getElem?_splitOff (finalized : ExtTreeMap U64 Hash compareHeights) (floor height : U64) :
    (splitOff finalized floor)[height]? = finalized[height]? ∨
      height < floor ∧ (splitOff finalized floor)[height]? = none := by
  unfold splitOff
  split
  · rw [ExtTreeMap.getElem?_filter']
    by_cases above : floor ≤ height
    · left
      cases finalized[height]? <;> simp [above]
    · refine .inr ⟨Nat.not_le.mp above, ?_⟩
      cases finalized[height]? <;> simp [above]
  · exact .inl rfl

/-- A value was endorsed at a height, which is in the map with it or has left the map and the
window. -/
def Recalls (ledger : FinalityLedger) (height : U64) (value : Hash) : Prop :=
  ledger.finalized[height]? = some value ∨
    ledger.finalized[height]? = none ∧ height.val + retained.val < ledger.highest.val

variable {retained} {ledger : FinalityLedger} {height other : U64} {value seen : Hash}

theorem satAdd_lt_of_left (passed : height.val + retained.val < ledger.highest.val) :
    height.satAdd retained < ledger.highest := by
  rw [Word.lt_def, Word.val_satAdd]
  omega

/-- What a ledger recalls it confirms, and never extends again. -/
theorem Recalls.endorsed (recalls : ledger.Recalls retained height seen)
    (endorsed : (ledger.observe retained height value).2.Endorses) :
    (ledger.observe retained height value).2 = .confirms ∧ value = seen := by
  rcases recalls with found | ⟨absent, passed⟩
  · simp only [observe, found] at endorsed ⊢
    split at endorsed
    next same => exact ⟨by rw [if_pos same], same.symm⟩
    next => rcases endorsed with impossible | impossible <;> cases impossible
  · simp only [observe, absent, satAdd_lt_of_left passed, if_true] at endorsed
    rcases endorsed with impossible | impossible <;> cases impossible

/-- A value that is in the map stays there until its height leaves the window. -/
theorem recalls_splitOff {finalized : ExtTreeMap U64 Hash compareHeights} {highest : U64}
    (found : finalized[height]? = some value) :
    Recalls retained ⟨splitOff finalized (highest.satSub retained), highest⟩ height value := by
  rcases getElem?_splitOff finalized (highest.satSub retained) height with kept | ⟨low, dropped⟩
  · exact .inl (kept.trans found)
  · rw [Word.lt_def, Word.val_satSub] at low
    refine .inr ⟨dropped, ?_⟩
    simp only
    omega

theorem Recalls.observe (recalls : ledger.Recalls retained height seen) (other : U64)
    (value : Hash) : (ledger.observe retained other value).1.Recalls retained height seen := by
  unfold FinalityLedger.observe
  split
  next => split <;> exact recalls
  next absent =>
    split
    next => exact recalls
    next inside =>
      have apart : other ≠ height := by
        rintro rfl
        rcases recalls with found | ⟨-, passed⟩
        · cases absent.symm.trans found
        · exact inside (satAdd_lt_of_left passed)
      have untouched : (ledger.finalized.insert other value)[height]? =
          ledger.finalized[height]? := by
        rw [ExtTreeMap.getElem?_insert, if_neg]
        rwa [LawfulEqCmp.compare_eq_iff_eq]
      rcases recalls with found | ⟨missing, passed⟩
      · exact recalls_splitOff (untouched.trans found)
      · refine .inr ⟨?_, ?_⟩
        · rcases getElem?_splitOff (ledger.finalized.insert other value)
            ((max ledger.highest other).satSub retained) height with kept | ⟨-, dropped⟩
          · exact kept.trans (untouched.trans missing)
          · exact dropped
        · simp only [Word.val_max]
          omega

/-- What a ledger endorses it recalls. -/
theorem recalls_of_endorses (endorsed : (ledger.observe retained height value).2.Endorses) :
    (ledger.observe retained height value).1.Recalls retained height value := by
  unfold observe at endorsed ⊢
  split at endorsed
  next seen found =>
    split at endorsed
    next same =>
      simp only [if_pos same]
      exact .inl (found.trans (congrArg some same))
    next => rcases endorsed with impossible | impossible <;> cases impossible
  next absent =>
    split at endorsed
    next => rcases endorsed with impossible | impossible <;> cases impossible
    next inside =>
      simp only [if_neg inside]
      exact recalls_splitOff (by rw [ExtTreeMap.getElem?_insert_self])

/-- From a ledger that recalls a value, every later endorsement of its height confirms the value. -/
theorem Recalls.verdicts (recalls : ledger.Recalls retained height seen)
    (observations : List (U64 × Hash)) :
    ∀ verdict ∈ ledger.verdicts retained observations, verdict.height = height →
      verdict.status.Endorses → verdict.status = .confirms ∧ verdict.value = seen := by
  induction observations generalizing ledger with
  | nil => rintro _ ⟨⟩
  | cons first rest hypothesis =>
    intro verdict member there endorsed
    rcases List.mem_cons.mp member with rfl | later
    · cases there
      exact recalls.endorsed endorsed
    · exact hypothesis (recalls.observe first.1 first.2) verdict later there endorsed

/-- What two verdicts on one height endorse is the same value. -/
def Verdict.SameValue (first second : Verdict) : Prop :=
  first.height = second.height → first.status.Endorses → second.status.Endorses →
    first.value = second.value

instance : Std.Symm Verdict.SameValue :=
  ⟨fun _ _ equal same before after => (equal same.symm after before).symm⟩

/-- Two verdicts on one height endorse the same value, and do not both extend. -/
def Verdict.Agree (first second : Verdict) : Prop :=
  first.SameValue second ∧ (first.height = second.height →
    ¬ (first.status = .extending ∧ second.status = .extending))

theorem verdicts_agree (retained : U64) (ledger : FinalityLedger)
    (observations : List (U64 × Hash)) :
    (ledger.verdicts retained observations).Pairwise Verdict.Agree := by
  induction observations generalizing ledger with
  | nil => exact .nil
  | cons first rest hypothesis =>
    refine .cons ?_ (hypothesis _)
    intro second later
    have settled := fun endorsed => (recalls_of_endorses endorsed).verdicts rest second later
    refine ⟨fun same before after => (settled before same.symm after).2.symm, ?_⟩
    rintro same ⟨before, after⟩
    cases after.symm.trans (settled (.inl before) same.symm (.inl after)).1

theorem sameValue_of_agree {verdicts : List Verdict} (agree : verdicts.Pairwise Verdict.Agree) :
    ∀ first ∈ verdicts, ∀ second ∈ verdicts, first.SameValue second := by
  intro first inside second member
  have values : verdicts.Pairwise Verdict.SameValue := agree.imp And.left
  exact values.forall_of_forall (fun _ _ _ _ _ => rfl) inside member

theorem countP_extends_le_one {verdicts : List Verdict}
    (agree : verdicts.Pairwise Verdict.Agree) (height : U64) :
    verdicts.countP (fun verdict => verdict.height = height ∧ verdict.status = .extending) ≤ 1 := by
  have extending : ∀ verdict ∈ verdicts.filter fun verdict : Verdict =>
      verdict.height = height ∧ verdict.status = .extending,
      verdict.height = height ∧ verdict.status = .extending := by
    intro verdict member
    exact of_decide_eq_true (List.mem_filter.mp member).2
  have apart := agree.filter fun verdict : Verdict =>
    verdict.height = height ∧ verdict.status = .extending
  rw [List.countP_eq_length_filter]
  match verdicts.filter _, extending, apart with
  | [], _, _ => exact Nat.zero_le _
  | [_], _, _ => exact Nat.le_refl _
  | first :: second :: _, extending, apart =>
    have before := extending first (by simp)
    have after := extending second (by simp)
    have both := (List.pairwise_cons.mp apart).1 second (by simp)
    exact absurd ⟨before.2, after.2⟩ (both.2 (before.1.trans after.1.symm))

/-- Over every run of a new ledger, a height is endorsed with one value at most, and is extended
once at most. By induction on the run, as an endorsed height is recalled until it is too old to be
endorsed. -/
theorem observe_endorses_one_value (defaultSlots : Nat) (observations : List (U64 × Hash)) :
    let verdicts := new.verdicts (finalityRetainedHeights defaultSlots) observations
    (∀ first ∈ verdicts, ∀ second ∈ verdicts, first.height = second.height →
        first.status.Endorses → second.status.Endorses → first.value = second.value) ∧
      ∀ height, verdicts.countP (fun verdict =>
        verdict.height = height ∧ verdict.status = .extending) ≤ 1 := by
  have agree := verdicts_agree (finalityRetainedHeights defaultSlots) new observations
  exact ⟨sameValue_of_agree agree, countP_extends_le_one agree⟩

/-! ## The window -/

/-- The heights of the map are at most the highest one, and at least the floor of its window. -/
def Windowed (retained : U64) (ledger : FinalityLedger) : Prop :=
  ∀ height ∈ ledger.finalized, height ≤ ledger.highest ∧ ledger.highest.satSub retained ≤ height

-- The heights are only looked through when the least of them is below the floor.
theorem mem_splitOff {finalized : ExtTreeMap U64 Hash compareHeights} {floor : U64}
    (kept : height ∈ splitOff finalized floor) : height ∈ finalized ∧ floor ≤ height := by
  unfold splitOff at kept
  split at kept
  · obtain ⟨inside, above⟩ := ExtTreeMap.mem_filter.mp kept
    rw [ExtTreeMap.getKey_eq] at above
    exact ⟨inside, of_decide_eq_true above⟩
  next least =>
    refine ⟨kept, Nat.not_lt.mp fun below => least ?_⟩
    obtain ⟨lowest, found⟩ := Option.isSome_iff_exists.mp (ExtTreeMap.isSome_minKey?_of_mem kept)
    have first := (ExtTreeMap.minKey?_eq_some_iff_mem_and_forall.mp found).2 height kept
    rw [found]
    exact decide_eq_true (Nat.lt_of_le_of_lt (Nat.isLE_compare.mp first) below)

theorem Windowed.observe (windowed : ledger.Windowed retained) (other : U64) (value : Hash) :
    (ledger.observe retained other value).1.Windowed retained := by
  unfold FinalityLedger.observe
  split
  · split <;> exact windowed
  split
  · exact windowed
  intro height kept
  obtain ⟨inside, above⟩ := mem_splitOff kept
  refine ⟨?_, above⟩
  rw [Word.le_def, Word.val_max]
  rcases ExtTreeMap.mem_insert.mp inside with same | old
  · rw [LawfulEqCmp.eq_of_compare same]
    exact Nat.le_max_right ..
  · exact Nat.le_trans (windowed height old).1 (Nat.le_max_left ..)

/-- Whatever the verdict, the highest height is at least the observed one: a height that is held, or
too far below to be judged, is below the highest already. -/
theorem Windowed.highest_observe (windowed : ledger.Windowed retained) (other : U64) (value : Hash) :
    (ledger.observe retained other value).1.highest = max ledger.highest other := by
  have stays : other.val ≤ ledger.highest.val → ledger.highest = max ledger.highest other := by
    intro below
    ext
    rw [Word.val_max, Nat.max_eq_left below]
  unfold FinalityLedger.observe
  split
  next seen found =>
    have held := stays (windowed other (ExtTreeMap.mem_iff_isSome_getElem?.mpr (by simp [found]))).1
    split <;> exact held
  next =>
    split
    next far => exact stays (Nat.le_trans (Word.val_le_satAdd _ _) (Nat.le_of_lt far))
    next => rfl

/-- Over every run of a new ledger, its highest height is the greatest one observed, and it holds no
height outside of the window below that. By induction on the observations, since one observation
keeps the window and raises the highest height as far as needed. -/
theorem observe_keeps_window (retained : U64) (observations : List (U64 × Hash)) :
    let ledger := observations.foldl (fun ledger seen => (ledger.observe retained seen.1 seen.2).1) new
    ledger.Windowed retained ∧
      ledger.highest = observations.foldl (fun greatest seen => max greatest seen.1) 0 := by
  suffices run : ∀ start : FinalityLedger, start.Windowed retained →
      let ledger := observations.foldl
        (fun ledger seen => (ledger.observe retained seen.1 seen.2).1) start
      ledger.Windowed retained ∧
        ledger.highest =
          observations.foldl (fun greatest seen => max greatest seen.1) start.highest from
    run new fun _ held => absurd held ExtTreeMap.not_mem_empty
  induction observations with
  | nil => exact fun _ windowed => ⟨windowed, rfl⟩
  | cons seen rest hypothesis =>
    intro start windowed
    have later := hypothesis _ (windowed.observe seen.1 seen.2)
    rwa [windowed.highest_observe] at later

end FinalityLedger

end QuantovaChain.Node
