import QuantovaChain.Ledger.Referenda

/-!
# Who owns a freeze

Votes freeze accounts for good, guardians for a time, and both set the same mark; what tells them
apart is the list of the guardians' freezes, each with its end. A vote that freezes an account
strikes it from the list, and guardians are refused an account that is frozen without being on it,
so a freeze by vote ends only by vote. The issuer of a frozen or blacklisted account is stopped, by
a third mark that is written along with the two.

The marks are first described on their own, with what votes and guardians do to them, and then shown
to be what the ledger keeps.
-/

namespace QuantovaChain.Ledger

open State (Bytes Hash)
open Idfmt (Text)
open Governance
open Transaction Transaction.State Leaves

/-- The marks on accounts and issuers, and the freezes of guardians with their ends. -/
@[ext] structure Marks where
  frozen : Id → Bool
  blacklisted : Id → Bool
  stopped : AssetId → Bool
  entries : List (Id × U64)

/-- What happens to the marks. -/
inductive Deed
  | nothing
  | freeze (targets : List Id)
  | unfreeze (targets : List Id)
  | blacklist (targets : List Id)
  | recover (targets : List Id)
  | guardianFreeze (targets : List Id) (untilTime : U64)
  | guardianExpire (now : U64)

/-- The accounts that a deed names. -/
def Deed.names : Deed → List Id
  | freeze targets | unfreeze targets | blacklist targets | guardianFreeze targets _ => targets
  | nothing | recover _ | guardianExpire _ => []

namespace Marks

variable [Platform] (marks : Marks)

/-- The accounts that guardians froze. -/
def listed : List Id := marks.entries.map Prod.fst

def forget (targets : List Id) : Marks :=
  { marks with entries := marks.entries.filter fun entry => !targets.contains entry.1 }

/-- Guardians may freeze what is not frozen, and renew their own freezes. -/
def allows : Deed → Prop
  | .guardianFreeze targets _ =>
    ∀ target ∈ targets, marks.frozen target = true → target ∈ marks.listed
  | _ => True

def freeze (id : Id) : Marks :=
  { marks with
    frozen := Function.update marks.frozen id true
    stopped := Function.update marks.stopped (assetIdOf id) true }

def unfreeze (id : Id) : Marks :=
  { marks with
    frozen := Function.update marks.frozen id false
    stopped := if marks.blacklisted id then marks.stopped
      else Function.update marks.stopped (assetIdOf id) false }

def blacklist (id : Id) : Marks :=
  { marks with
    blacklisted := Function.update marks.blacklisted id true
    stopped := Function.update marks.stopped (assetIdOf id) true }

/-- The marks after a deed. -/
def after : Deed → Marks
  | .nothing => marks
  | .freeze targets => (targets.foldl freeze marks).forget targets
  | .unfreeze targets => (targets.foldl unfreeze marks).forget targets
  | .blacklist targets => targets.foldl blacklist marks
  | .recover targets => marks.forget targets
  | .guardianFreeze targets untilTime =>
    { targets.foldl freeze marks with
      entries := targets.foldl (fun entries target => renewEntry entries target untilTime)
        marks.entries }
  | .guardianExpire now =>
    { ((marks.entries.filter fun entry => entry.2 ≤ now).map Prod.fst).foldl unfreeze marks with
      entries := marks.entries.filter fun entry => now < entry.2 }

/-! ## Several accounts at once -/

variable {marks}

omit [Platform] in
theorem foldl_keeps {α : Type} (field : Marks → α) (step : Marks → Id → Marks)
    (keeps : ∀ marks id, field (step marks id) = field marks) (targets : List Id) :
    field (targets.foldl step marks) = field marks := by
  induction targets generalizing marks with
  | nil => rfl
  | cons target rest hypothesis => exact hypothesis.trans (keeps marks target)

omit [Platform] in
theorem frozen_foldl {step : Marks → Id → Marks} {value : Bool}
    (sets : ∀ marks id, (step marks id).frozen = Function.update marks.frozen id value)
    (targets : List Id) (id : Id) :
    (targets.foldl step marks).frozen id = if id ∈ targets then value else marks.frozen id := by
  induction targets generalizing marks with
  | nil => simp
  | cons target rest hypothesis =>
    rw [List.foldl_cons, hypothesis, sets, Function.update_apply]
    by_cases here : id = target <;> simp [here]

theorem frozen_foldl_freeze (targets : List Id) {id : Id}
    (frozen : id ∈ targets ∨ marks.frozen id = true) :
    (targets.foldl freeze marks).frozen id = true := by
  rw [frozen_foldl fun _ _ => rfl]
  split
  · rfl
  next outside => exact frozen.resolve_left outside

theorem frozen_foldl_unfreeze {targets : List Id} {id : Id} (outside : id ∉ targets) :
    (targets.foldl unfreeze marks).frozen id = marks.frozen id := by
  rw [frozen_foldl fun _ _ => rfl, if_neg outside]

/-! ## The list of guardians' freezes -/

omit [Platform] in
theorem map_renewEntry (entries : List (Id × U64)) (target : Id) (untilTime : U64) :
    (renewEntry entries target untilTime).map Prod.fst =
      if target ∈ entries.map Prod.fst then entries.map Prod.fst
      else entries.map Prod.fst ++ [target] := by
  induction entries with
  | nil => simp [renewEntry]
  | cons entry rest hypothesis =>
    obtain ⟨id, time⟩ := entry
    rw [renewEntry]
    by_cases here : id = target
    · simp [here]
    · rw [if_neg here, List.map_cons, hypothesis]
      by_cases there : target ∈ rest.map Prod.fst <;> simp [there, Ne.symm here]

omit [Platform] in
theorem mem_renewed (targets : List Id) (entries : List (Id × U64)) (untilTime : U64) (id : Id) :
    id ∈ (targets.foldl (fun entries target => renewEntry entries target untilTime) entries).map
      Prod.fst ↔ id ∈ targets ∨ id ∈ entries.map Prod.fst := by
  induction targets generalizing entries with
  | nil => simp
  | cons target rest hypothesis =>
    rw [List.foldl_cons, hypothesis, map_renewEntry, List.mem_cons]
    split
    next present =>
      constructor
      · rintro (later | former)
        · exact .inl (.inr later)
        · exact .inr former
      · rintro ((rfl | later) | former)
        · exact .inr present
        · exact .inl later
        · exact .inr former
    next absent =>
      rw [List.mem_append, List.mem_singleton]
      tauto

omit [Platform] in
theorem nodup_renewed (targets : List Id) {entries : List (Id × U64)} (untilTime : U64)
    (distinct : (entries.map Prod.fst).Nodup) :
    ((targets.foldl (fun entries target => renewEntry entries target untilTime) entries).map
      Prod.fst).Nodup := by
  induction targets generalizing entries with
  | nil => exact distinct
  | cons target rest hypothesis =>
    apply hypothesis
    rw [map_renewEntry]
    split
    · exact distinct
    next absent =>
      rw [List.nodup_append]
      refine ⟨distinct, List.nodup_singleton _, ?_⟩
      intro id former other same
      rw [List.mem_singleton.mp same]
      rintro rfl
      exact absent former

omit [Platform] in
theorem listed_forget (targets : List Id) :
    (marks.forget targets).listed = marks.listed.filter fun id => !targets.contains id := by
  rw [listed, forget, listed, List.filter_map]
  rfl

omit [Platform] in
theorem mem_listed_forget {targets : List Id} {id : Id} :
    id ∈ (marks.forget targets).listed ↔ id ∈ marks.listed ∧ id ∉ targets := by
  simp [listed_forget]

/-! ## Stopped issuers -/

section Kept

variable {ids : Set Id} (apart : Set.InjOn assetIdOf ids)

/-- The issuers that are stopped are those of frozen and blacklisted accounts. -/
def Agrees (ids : Set Id) (marks : Marks) : Prop :=
  ∀ id ∈ ids, marks.stopped (assetIdOf id) = (marks.frozen id || marks.blacklisted id)

include apart

theorem Agrees.freeze {id : Id} (named : id ∈ ids) (agrees : Agrees ids marks) :
    Agrees ids (marks.freeze id) := by
  intro other known
  by_cases same : other = id
  · simp [Marks.freeze, same]
  · simp [Marks.freeze, same, (apart.ne_iff known named).mpr same, agrees other known]

theorem Agrees.unfreeze {id : Id} (named : id ∈ ids) (agrees : Agrees ids marks) :
    Agrees ids (marks.unfreeze id) := by
  intro other known
  by_cases same : other = id
  · subst same
    by_cases banned : marks.blacklisted other = true
    · simp [Marks.unfreeze, banned, agrees other known]
    · simp [Marks.unfreeze, banned]
  · by_cases banned : marks.blacklisted id = true
    · simp [Marks.unfreeze, banned, same, agrees other known]
    · simp [Marks.unfreeze, banned, same, (apart.ne_iff known named).mpr same, agrees other known]

theorem Agrees.blacklist {id : Id} (named : id ∈ ids) (agrees : Agrees ids marks) :
    Agrees ids (marks.blacklist id) := by
  intro other known
  by_cases same : other = id
  · simp [Marks.blacklist, same]
  · simp [Marks.blacklist, same, (apart.ne_iff known named).mpr same, agrees other known]

omit apart in
theorem Agrees.foldl {step : Marks → Id → Marks}
    (keeps : ∀ {marks id}, id ∈ ids → Agrees ids marks → Agrees ids (step marks id))
    {targets : List Id} (named : ∀ id ∈ targets, id ∈ ids) (agrees : Agrees ids marks) :
    Agrees ids (targets.foldl step marks) := by
  induction targets generalizing marks with
  | nil => exact agrees
  | cons target rest hypothesis =>
    exact hypothesis (List.forall_mem_cons.mp named).2
      (keeps (named target List.mem_cons_self) agrees)

omit apart

/-- What deeds keep, as long as the accounts they name belong to a set of accounts with different
assets. -/
structure Kept (ids : Set Id) (marks : Marks) : Prop where
  frozen : ∀ id ∈ marks.listed, marks.frozen id = true
  distinct : marks.listed.Nodup
  known : ∀ id ∈ marks.listed, id ∈ ids
  agrees : Agrees ids marks

namespace Kept

variable {targets : List Id}

/-- Accounts that are forgotten do not matter to the rest. -/
theorem forget (distinct : marks.listed.Nodup) (known : ∀ id ∈ marks.listed, id ∈ ids)
    (agrees : Agrees ids marks)
    (frozen : ∀ id ∈ marks.listed, id ∉ targets → marks.frozen id = true) :
    Kept ids (marks.forget targets) := by
  constructor
  case frozen =>
    intro id listed
    obtain ⟨listed, outside⟩ := mem_listed_forget.mp listed
    exact frozen id listed outside
  case distinct =>
    rw [listed_forget]
    exact distinct.filter _
  case known => exact fun id listed => known id (mem_listed_forget.mp listed).1
  case agrees => exact agrees

/-- Accounts that a vote marks are forgotten. -/
theorem marked {step : Marks → Id → Marks} {value : Bool} (kept : Kept ids marks)
    (sets : ∀ marks id, (step marks id).frozen = Function.update marks.frozen id value)
    (lists : ∀ marks id, (step marks id).listed = marks.listed)
    (agree : ∀ {marks id}, id ∈ ids → Agrees ids marks → Agrees ids (step marks id))
    (named : ∀ id ∈ targets, id ∈ ids) : Kept ids ((targets.foldl step marks).forget targets) := by
  have listed : (targets.foldl step marks).listed = marks.listed := foldl_keeps _ _ lists _
  refine Kept.forget (listed ▸ kept.distinct) (listed ▸ kept.known)
    (.foldl agree named kept.agrees) ?_
  intro id among outside
  rw [frozen_foldl sets, if_neg outside]
  exact kept.frozen id (listed ▸ among)

include apart

theorem blacklist (kept : Kept ids marks) (named : ∀ id ∈ targets, id ∈ ids) :
    Kept ids (marks.after (.blacklist targets)) := by
  have listed : (targets.foldl Marks.blacklist marks).listed = marks.listed :=
    foldl_keeps listed Marks.blacklist (fun _ _ => rfl) _
  constructor
  case frozen =>
    rw [Marks.after, listed, foldl_keeps Marks.frozen Marks.blacklist fun _ _ => rfl]
    exact kept.frozen
  case distinct => exact listed ▸ kept.distinct
  case known => exact listed ▸ kept.known
  case agrees => exact .foldl (Agrees.blacklist apart) named kept.agrees

theorem guardianFreeze (kept : Kept ids marks) (untilTime : U64)
    (named : ∀ id ∈ targets, id ∈ ids) :
    Kept ids (marks.after (.guardianFreeze targets untilTime)) := by
  constructor
  case frozen =>
    intro id listed
    exact frozen_foldl_freeze _ <|
      ((mem_renewed targets marks.entries untilTime id).mp listed).imp_right (kept.frozen id)
  case distinct => exact nodup_renewed targets untilTime kept.distinct
  case known =>
    intro id listed
    exact ((mem_renewed targets marks.entries untilTime id).mp listed).elim (named id) (kept.known id)
  case agrees => exact Agrees.foldl (Agrees.freeze apart) named kept.agrees

theorem guardianExpire (kept : Kept ids marks) (now : U64) :
    Kept ids (marks.after (.guardianExpire now)) := by
  have stays : ∀ id ∈ (marks.after (.guardianExpire now)).listed, id ∈ marks.listed :=
    fun id listed => (List.filter_sublist.map Prod.fst).subset listed
  constructor
  case frozen =>
    intro id listed
    obtain ⟨entry, survives, rfl⟩ := List.mem_map.mp listed
    obtain ⟨held, lasting⟩ := List.mem_filter.mp survives
    have outlives : entry.1 ∉ (marks.entries.filter fun entry => entry.2 ≤ now).map Prod.fst := by
      intro due
      obtain ⟨other, ended, same⟩ := List.mem_map.mp due
      obtain ⟨alsoHeld, past⟩ := List.mem_filter.mp ended
      obtain rfl := List.inj_on_of_nodup_map kept.distinct alsoHeld held same
      rw [decide_eq_true_eq, Word.lt_def] at lasting
      rw [decide_eq_true_eq, Word.le_def] at past
      omega
    exact (frozen_foldl_unfreeze outlives).trans (kept.frozen entry.1 (stays _ listed))
  case distinct => exact kept.distinct.sublist (List.filter_sublist.map Prod.fst)
  case known => exact fun id listed => kept.known id (stays id listed)
  case agrees =>
    refine Agrees.foldl (Agrees.unfreeze apart) ?_ kept.agrees
    exact fun id due => kept.known id ((List.filter_sublist.map Prod.fst).subset due)

/-- Every deed keeps the marks in step. -/
theorem after (kept : Kept ids marks) {deed : Deed} (named : ∀ id ∈ deed.names, id ∈ ids) :
    Kept ids (marks.after deed) := by
  cases deed with
  | nothing => exact kept
  | freeze targets => exact kept.marked (fun _ _ => rfl) (fun _ _ => rfl) (.freeze apart) named
  | unfreeze targets => exact kept.marked (fun _ _ => rfl) (fun _ _ => rfl) (.unfreeze apart) named
  | blacklist targets => exact kept.blacklist apart named
  | recover targets =>
    exact Kept.forget kept.distinct kept.known kept.agrees fun id listed _ => kept.frozen id listed
  | guardianFreeze targets untilTime => exact kept.guardianFreeze apart untilTime named
  | guardianExpire now => exact kept.guardianExpire apart now

end Kept

end Kept

/-! ## Freezes by vote -/

/-- An account is frozen, and not by guardians. -/
structure Owned (marks : Marks) (id : Id) : Prop where
  frozen : marks.frozen id = true
  unlisted : id ∉ marks.listed

theorem owned_freeze {targets : List Id} {id : Id} (target : id ∈ targets) :
    Owned (marks.after (.freeze targets)) id where
  frozen := frozen_foldl_freeze targets (.inl target)
  unlisted listed := (mem_listed_forget.mp listed).2 target

/-- A freeze by vote outlasts every deed that does not unfreeze the account by vote. -/
theorem Owned.after {id : Id} (owned : Owned marks id) {deed : Deed} (allowed : marks.allows deed)
    (kept : ∀ targets, deed = .unfreeze targets → id ∉ targets) :
    Owned (marks.after deed) id := by
  cases deed with
  | nothing => exact owned
  | freeze targets =>
    refine ⟨frozen_foldl_freeze targets (.inr owned.frozen), fun listed => owned.unlisted ?_⟩
    rw [← foldl_keeps Marks.listed Marks.freeze (fun _ _ => rfl) targets]
    exact (mem_listed_forget.mp listed).1
  | unfreeze targets =>
    refine ⟨(frozen_foldl_unfreeze (kept targets rfl)).trans owned.frozen,
      fun listed => owned.unlisted ?_⟩
    rw [← foldl_keeps Marks.listed Marks.unfreeze (fun _ _ => rfl) targets]
    exact (mem_listed_forget.mp listed).1
  | blacklist targets =>
    constructor
    case frozen =>
      rw [Marks.after, foldl_keeps Marks.frozen Marks.blacklist fun _ _ => rfl]
      exact owned.frozen
    case unlisted =>
      rw [Marks.after, foldl_keeps listed Marks.blacklist fun _ _ => rfl]
      exact owned.unlisted
  | recover targets =>
    exact ⟨owned.frozen, fun listed => owned.unlisted (mem_listed_forget.mp listed).1⟩
  | guardianFreeze targets untilTime =>
    constructor
    case frozen => exact frozen_foldl_freeze targets (.inr owned.frozen)
    case unlisted =>
      intro listed
      rcases (mem_renewed targets marks.entries untilTime id).mp listed with target | former
      · exact owned.unlisted (allowed id target owned.frozen)
      · exact owned.unlisted former
  | guardianExpire now =>
    constructor
    case frozen =>
      refine (frozen_foldl_unfreeze ?_).trans owned.frozen
      exact fun due => owned.unlisted ((List.filter_sublist.map Prod.fst).subset due)
    case unlisted =>
      exact fun listed => owned.unlisted ((List.filter_sublist.map Prod.fst).subset listed)

end Marks

/-! ## The marks of a ledger -/

/-- The marks that a ledger keeps. -/
def marksOf (ledger : Ledger) : Marks where
  frozen := isFrozenId ledger.get
  blacklisted := isGovBlacklisted ledger.get
  stopped := assetIssuerIsStopped ledger.get
  entries := guardianFreezeEntries ledger.get

variable {ledger before after : Ledger}

/-- The marks of a ledger, leaf by leaf. -/
theorem marksOf_eq {marks : Marks}
    (frozen : ∀ id, (ledger.get (.govFreeze id)).getD false = marks.frozen id)
    (blacklisted : ∀ id, (ledger.get (.govBlacklist id)).isSome = marks.blacklisted id)
    (stopped : ∀ asset, (ledger.get (.govStoppedAsset asset)).getD false = marks.stopped asset)
    (entries : (ledger.get .govGuardianFreezeTargets).getD [] = marks.entries) :
    marksOf ledger = marks :=
  Marks.ext (funext frozen) (funext blacklisted) (funext stopped) entries

theorem SameIn.marks (same : SameIn .freezes before after) : marksOf after = marksOf before := by
  apply marksOf_eq
  case frozen => exact fun id => congrArg (Option.getD · false) (same (.govFreeze id) rfl)
  case blacklisted => exact fun id => congrArg Option.isSome (same (.govBlacklist id) rfl)
  case stopped =>
    exact fun asset => congrArg (Option.getD · false) (same (.govStoppedAsset asset) rfl)
  case entries => exact congrArg (Option.getD · []) (same .govGuardianFreezeTargets rfl)

@[simp] theorem marksOf_pushSide (event : SideEvent) :
    marksOf (ledger.pushSide event) = marksOf ledger := rfl

theorem marksOf_write_other {key : LeafKey} (outside : key.region ≠ .freezes)
    (value : LeafValue key) : marksOf (ledger.write key value) = marksOf ledger :=
  SameIn.marks fun _ inside => get_write_ne _ (by rintro rfl; exact outside inside)

theorem marksOf_write_freeze (id : Id) (value : Bool) :
    marksOf (ledger.write (.govFreeze id) value) =
      { marksOf ledger with frozen := Function.update (marksOf ledger).frozen id value } := by
  apply marksOf_eq
  case frozen =>
    intro other
    rcases eq_or_ne other id with rfl | apart
    · simp
    · simp [apart, apart.symm, marksOf, isFrozenId]
  all_goals intros; rw [get_write_ne _ (by simp)]; rfl

theorem marksOf_write_blacklist (id : Id) :
    marksOf (ledger.write (.govBlacklist id) ()) =
      { marksOf ledger with
        blacklisted := Function.update (marksOf ledger).blacklisted id true } := by
  apply marksOf_eq
  case blacklisted =>
    intro other
    rcases eq_or_ne other id with rfl | apart
    · simp
    · simp [apart, apart.symm, marksOf, isGovBlacklisted]
  all_goals intros; rw [get_write_ne _ (by simp)]; rfl

theorem marksOf_write_stopped (asset : AssetId) (value : Bool) :
    marksOf (ledger.write (.govStoppedAsset asset) value) =
      { marksOf ledger with stopped := Function.update (marksOf ledger).stopped asset value } := by
  apply marksOf_eq
  case stopped =>
    intro other
    rcases eq_or_ne other asset with rfl | apart
    · simp
    · simp [apart, apart.symm, marksOf, assetIssuerIsStopped]
  all_goals intros; rw [get_write_ne _ (by simp)]; rfl

theorem marksOf_write_entries (entries : List (Id × U64)) :
    marksOf (ledger.write .govGuardianFreezeTargets entries) =
      { marksOf ledger with entries } := by
  apply marksOf_eq
  case entries => rw [get_write_self, Option.getD_some]
  all_goals intros; rw [get_write_ne _ (by simp)]; rfl

section Programs

variable [Platform]

theorem setFrozen_marks (id : Id) (ledger : Ledger) :
    Ensures ledger (setFrozen id) fun _ after => marksOf after = (marksOf ledger).freeze id := by
  simp only [setFrozen, recordStopped, ensures_bind, ensures_put]
  rw [marksOf_write_stopped, marksOf_write_freeze, Marks.freeze]

theorem setGovBlacklisted_marks (id : Id) (ledger : Ledger) :
    Ensures ledger (setGovBlacklisted id) fun _ after =>
      marksOf after = (marksOf ledger).blacklist id := by
  simp only [setGovBlacklisted, recordStopped, ensures_bind, ensures_put]
  rw [marksOf_write_stopped, marksOf_write_blacklist, Marks.blacklist]

theorem clearFrozen_marks (id : Id) (ledger : Ledger) :
    Ensures ledger (clearFrozen id) fun _ after => marksOf after = (marksOf ledger).unfreeze id := by
  simp only [clearFrozen, ensures_bind, ensures_put, ensures_leaves]
  have banned : isGovBlacklisted (ledger.write (.govFreeze id) false).get id =
      (marksOf ledger).blacklisted id := by
    rw [isGovBlacklisted, get_write_ne _ (by simp)]
    rfl
  rw [banned]
  split
  next blacklisted => rw [ensures_pure, marksOf_write_freeze, Marks.unfreeze, if_pos blacklisted]
  next unlisted =>
    rw [forgetStopped, ensures_put, marksOf_write_stopped, marksOf_write_freeze, Marks.unfreeze,
      if_neg unlisted]

omit [Platform] in
theorem guardianFreezeForget_marks (targets : List Id) (ledger : Ledger) :
    Ensures ledger (guardianFreezeForget targets) fun _ after =>
      marksOf after = (marksOf ledger).forget targets := by
  simp only [guardianFreezeForget, writeGuardianFreezeEntries, ensures_bind, ensures_leaves,
    ensures_put]
  rw [marksOf_write_entries, Marks.forget, marksOf]

omit [Platform] in
/-- Several accounts are marked one after the other. -/
theorem freezeAll_marks {action : Id → LedgerM Unit} {step : Marks → Id → Marks}
    (marks : ∀ id ledger, Ensures ledger (action id) fun _ after =>
      marksOf after = step (marksOf ledger) id)
    (event : Text → SideEvent) (targets : List Bytes) (ledger : Ledger) :
    Ensures ledger (freezeAll action event targets) fun _ after =>
      marksOf after = (targets.filterMap idFromSlice).foldl step (marksOf ledger) := by
  refine ensures_each_foldl marksOf step ?_ _ ledger
  intro id state
  refine (marks id state).bind ?_
  intro _ after marked
  rw [ensures_emitSide, marksOf_pushSide]
  exact marked

theorem guardianFreeze_marks (bound : U64) (targets approvers : List Id) (now : U64)
    (ledger : Ledger) :
    Ensures ledger (guardianFreeze bound targets approvers now) fun frozen after =>
      if frozen then
        (marksOf ledger).allows (.guardianFreeze targets (now.satAdd guardianFreezeWindowSeconds)) ∧
          marksOf after = (marksOf ledger).after
            (.guardianFreeze targets (now.satAdd guardianFreezeWindowSeconds))
      else marksOf after = marksOf ledger := by
  unfold guardianFreeze
  simp only [ensures_bind, ensures_leaves]
  split
  · simp
  split
  · simp
  split
  · simp
  split
  · simp
  next allowed =>
  refine (ensures_each_foldl marksOf Marks.freeze ?_ targets ledger).bind ?_
  · intro target state
    refine (setFrozen_marks target state).bind ?_
    intro _ after marked
    rw [ensures_emitSide, marksOf_pushSide]
    exact marked
  intro _ marked same
  simp only [writeGuardianFreezeEntries, setGuardianFreezeEpoch, ensures_bind, ensures_put,
    ensures_pure, if_true]
  constructor
  · intro target among frozen
    by_contra unlisted
    refine allowed (List.any_eq_true.mpr ⟨target, among, ?_⟩)
    rw [Bool.and_eq_true, Bool.not_eq_true', List.any_eq_false]
    refine ⟨frozen, fun entry held same => unlisted ?_⟩
    exact List.mem_map.mpr ⟨entry, held, eq_of_beq same⟩
  · rw [marksOf_write_other (by rintro ⟨⟩), marksOf_write_entries, same, Marks.after]
    rfl

theorem guardianExpire_marks (now : U64) (ledger : Ledger) :
    Ensures ledger (guardianExpire now) fun _ after =>
      marksOf after = (marksOf ledger).after (.guardianExpire now) := by
  unfold guardianExpire
  simp only [ensures_bind, ensures_leaves]
  split
  next empty =>
    have none : (marksOf ledger).entries = [] := List.isEmpty_iff.mp empty
    rw [ensures_pure, Marks.after, none]
    simp only [List.filter_nil, List.map_nil, List.foldl_nil]
    rw [← none]
  next =>
    refine (ensures_each_foldl marksOf (fun marks (entry : Id × U64) => marks.unfreeze entry.1)
      (fun entry => clearFrozen_marks entry.1) _ ledger).bind ?_
    intro _ marked same
    rw [writeGuardianFreezeEntries, ensures_put, marksOf_write_entries, same, Marks.after,
      List.foldl_map]
    rfl

omit [Platform] in
/-- A recovery takes from accounts, stakes and locks, and forgets the freezes of guardians on the
accounts it took from. -/
theorem enactRecovery_marks (scope : Hash) (victim : Bytes) (seizures : List Seizure)
    (ledger : Ledger) :
    Ensures ledger (enactRecovery scope victim seizures) fun result after =>
      result = .ok () → marksOf after = (marksOf ledger).forget
        (seizures.filterMap fun seizure => idFromSlice seizure.source) := by
  have seized : Region.freezes ∉ [Region.other, .stakes, .votes] := by decide
  have paid : Region.freezes ∉ [Region.other] := by decide
  unfold enactRecovery
  split
  swap
  · simp
  next address _ =>
  refine (Confined.same ledger seized).bind ?_
  intro recovered taken sameTaken
  refine (Confined.same taken paid).bind ?_
  intro _ credited sameCredited
  simp only [ensures_bind, ensures_emitSide, ensures_pure]
  refine (guardianFreezeForget_marks _ _).mono ?_
  intro _ after forgot _
  rw [forgot, marksOf_pushSide, sameCredited.marks, sameTaken.marks]

/-- What an executed action does to the marks. -/
def deedOf : Action → Deed
  | .freeze targets => .freeze (targets.filterMap idFromSlice)
  | .unfreeze targets => .unfreeze (targets.filterMap idFromSlice)
  | .blacklist target => .blacklist ([target].filterMap idFromSlice)
  | .freezeRecovery _ _ seizures =>
    .recover (seizures.filterMap fun seizure => idFromSlice seizure.source)
  | _ => .nothing

omit [Platform] in
theorem deedOf_elsewhere {action : Action} (elsewhere : marksAccounts action = false) :
    deedOf action = .nothing := by
  cases action with
  | freeze | unfreeze | blacklist | freezeRecovery => cases elsewhere
  | _ => rfl

theorem executeAction_marks (action : Action) (now chainId : U64) (ledger : Ledger) :
    Ensures ledger (executeAction action now chainId) fun result after =>
      result = .ok () → marksOf after = (marksOf ledger).after (deedOf action) := by
  cases marking : marksAccounts action with
  | false =>
    have outside : Region.freezes ∉ [Region.other] := by decide
    refine ((executeAction_elsewhere marking now chainId).same ledger outside).mono ?_
    intro _ after same _
    rw [same.marks, deedOf_elsewhere marking, Marks.after]
  | true =>
  unfold executeAction
  cases action with
  | freeze targets =>
    simp only [ensures_bind, ensures_leaves, ensures_pure]
    refine (freezeAll_marks setFrozen_marks .freeze targets ledger).mono ?_
    intro _ marked same
    refine (guardianFreezeForget_marks _ marked).mono ?_
    intro _ after forgot _
    rw [forgot, same, deedOf, Marks.after]
  | unfreeze targets =>
    simp only [ensures_bind, ensures_leaves, ensures_pure]
    refine (freezeAll_marks clearFrozen_marks .unfreeze targets ledger).mono ?_
    intro _ marked same
    refine (guardianFreezeForget_marks _ marked).mono ?_
    intro _ after forgot _
    rw [forgot, same, deedOf, Marks.after]
  | blacklist target =>
    simp only [ensures_bind, ensures_leaves, ensures_pure]
    refine (freezeAll_marks setGovBlacklisted_marks .blacklist [target] ledger).mono ?_
    intro _ marked same _
    rw [same, deedOf, Marks.after]
  | freezeRecovery scope victim seizures =>
    simp only [ensures_bind, ensures_leaves]
    exact enactRecovery_marks scope victim seizures ledger
  | _ => cases marking

/-! ## The marks along a run -/

/-- The action that a transition executed. -/
def Transition.executed (next : Transition) : Option Action :=
  (next.operation.enacted next.result).bind (govAction next.before.get)

/-- What an operation does to the marks, where it executed an action or none. -/
def Operation.deed {α : Type} (now : U64) (executed : Option Action) : Operation α → α → Deed
  | .guardianFreeze _ targets _, true =>
    .guardianFreeze targets (now.satAdd guardianFreezeWindowSeconds)
  | .guardianExpire, _ => .guardianExpire now
  | .govEnact .., _ => executed.elim .nothing deedOf
  | _, _ => .nothing

/-- What a transition does to the marks. -/
def Transition.deed (next : Transition) : Deed :=
  next.operation.deed next.moment.now next.executed next.result

theorem Transition.deed_of_executed {next : Transition} {action : Action}
    (executed : next.executed = some action) : next.deed = deedOf action := by
  obtain ⟨moment, operation, result, before, after, ran⟩ := next
  cases operation with
  | govEnact referendumId chainId =>
    rw [Transition.deed, executed]
    rfl
  | _ => cases executed

/-- The ledger keeps the marks as votes and guardians set them. -/
theorem Transition.marks (next : Transition) :
    (marksOf next.before).allows next.deed ∧
      marksOf next.after = (marksOf next.before).after next.deed := by
  by_cases touched : .freezes ∈ next.operation.regions
  · obtain ⟨moment, operation, result, before, after, ran⟩ := next
    cases operation with
    | guardianFreeze bound targets approvers =>
      have marked := (guardianFreeze_marks bound targets approvers moment.now before).ended ran
      cases result with
      | true => exact marked
      | false => exact ⟨trivial, marked⟩
    | guardianExpire => exact ⟨trivial, (guardianExpire_marks moment.now before).ended ran⟩
    | govEnact referendumId chainId =>
      rcases govEnact_within .freezes ran (by decide) with
        ⟨⟨error, rfl⟩, same⟩ | ⟨rfl, action, concluded, done, stored, sameBefore, executes, sameAfter⟩
      · exact ⟨trivial, same.marks⟩
      · have marked := (executeAction_marks action moment.now chainId concluded).ended executes rfl
        rw [sameBefore.marks, ← sameAfter.marks] at marked
        have executed : Transition.executed
            ⟨moment, .govEnact referendumId chainId, .ok (), before, after, ran⟩ = some action :=
          stored
        rw [Transition.deed_of_executed executed]
        refine ⟨?_, marked⟩
        cases action <;> trivial
    | _ => simp [Operation.regions] at touched
  · have same := (next.same touched).marks
    have nothing : next.deed = .nothing := by
      obtain ⟨moment, operation, result, before, after, ran⟩ := next
      cases operation with
      | guardianFreeze | guardianExpire | govEnact => simp [Operation.regions] at touched
      | _ => rfl
    rw [nothing]
    exact ⟨trivial, same⟩

section Run

variable {start finish : Ledger} {trace : List Transition} {ids : Set Id} {id : Id}

/-- Only an executed action unfreezes by vote. -/
theorem Transition.executed_of_unfreeze {next : Transition} {targets : List Id}
    (unfreezes : next.deed = .unfreeze targets) :
    ∃ named, next.executed = some (.unfreeze named) ∧ named.filterMap idFromSlice = targets := by
  obtain ⟨moment, operation, result, before, after, ran⟩ := next
  cases operation with
  | guardianFreeze bound held approvers => cases result <;> cases unfreezes
  | govEnact referendumId chainId =>
    generalize given : Transition.executed _ = executed
    rw [Transition.deed, given] at unfreezes
    cases executed with
    | none => cases unfreezes
    | some action =>
      cases action with
      | unfreeze named => exact ⟨named, rfl, Deed.unfreeze.inj unfreezes⟩
      | _ => cases unfreezes
  | _ => cases unfreezes

/-- The marks stay in step along every run. -/
theorem Run.marks_kept (apart : Set.InjOn assetIdOf ids) (run : Run start trace finish)
    (initially : (marksOf start).Kept ids)
    (named : ∀ next ∈ trace, ∀ id ∈ next.deed.names, id ∈ ids) : (marksOf finish).Kept ids := by
  induction run with
  | nil => exact initially
  | step earlier next continues hypothesis =>
    subst continues
    rw [next.marks.2]
    refine (hypothesis (List.forall_mem_append.mp named).1).after
      apart (named next (by simp))
  | drain earlier drained same hypothesis =>
    rw [(SameIn.of_get same).marks]
    exact hypothesis named

/-- A freeze by vote lasts along every run that does not unfreeze the account by vote. -/
theorem Run.marks_owned (run : Run start trace finish) (owned : (marksOf start).Owned id)
    (kept : ∀ next ∈ trace, ∀ targets, next.deed = .unfreeze targets → id ∉ targets) :
    (marksOf finish).Owned id := by
  induction run with
  | nil => exact owned
  | step earlier next continues hypothesis =>
    subst continues
    rw [next.marks.2]
    exact (hypothesis (List.forall_mem_append.mp kept).1).after
      next.marks.1 (kept next (by simp))
  | drain earlier drained same hypothesis =>
    rw [(SameIn.of_get same).marks]
    exact hypothesis kept

/-- Along every run from a ledger without marks, an account that a vote froze stays frozen until a
vote unfreezes it; the freezes of guardians are on different accounts, all frozen; and the stopped
issuers are those of frozen and blacklisted accounts. The marks of the ledger follow the deeds of
the run, and each deed keeps who owns what. -/
theorem freezes_owned (apart : Set.InjOn assetIdOf ids)
    (unmarked : ∀ key : LeafKey, key.region = .freezes → start.get key = none)
    (run : Run start trace finish)
    (named : ∀ next ∈ trace, ∀ id ∈ next.deed.names, id ∈ ids) :
    (∀ first froze second targets id, trace = first ++ froze :: second →
      froze.executed = some (.freeze targets) → id ∈ targets.filterMap idFromSlice →
      (∀ next ∈ second, ∀ others, next.executed = some (.unfreeze others) →
        id ∉ others.filterMap idFromSlice) →
      Leaves.isFrozenId finish.get id = true) ∧
    (∀ entry ∈ Leaves.guardianFreezeEntries finish.get,
      Leaves.isFrozenId finish.get entry.1 = true) ∧
    ((Leaves.guardianFreezeEntries finish.get).map Prod.fst).Nodup ∧
    (∀ id ∈ ids, Leaves.assetIssuerIsStopped finish.get (assetIdOf id) = true ↔
      Leaves.isFrozenId finish.get id = true ∨ Leaves.isGovBlacklisted finish.get id = true) := by
  have none : marksOf start = ⟨fun _ => false, fun _ => false, fun _ => false, []⟩ := by
    apply marksOf_eq
    all_goals intros; rw [unmarked _ rfl]; rfl
  have kept := run.marks_kept apart (by rw [none]; exact ⟨by simp [Marks.listed],
    by simp [Marks.listed], by simp [Marks.listed], fun _ _ => rfl⟩) named
  refine ⟨?_, fun entry held => kept.frozen entry.1 (List.mem_map_of_mem held), kept.distinct, ?_⟩
  · intro first froze second targets id cut executed target unnamed
    rw [cut, ← List.singleton_append, ← List.append_assoc] at run
    obtain ⟨middle, earlier, later⟩ := run.split
    have owned : (marksOf middle).Owned id := by
      obtain ⟨_, same⟩ := earlier.last
      rw [(SameIn.of_get same).marks, froze.marks.2, Transition.deed_of_executed executed]
      exact Marks.owned_freeze target
    refine (later.marks_owned owned ?_).frozen
    intro next among others unfreezes
    obtain ⟨list, voted, rfl⟩ := Transition.executed_of_unfreeze unfreezes
    exact unnamed next among list voted
  · intro id known
    rw [← Bool.or_eq_true]
    exact Bool.eq_iff_iff.mp (kept.agrees id known)

end Run

end Programs

/-- A ledger with one referendum, approved, on freezing an account. -/
def freezingLedger : Ledger :=
  (emptyLedger.write (.govReferendum 1)
    { Referendum.openReferendum 1 .blacklistKill [] 0 0 with status := .approved }).write
      (.govAction 1) (some (.freeze [holder.toList]))

/-- The vote is enacted, and the account is frozen. -/
theorem freezes_owned_enacted :
    letI := Platform.blank
    ∃ enacted : Transition, Run freezingLedger [enacted] enacted.after ∧
      enacted.executed = some (.freeze [holder.toList]) ∧
      Leaves.isFrozenId enacted.after.get holder = true ∧
      Leaves.assetIssuerIsStopped enacted.after.get (assetIdOf holder) = true := by
  let := Platform.blank
  let enacted : Transition := .take (momentAt 400000) (.govEnact 1 0) freezingLedger (.ok ())
    (by decide +kernel)
  have run : Run freezingLedger [enacted] enacted.after := .step .nil enacted rfl
  have unmarked : ∀ key : LeafKey, key.region = .freezes → freezingLedger.get key = none := by
    intro key inside
    rw [freezingLedger, get_write_ne _ (by rintro rfl; cases inside),
      get_write_ne _ (by rintro rfl; cases inside), get_emptyLedger]
  have executed : enacted.executed = some (.freeze [holder.toList]) := rfl
  have named : ∀ next ∈ [enacted], ∀ id ∈ next.deed.names, id ∈ ({holder} : Set Id) := by
    intro next among id target
    rw [List.mem_singleton.mp among, Transition.deed_of_executed executed] at target
    exact List.mem_singleton.mp target
  obtain ⟨frozen, _, _, stopped⟩ := freezes_owned (Set.injOn_singleton _ _) unmarked run named
  have holds := frozen [] enacted [] [holder.toList] holder rfl executed (by decide +kernel)
    (by simp)
  exact ⟨enacted, run, executed, holds, (stopped holder rfl).mpr (.inl holds)⟩

end QuantovaChain.Ledger
