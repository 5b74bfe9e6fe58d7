import QuantovaChain.Ledger.Enactment
import QuantovaChain.Ledger.Operation

/-!
# The life of a referendum

A referendum is proposed under the next number, decided once its time is over, and its action is
executed at most once after that. Three leaves carry this: the number of the next referendum, the
referendum with its status, and the action, which is cleared when it is executed or came too late.
Every transition moves them one way only. A number is used once, so nothing brings a cleared action
back, and a status that has left `deciding` stays.
-/

namespace QuantovaChain.Ledger

open State (Bytes Hash)
open Idfmt (Text)
open Governance
open Transaction Transaction.State Leaves

variable {ledger before middle after : Ledger}

/-! ## Concluding -/

/-- Concluding a referendum reports its status, and changes at most that status, away from
`deciding`. -/
theorem govConclude_spec (context : Context) (referendumId now : U64) (ledger : Ledger) :
    Ensures ledger (govConclude context referendumId now) fun status after =>
      (SameIn .referenda ledger after ∧
        status = (govReferendum ledger.get referendumId).map Referendum.status) ∨
      ∃ referendum decided, govReferendum ledger.get referendumId = some referendum ∧
        referendum.status = .deciding ∧ decided ≠ .deciding ∧ status = some decided ∧
        after.get (.govReferendum referendumId) = some { referendum with status := decided } ∧
        ∀ key, key.region = .referenda → key ≠ .govReferendum referendumId →
          after.get key = ledger.get key := by
  unfold govConclude
  simp only [ensures_bind, ensures_leaves]
  cases found : govReferendum ledger.get referendumId with
  | none => exact ensures_pure.mpr (.inl ⟨.refl _ _, rfl⟩)
  | some referendum =>
  dsimp only
  split
  · exact ensures_pure.mpr (.inl ⟨.refl _ _, rfl⟩)
  next deciding =>
  rw [ne_eq, not_not] at deciding
  generalize Word.clamp 128 _ = electorate
  have resolved := referendum.resolve_eq now electorate
  generalize referendum.resolve now electorate = outcome at resolved ⊢
  obtain ⟨status, decided⟩ := outcome
  dsimp only at resolved ⊢
  subst resolved
  split
  next undecided =>
    rw [ensures_pure]
    exact .inl ⟨.refl _ _, by rw [undecided, Option.map_some, deciding]⟩
  next left =>
    have elsewhere : Region.referenda ∉ [Region.other] := by decide
    refine (Confined.same ledger elsewhere).bind ?_
    intro _ paid same
    simp only [setGovReferendum, ensures_bind, ensures_put, ensures_emitSide, ensures_pure]
    refine .inr ⟨referendum, status, rfl, deciding, left, rfl, ?_, ?_⟩
    · rw [get_pushSide, get_write_self]
    · intro key inside apart
      rw [get_pushSide, get_write_ne _ apart.symm]
      exact same key inside

/-- The actions are as before. -/
theorem govConclude_action (context : Context) (referendumId now : U64) (ledger : Ledger) :
    Ensures ledger (govConclude context referendumId now) fun _ after =>
      ∀ id, govAction after.get id = govAction ledger.get id := by
  refine (govConclude_spec context referendumId now ledger).mono ?_
  rintro _ after (⟨same, _⟩ | ⟨_, _, _, _, _, _, _, others⟩) id
  · rw [govAction, same _ rfl, govAction]
  · rw [govAction, others _ rfl (by simp), govAction]

/-- The referendum whose conclusion reports a status has that status. -/
theorem govConclude_status (context : Context) (referendumId now : U64) (ledger : Ledger) :
    Ensures ledger (govConclude context referendumId now) fun status after =>
      status = (govReferendum after.get referendumId).map Referendum.status := by
  refine (govConclude_spec context referendumId now ledger).mono ?_
  rintro _ after (⟨same, reported⟩ | ⟨_, _, _, _, _, reported, written, _⟩)
  · rw [reported, govReferendum, govReferendum, same _ rfl]
  · rw [reported, govReferendum, written, Option.map_some]

/-! ## Voting -/

/-- A vote: one more ballot, which the tally, the lock of the voter and the total of the locks
count. -/
structure Voted (now : U64) (before after : Ledger) (referendumId : U64) (voter : Id)
    (ballot : Ballot) (referendum : Referendum) : Prop where
  found : govReferendum before.get referendumId = some referendum
  deciding : referendum.status = .deciding
  early : now.val < referendum.decidesAt.val
  first : govBallot before.get referendumId voter = none
  tallied : govReferendum after.get referendumId = some { referendum with
    tally := referendum.tally.recordConviction ballot.aye ballot.conviction ballot.stake }
  others : ∀ key, key.region = .referenda → key ≠ .govReferendum referendumId →
    after.get key = before.get key
  cast : govBallot after.get referendumId voter = some ballot
  ballots : ∀ id other, (id, other) ≠ (referendumId, voter) →
    govBallot after.get id other = govBallot before.get id other
  locked : ∃ release : U64, referendum.decidesAt.val ≤ release.val ∧
    govLock after.get voter = some (Leaves.lockedFor before.get voter ballot.stake release)
  locks : ∀ other, other ≠ voter →
    govLock after.get other = govLock before.get other
  total : (govTotalLocked after.get).val =
    (govTotalLocked before.get).val + ballot.stake.val

theorem govVote_spec (context : Context) (voter : Text) (referendumId : U64) (aye : Bool)
    (conviction : Conviction) (stake now : U64) :
    Ensures ledger (govVote context voter referendumId aye conviction stake now) fun accepted after =>
      (accepted = false ∧ after = ledger) ∨
      ∃ id referendum, addressId voter = some id ∧
        Voted now ledger after referendumId id ⟨aye, conviction, stake⟩ referendum := by
  unfold govVote
  split
  swap
  · simp
  next id spelled =>
  simp only [ensures_bind, ensures_leaves]
  cases found : govReferendum ledger.get referendumId with
  | none => simp
  | some referendum =>
  dsimp only
  repeat' first | exact ensures_pure.mpr (.inl ⟨rfl, rfl⟩) | split
  next undecided first _ _ _ _ _ =>
  simp only [Bool.or_eq_true, decide_eq_true_iff, not_or, not_not] at undecided
  obtain ⟨deciding, unready⟩ := undecided
  simp only [setAccount, setGovLock, setGovTotalLocked, setGovReferendum, setGovBallot,
    ensures_bind, ensures_put, ensures_expect, ensures_emitSide, ensures_pure]
  intro total counted
  rw [Word.ofNat?_eq_some] at counted
  refine .inr ⟨id, referendum, spelled, ?_⟩
  constructor
  case found => exact found
  case deciding => exact deciding
  case early =>
    rw [Referendum.ready, decide_eq_true_iff, Word.le_def] at unready
    omega
  case first => simpa using first
  case tallied => simp [govReferendum]
  case others =>
    intro key inside apart
    rw [get_pushSide, get_write_ne _ (by rintro rfl; cases inside), get_write_ne _ apart.symm,
      get_write_ne _ (by rintro rfl; cases inside), get_write_ne _ (by rintro rfl; cases inside),
      get_write_ne _ (by rintro rfl; cases inside)]
  case cast => simp [govBallot]
  case ballots =>
    intro other someone apart
    have elsewhere : LeafKey.govBallot referendumId id ≠ .govBallot other someone := by
      rintro ⟨rfl, rfl⟩
      exact apart rfl
    simp [govBallot, elsewhere]
  case locked =>
    refine ⟨max (now.satAdd conviction.lockSeconds) referendum.decidesAt, ?_, ?_⟩
    · rw [Word.val_max]
      exact le_max_right _ _
    · simp [govLock]
  case locks =>
    intro other apart
    simp [govLock, Ne.symm apart]
  case total => simp [govTotalLocked, counted]

/-! ## Proposing -/

/-- A referendum is proposed under the next number. -/
structure Submitted (before after : Ledger) (referendum : Referendum) : Prop where
  empty : referendum.tally = .empty
  written : govReferendum after.get (govNextId before.get) = some referendum
  next : (govNextId after.get).val = (govNextId before.get).val + 1
  others : ∀ id, id ≠ govNextId before.get →
    govReferendum after.get id = govReferendum before.get id ∧
      govAction after.get id = govAction before.get id

theorem govPropose_spec (context : Context) (proposer : Text) (track : Track) (action : Action)
    (now : U64) :
    Ensures ledger (govPropose context proposer track action now) fun _ after =>
      after = ledger ∨ ∃ referendum, Submitted ledger after referendum := by
  unfold govPropose
  repeat' first | exact ensures_pure.mpr (.inl rfl) | split
  simp only [ensures_bind, ensures_leaves]
  repeat' first | exact ensures_pure.mpr (.inl rfl) | split
  simp only [ensures_bind, ensures_leaves, setAccount, setGovReferendum, setGovAction,
    setGovElectorate, setGovNextId, ensures_put, ensures_expect, ensures_emitSide, ensures_pure,
    Word.checkedAdd_eq_some]
  intro next succeeds
  have same : ∀ {ref account}, govNextId (ledger.write (.account ref) account).get =
      govNextId ledger.get := by simp [govNextId]
  rw [same] at succeeds ⊢
  generalize submitted : Referendum.openReferendum _ _ _ _ _ = referendum
  refine .inr ⟨referendum, submitted ▸ rfl, by simp [govReferendum], ?_, fun id apart => ?_⟩
  · rw [govNextId, get_pushSide, get_write_self]
    exact succeeds
  · simp [govReferendum, govAction, Ne.symm apart]

/-! ## Enacting -/

section Enacting

variable [Platform] {context : Context} {referendumId now chainId : U64}

/-- What happened in an enactment that succeeded: the referendum was concluded as approved, it was
in its window, its action kept to the track and was executed, and was then cleared. -/
structure Enacted (context : Context) (referendumId now chainId : U64) (action : Action)
    (referendum : Referendum) (before concluded executed after : Ledger) : Prop where
  concludes : (govConclude context referendumId now).plain before =
    (some (some .approved), concluded)
  found : govReferendum concluded.get referendumId = some referendum
  approved : referendum.status = .approved
  enactable : referendum.enactable now = true
  tracked : action.track = referendum.track
  stored : govAction before.get referendumId = some action
  executes : (executeAction action now chainId).plain concluded = (some (.ok ()), executed)
  cleared : after.get (.govAction referendumId) = some none
  same : ∀ key, key ≠ .govAction referendumId → key ≠ .govReceipt referendumId →
    after.get key = executed.get key

omit [Platform] in
theorem track_of_checkEnactment {track : Track} {action : Action} {scopeOk : Bool}
    {isProtected : Bytes → Bool} (passed : checkEnactment track action scopeOk isProtected = .ok ()) :
    action.track = track := by
  unfold checkEnactment at passed
  by_contra apart
  rw [if_pos apart] at passed
  cases passed

theorem govEnact_enacted (ran : (govEnact context referendumId now chainId).plain before =
    (some (.ok ()), after)) :
    ∃ action referendum concluded executed, Enacted context referendumId now chainId action
      referendum before concluded executed after := by
  suffices outcome : Ensures before (govEnact context referendumId now chainId)
      fun result after => result = .ok () →
        ∃ action referendum concluded executed, Enacted context referendumId now chainId action
          referendum before concluded executed after from outcome.ended ran rfl
  unfold govEnact
  refine ((ensures_plain _).and ((govConclude_action context referendumId now before).and
    (govConclude_status context referendumId now before))).bind ?_
  rintro status concluded ⟨ended, actions, reported⟩
  cases status with
  | none => simp
  | some status =>
  dsimp only
  split
  · simp
  next approved =>
  rw [ne_eq, not_not] at approved
  subst approved
  simp only [ensures_bind, ensures_leaves]
  cases stored : govAction concluded.get referendumId with
  | none => simp
  | some action =>
  cases found : govReferendum concluded.get referendumId with
  | none => simp
  | some referendum =>
  dsimp only
  split
  · simp [clearGovAction]
  split
  · simp
  next enactable =>
  rw [Bool.not_eq_true', Bool.not_eq_false] at enactable
  split
  · simp
  next passed =>
  refine (ensures_plain (executeAction action now chainId)).bind ?_
  intro result executed done
  cases result with
  | error error => simp
  | ok =>
    simp only [setGovReceipt, clearGovAction, ensures_bind, ensures_put, ensures_emitSide,
      ensures_pure]
    intro _
    refine ⟨action, referendum, concluded, executed, ended, found, ?_, enactable,
      track_of_checkEnactment passed, actions referendumId ▸ stored, done, ?_, ?_⟩
    · rw [found, Option.map_some, Option.some.injEq] at reported
      exact reported.symm
    · rw [get_pushSide, get_write_self]
    · intro key noAction noReceipt
      rw [get_pushSide, get_write_ne _ noAction.symm, get_write_ne _ noReceipt.symm]

/-- For the leaves that neither concluding nor the record of an enactment touches, an enactment is
the execution of its action, and a failed one is nothing. -/
theorem govEnact_within {result : Enactment} (region : Region)
    (ran : (govEnact context referendumId now chainId).plain before = (some result, after))
    (outside : region ∉ [Region.other, Region.referenda]) :
    (∃ error, result = .error error) ∧ SameIn region before after ∨
      result = .ok () ∧ ∃ action concluded executed,
        govAction before.get referendumId = some action ∧ SameIn region before concluded ∧
        (executeAction action now chainId).plain concluded = (some (.ok ()), executed) ∧
        SameIn region executed after := by
  have unread : ∀ key : LeafKey, key.region = region →
      key ≠ .govAction referendumId ∧ key ≠ .govReceipt referendumId := by
    intro key inside
    constructor
    · rintro rfl
      exact outside (inside ▸ .tail _ (.head _))
    · rintro rfl
      exact outside (inside ▸ .head _)
  have conclusion := (govConclude_confined context referendumId now).plain_same before outside
  cases result with
  | error error =>
    refine .inl ⟨⟨error, rfl⟩, ?_⟩
    rw [(govEnact_clean context referendumId now chainId before).ended ran error rfl]
    refine conclusion.trans fun key inside => ?_
    unfold withdrawn
    split
    · exact get_write_ne _ (unread key inside).1.symm
    · rfl
  | ok =>
    obtain ⟨action, referendum, concluded, executed, enacted⟩ := govEnact_enacted ran
    rw [enacted.concludes] at conclusion
    refine .inr ⟨rfl, action, concluded, executed, enacted.stored, conclusion, enacted.executes,
      fun key inside => ?_⟩
    exact enacted.same key (unread key inside).1 (unread key inside).2

/-- What holds of a ledger after concluding, and is said of the referenda, is kept by an enactment
if it is kept when the action is cleared. -/
theorem govEnact_keeps {holds : Ledger → Prop}
    (concludes : Ensures ledger (govConclude context referendumId now) fun _ after => holds after)
    (same : ∀ {before after}, holds before → SameIn .referenda before after → holds after)
    (clears : ∀ {ledger}, holds ledger → holds (ledger.write (.govAction referendumId) none)) :
    Ensures ledger (govEnact context referendumId now chainId) fun _ after => holds after := by
  unfold govEnact
  refine concludes.bind ?_
  intro status concluded held
  split
  swap
  · simpa using held
  split
  · simpa using held
  simp only [ensures_bind, ensures_leaves]
  split
  swap
  · simpa using held
  split
  swap
  · simpa using held
  split
  · simpa [clearGovAction] using clears held
  split
  · simpa using held
  split
  · simpa using held
  have elsewhere : Region.referenda ∉ [Region.other, .stakes, .votes, .freezes] := by decide
  refine (Confined.same concluded elsewhere).bind ?_
  intro result executed unchanged
  have held := same held unchanged
  cases result with
  | error error => simpa using held
  | ok =>
    simp only [setGovReceipt, clearGovAction, ensures_bind, ensures_put, ensures_emitSide,
      ensures_pure]
    refine same (clears (same held fun key inside => ?_)) fun _ _ => rfl
    exact get_write_ne _ (by rintro rfl; cases inside)

section Recovering

variable {holds : Ledger → Prop} {region : Region} (outside : region ∉ [Region.other, .freezes])
  (same : ∀ {before after}, holds before → SameIn region before after → holds after)
  (bond : ∀ {ledger} source remaining, holds ledger →
    Ensures ledger (seizeBond source remaining) fun _ after => holds after)
  (lock : ∀ {ledger} source still, holds ledger →
    Ensures ledger (seizeLock source still) fun _ after => holds after)

include outside same bond lock

omit [Platform] in
theorem seize_keeps (held : holds ledger) (source : Id) (amount : U64) :
    Ensures ledger (seize source amount) fun _ after => holds after := by
  unfold seize
  simp only [ensures_bind, ensures_leaves]
  refine (confined_put.same ledger outside).mono ?_
  intro _ taken unchanged
  have held := same held unchanged
  split
  · simpa using held
  refine (bond source _ held).bind ?_
  intro fromBond _ held
  split
  · simpa using held
  refine (lock source _ held).bind ?_
  intro fromLock _ held
  simpa using held

omit [Platform] in
theorem seizeAll_keeps (held : holds ledger) (victim : Text) (scope : Hash)
    (seizures : List Seizure) (recovered : U64) :
    Ensures ledger (seizeAll victim scope seizures recovered) fun _ after => holds after := by
  induction seizures generalizing recovered ledger with
  | nil => simpa [seizeAll] using held
  | cons seizure rest hypothesis =>
    rw [seizeAll]
    split
    · exact hypothesis held recovered
    · refine (seize_keeps outside same bond lock held _ _).bind ?_
      intro take seized held
      rw [ensures_bind, ensures_emitSide]
      exact hypothesis (same held fun _ _ => get_pushSide _) _

/-- What every seizure keeps, and is said of a region that no other step of an action writes, is
kept by every action. -/
theorem executeAction_keeps (held : holds ledger) (action : Action) (now chainId : U64) :
    Ensures ledger (executeAction action now chainId) fun _ after => holds after := by
  cases recovering : recovers action with
  | false =>
    exact ((executeAction_marking recovering now chainId).same ledger outside).mono
      fun _ _ => same held
  | true =>
    cases action with
    | freezeRecovery scope victim seizures =>
      unfold executeAction enactRecovery
      simp only [ensures_bind, ensures_leaves]
      split
      swap
      · simpa using held
      refine (seizeAll_keeps outside same bond lock held _ scope seizures 0).bind ?_
      intro recovered seized held
      exact (Confined.same seized outside).mono fun _ _ => same held
    | _ => cases recovering

end Recovering

end Enacting

/-! ## The course of referenda -/

/-- Numbers from the next one on are free. -/
def Numbered (ledger : Ledger) : Prop :=
  ∀ id, govNextId ledger.get ≤ id →
    govReferendum ledger.get id = none ∧ govAction ledger.get id = none

/-- How the referenda may move on: a decided referendum stays as it is, and one without an action
gets none. -/
structure Proceeds (before after : Ledger) : Prop where
  numbered : Numbered after
  kept : ∀ id referendum, govReferendum before.get id = some referendum →
    ∃ later, govReferendum after.get id = some later ∧
      (referendum.status ≠ .deciding → later = referendum)
  spent : ∀ id, (govReferendum before.get id).isSome →
    govAction before.get id = none → govAction after.get id = none

namespace Proceeds

theorem of_same (numbered : Numbered before) (same : SameIn .referenda before after) :
    Proceeds before after where
  numbered id free := by
    rw [govNextId, same _ rfl] at free
    rw [govReferendum, govAction, same _ rfl, same _ rfl]
    exact numbered id free
  kept id referendum found := by
    refine ⟨referendum, ?_, fun _ => rfl⟩
    rw [govReferendum, same _ rfl]
    exact found
  spent id _ none := by
    rw [govAction, same _ rfl]
    exact none

theorem trans (first : Proceeds before middle) (second : Proceeds middle after) :
    Proceeds before after where
  numbered := second.numbered
  kept id referendum found := by
    obtain ⟨later, foundLater, sameLater⟩ := first.kept id referendum found
    obtain ⟨last, foundLast, sameLast⟩ := second.kept id later foundLater
    refine ⟨last, foundLast, fun decided => ?_⟩
    obtain rfl := sameLater decided
    exact sameLast decided
  spent id found none := by
    obtain ⟨referendum, found⟩ := Option.isSome_iff_exists.mp found
    obtain ⟨later, foundLater, _⟩ := first.kept id referendum found
    exact second.spent id (by rw [foundLater]; rfl) (first.spent id (by rw [found]; rfl) none)

/-- Clearing an action. -/
theorem cleared (numbered : Numbered before) (id : U64) :
    Proceeds before (before.write (.govAction id) none) := by
  have actions : ∀ other, govAction before.get other = none →
      govAction (before.write (.govAction id) none).get other = none := by
    intro other absent
    by_cases here : id = other
    · subst here
      rw [govAction, get_write_self]
      rfl
    · rw [govAction, get_write_ne _ (by simpa using here)]
      exact absent
  have referenda : ∀ other, govReferendum (before.write (.govAction id) none).get other =
      govReferendum before.get other := by
    intro other
    rw [govReferendum, govReferendum, get_write_ne _ (by simp)]
  constructor
  case numbered =>
    intro other free
    rw [govNextId, get_write_ne _ (by simp)] at free
    obtain ⟨noReferendum, noAction⟩ := numbered other free
    exact ⟨(referenda other).trans noReferendum, actions other noAction⟩
  case kept =>
    intro other referendum found
    exact ⟨referendum, (referenda other).trans found, fun _ => rfl⟩
  case spent => exact fun other _ none => actions other none

/-- A referendum that is still deciding is written. -/
theorem rewritten (numbered : Numbered before) {id : U64} {referendum later : Referendum}
    (found : govReferendum before.get id = some referendum)
    (deciding : referendum.status = .deciding)
    (written : after.get (.govReferendum id) = some later)
    (others : ∀ key, key.region = .referenda → key ≠ .govReferendum id →
      after.get key = before.get key) : Proceeds before after := by
  have referenda : ∀ other, other ≠ id → govReferendum after.get other =
      govReferendum before.get other := by
    intro other apart
    rw [govReferendum, others _ rfl (by simpa using apart), govReferendum]
  have actions : ∀ other, govAction after.get other = govAction before.get other := by
    intro other
    rw [govAction, others _ rfl (by simp), govAction]
  constructor
  case numbered =>
    intro other free
    rw [govNextId, others _ rfl (by simp)] at free
    obtain ⟨noReferendum, noAction⟩ := numbered other free
    have apart : other ≠ id := by
      rintro rfl
      rw [noReferendum] at found
      cases found
    exact ⟨(referenda other apart).trans noReferendum, (actions other).trans noAction⟩
  case kept =>
    intro other prior present
    by_cases here : other = id
    · subst here
      rw [found, Option.some.injEq] at present
      subst present
      exact ⟨later, written, fun decided => absurd deciding decided⟩
    · exact ⟨prior, (referenda other here).trans present, fun _ => rfl⟩
  case spent => exact fun other _ none => (actions other).trans none

/-- A referendum is submitted under the next number. -/
theorem submitted (numbered : Numbered before) {referendum : Referendum}
    (submitted : Submitted before after referendum) : Proceeds before after := by
  have taken : ∀ {id}, (govReferendum before.get id).isSome →
      id ≠ govNextId before.get := by
    rintro id present rfl
    rw [(numbered _ (Nat.le_refl _)).1] at present
    cases present
  constructor
  case numbered =>
    intro id free
    rw [Word.le_def, submitted.next] at free
    obtain ⟨referenda, actions⟩ := submitted.others id (by
      rintro rfl
      omega)
    rw [referenda, actions]
    exact numbered id (Word.le_def.mpr (by omega))
  case kept =>
    intro id prior present
    exact ⟨prior, (submitted.others id (taken (by rw [present]; rfl))).1.trans present, fun _ => rfl⟩
  case spent => exact fun id present none => (submitted.others id (taken present)).2.trans none

end Proceeds

theorem govConclude_proceeds (numbered : Numbered ledger) (context : Context)
    (referendumId now : U64) :
    Ensures ledger (govConclude context referendumId now) fun _ after => Proceeds ledger after := by
  refine (govConclude_spec context referendumId now ledger).mono ?_
  rintro _ after (⟨same, _⟩ | ⟨_, _, found, deciding, _, _, written, others⟩)
  · exact .of_same numbered same
  · exact .rewritten numbered found deciding written others

theorem govPropose_proceeds (numbered : Numbered ledger) (context : Context) (proposer : Text)
    (track : Track) (action : Action) (now : U64) :
    Ensures ledger (govPropose context proposer track action now) fun _ after =>
      Proceeds ledger after := by
  refine (govPropose_spec context proposer track action now).mono ?_
  rintro _ after (rfl | ⟨_, submitted⟩)
  · exact .of_same numbered (.refl _ _)
  · exact .submitted numbered submitted

theorem govVote_proceeds (numbered : Numbered ledger) (context : Context) (voter : Text)
    (referendumId : U64) (aye : Bool) (conviction : Conviction) (stake now : U64) :
    Ensures ledger (govVote context voter referendumId aye conviction stake now) fun _ after =>
      Proceeds ledger after := by
  refine (govVote_spec context voter referendumId aye conviction stake now).mono ?_
  rintro _ after (⟨_, rfl⟩ | ⟨_, _, _, voted⟩)
  · exact .of_same numbered (.refl _ _)
  · exact .rewritten numbered voted.found voted.deciding voted.tallied voted.others

section Runs

variable [Platform]

theorem govEnact_proceeds (numbered : Numbered ledger) (context : Context)
    (referendumId now chainId : U64) :
    Ensures ledger (govEnact context referendumId now chainId) fun _ after =>
      Proceeds ledger after :=
  govEnact_keeps (govConclude_proceeds numbered context referendumId now)
    (fun proceeds same => proceeds.trans (.of_same proceeds.numbered same))
    fun proceeds => proceeds.trans (.cleared proceeds.numbered referendumId)

/-- Every transition lets the referenda proceed. -/
theorem Transition.proceeds (next : Transition) (numbered : Numbered next.before) :
    Proceeds next.before next.after := by
  by_cases touched : .referenda ∈ next.operation.regions
  · obtain ⟨moment, operation, result, before, after, ran⟩ := next
    cases operation with
    | govPropose proposer track action =>
      exact (govPropose_proceeds numbered _ _ _ _ _).ended ran
    | govVote voter referendumId aye conviction stake =>
      exact (govVote_proceeds numbered _ _ _ _ _ _ _).ended ran
    | govConclude referendumId => exact (govConclude_proceeds numbered _ _ _).ended ran
    | govEnact referendumId chainId => exact (govEnact_proceeds numbered _ _ _ _).ended ran
    | _ => simp [Operation.regions] at touched
  · exact .of_same numbered (next.same touched)

variable {next : Transition} {trace : List Transition}

/-- The referenda proceed along every run. -/
theorem Run.proceeds {start finish : Ledger} (numbered : Numbered start)
    (run : Run start trace finish) : Proceeds start finish := by
  refine run.invariant (fun _ ledger => Proceeds start ledger)
    (.of_same numbered (.refl _ _)) ?_ ?_
  · intro _ next earlier
    exact earlier.trans (next.proceeds earlier.numbered)
  · intro _ ledger drained same earlier
    exact earlier.trans (.of_same earlier.numbered (.of_get same))

/-! ## The discipline of enactment -/

/-- The referendum whose action an operation executed. -/
def Operation.enacted {α : Type} : Operation α → α → Option U64
  | .govEnact referendumId _, .ok () => some referendumId
  | _, _ => none

/-- The transition executed the action of a referendum. -/
def Transition.Enacts (next : Transition) (referendumId : U64) : Prop :=
  next.operation.enacted next.result = some referendumId

/-- What an execution is allowed on: the action that is stored, of the track of the referendum,
which is concluded as approved and in its window. -/
structure Transition.Due (next : Transition) (referendumId : U64) (action : Action)
    (referendum : Referendum) (concluded : Ledger) : Prop where
  stored : govAction next.before.get referendumId = some action
  concludes : (govConclude next.moment.context referendumId next.moment.now).plain next.before =
    (some (some .approved), concluded)
  found : govReferendum concluded.get referendumId = some referendum
  approved : referendum.status = .approved
  opened : referendum.enactmentOpens ≤ next.moment.now
  timely : next.moment.now.val < referendum.enactmentOpens.val + enactmentWindow.val
  tracked : action.track = referendum.track
  executes : ∃ chainId executed,
    (executeAction action next.moment.now chainId).plain concluded = (some (.ok ()), executed)

theorem Transition.Enacts.enacted {referendumId : U64} (enacts : next.Enacts referendumId) :
    ∃ chainId action referendum concluded executed, Enacted next.moment.context referendumId
      next.moment.now chainId action referendum next.before concluded executed next.after := by
  obtain ⟨moment, operation, result, before, after, ran⟩ := next
  cases operation with
  | govEnact id chainId =>
    cases result with
    | ok =>
      obtain rfl : id = referendumId := Option.some.inj enacts
      exact ⟨chainId, govEnact_enacted ran⟩
    | error error => cases enacts
  | _ => cases enacts

theorem Transition.Enacts.due {referendumId : U64} (enacts : next.Enacts referendumId) :
    ∃ action referendum concluded, next.Due referendumId action referendum concluded := by
  obtain ⟨chainId, action, referendum, concluded, executed, enacted⟩ := enacts.enacted
  have window := enacted.enactable
  simp only [Referendum.enactable, Referendum.enactmentExpired, Bool.and_eq_true, Bool.not_eq_true',
    decide_eq_true_eq, decide_eq_false_iff_not, Word.le_def, Word.val_satAdd, not_le] at window
  refine ⟨action, referendum, concluded, enacted.stored, enacted.concludes, enacted.found,
    enacted.approved, window.1, ?_, enacted.tracked, chainId, executed, enacted.executes⟩
  omega

/-- An executed action is stored before and cleared after. -/
theorem Transition.Enacts.spends {referendumId : U64} (enacts : next.Enacts referendumId) :
    (govAction next.before.get referendumId).isSome ∧
      (govReferendum next.after.get referendumId).isSome ∧
      govAction next.after.get referendumId = none := by
  obtain ⟨chainId, action, referendum, concluded, executed, enacted⟩ := enacts.enacted
  have elsewhere : Region.referenda ∉ [Region.other, .stakes, .votes, .freezes] := by decide
  have same := (Confined.same concluded elsewhere).ended enacted.executes
  refine ⟨by rw [enacted.stored]; rfl, ?_, by rw [govAction, enacted.cleared]; rfl⟩
  rw [govReferendum, enacted.same _ (by simp) (by simp), same _ rfl]
  exact Option.isSome_of_mem enacted.found

/-- Where executed actions are gone, no action is executed twice. -/
structure Spent (trace : List Transition) (ledger : Ledger) : Prop where
  numbered : Numbered ledger
  gone : ∀ past ∈ trace, ∀ id, past.Enacts id →
    (govReferendum ledger.get id).isSome ∧ govAction ledger.get id = none
  once : trace.Pairwise fun earlier later => ∀ id, earlier.Enacts id → ¬ later.Enacts id

theorem Spent.drained (spent : Spent trace before)
    (same : after.get = before.get) : Spent trace after where
  numbered := (Proceeds.of_same spent.numbered (.of_get same)).numbered
  gone := by rw [same]; exact spent.gone
  once := spent.once

theorem Spent.step (spent : Spent trace next.before) : Spent (trace ++ [next]) next.after := by
  have proceeds := next.proceeds spent.numbered
  constructor
  case numbered => exact proceeds.numbered
  case gone =>
    intro past among id enacts
    rcases List.mem_append.mp among with among | among
    · obtain ⟨found, none⟩ := spent.gone past among id enacts
      obtain ⟨referendum, stood⟩ := Option.isSome_iff_exists.mp found
      obtain ⟨later, stands, _⟩ := proceeds.kept id referendum stood
      exact ⟨by rw [stands]; rfl, proceeds.spent id found none⟩
    · obtain rfl := List.mem_singleton.mp among
      exact enacts.spends.2
  case once =>
    refine List.pairwise_append.mpr ⟨spent.once, List.pairwise_singleton _ _, ?_⟩
    intro past among later same id enacted enacts
    obtain rfl := List.mem_singleton.mp same
    have present := enacts.spends.1
    rw [(spent.gone past among id enacted).2] at present
    cases present

/-- Along every run from a ledger without referenda, an action is executed at most once, when its
referendum is approved, in its window and on its track; and a referendum that has left `deciding`
stays as it is. By induction on the run, an executed action is spent and its referendum decided. -/
theorem enactment_discipline {start finish : Ledger} {trace : List Transition}
    (unvoted : ∀ key : LeafKey, key.region = .referenda → start.get key = none)
    (run : Run start trace finish) :
    (trace.Pairwise fun earlier later => ∀ id, earlier.Enacts id → ¬ later.Enacts id) ∧
    (∀ next ∈ trace, ∀ id, next.Enacts id →
      ∃ action referendum concluded, next.Due id action referendum concluded) ∧
    (∀ first second middle, trace = first ++ second → Run start first middle →
      Run middle second finish → ∀ id referendum,
        Leaves.govReferendum middle.get id = some referendum → referendum.status ≠ .deciding →
        Leaves.govReferendum finish.get id = some referendum) := by
  have numbered : Numbered start := fun id _ => by
    rw [govReferendum, govAction, unvoted _ rfl, unvoted _ rfl]
    exact ⟨rfl, rfl⟩
  refine ⟨?_, fun next _ id enacts => enacts.due, ?_⟩
  · have spent := run.invariant Spent ⟨numbered, by simp, .nil⟩ (fun _ _ spent => spent.step)
      fun _ _ _ same spent => spent.drained same
    exact spent.once
  · intro first second middle _ earlier later id referendum found decided
    obtain ⟨last, foundLast, same⟩ :=
      (later.proceeds (earlier.proceeds numbered).numbered).kept id referendum found
    rw [foundLast, same decided]

end Runs

def wholeStake : U64 := 1000000000

/-- A ledger with one bond, matured since the first epoch, and no referenda. -/
def bondedLedger : Ledger :=
  ((emptyLedger.write (.account (.parsed holder)) ⟨0, Word.top 64, 0, []⟩).write .stakeTotal
    wholeStake).write (.stakeBond holder) (some ⟨wholeStake, 0, none, wholeStake, 0⟩)

theorem get_bondedLedger {key : LeafKey}
    (inside : key.region = .votes ∨ key.region = .referenda) : bondedLedger.get key = none := by
  rcases inside with inside | inside <;>
    rw [bondedLedger, get_write_ne _ (by rintro rfl; cases inside),
      get_write_ne _ (by rintro rfl; cases inside), get_write_ne _ (by rintro rfl; cases inside),
      get_emptyLedger]

/-- The holder of the bond makes a proposal. -/
def bondedProposal : @Transition Platform.blank :=
  letI := Platform.blank
  .take (momentAt 0) (.govPropose (addressOf holder) .bridgeMigration .epochAdvance) bondedLedger
    (some 1) (by decide +kernel)

/-- The holder of the bond votes with the whole stake. -/
def bondedVote : @Transition Platform.blank :=
  letI := Platform.blank
  .take (momentAt 5) (.govVote (addressOf holder) 1 true .liquid wholeStake)
    (@Transition.after Platform.blank bondedProposal) true (by decide +kernel)

/-- A referendum is proposed, carried by the whole stake and enacted. -/
theorem enactment_discipline_carried :
    letI := Platform.blank
    ∃ proposed voted enacted : Transition, ∃ finish : Ledger,
      Run bondedLedger [proposed, voted, enacted] finish ∧ enacted.Enacts 1 ∧
      (∃ action referendum concluded, enacted.Due 1 action referendum concluded) ∧
      ¬ proposed.Enacts 1 := by
  let := Platform.blank
  let enacted : Transition := .take (momentAt 1814400) (.govEnact 1 0) bondedVote.after (.ok ())
    (by decide +kernel)
  have run : Run bondedLedger [bondedProposal, bondedVote, enacted] enacted.after :=
    .step (.step (.step .nil bondedProposal rfl) bondedVote (Transition.take_before ..)) enacted
      (Transition.take_before ..)
  obtain ⟨once, due, _⟩ := enactment_discipline (fun _ inside => get_bondedLedger (.inr inside)) run
  refine ⟨_, _, enacted, enacted.after, run, rfl, due enacted (by simp) 1 rfl, ?_⟩
  intro enacts
  exact (List.pairwise_cons.mp once).1 enacted (by simp) 1 enacts rfl

end QuantovaChain.Ledger
