import QuantovaChain.Governance.Quorum
import QuantovaChain.Ledger.Govern

/-!
# Failed enactments

Enacting a referendum is not a transaction of its own: a failed enactment keeps whatever it wrote
before it failed. So every action has to check all it needs before its first write. Here that is
read off the programs: an action returns an error only where it has written nothing, and a failed
enactment leaves what concluding the referendum leaves, apart from the action that an enactment
which came too late removes.

An enacted rotation installs every well formed set of guardians, also one that is unable to act.
-/

namespace QuantovaChain.Ledger

open State (Bytes Hash)
open Governance
open Transaction
open Transaction.Program (put)

variable {α : Type} {error : EnactError} {program other : LedgerM Enactment}

/-- Where the program ends, it has succeeded. -/
def Unfailing (program : LedgerM Enactment) : Prop :=
  ∀ ledger : Ledger, Ensures ledger program fun result _ => result = .ok ()

/-- Where the program ends with an error, it has written nothing and recorded nothing, and the error
is not that of an enactment which came too late. -/
def Clean (program : LedgerM Enactment) : Prop :=
  ∀ ledger : Ledger, Ensures ledger program fun result after =>
    result = .ok () ∨ after = ledger ∧ result ≠ .error .expired

theorem unfailing_ok : Unfailing (pure (.ok ())) :=
  fun _ => ensures_pure.mpr rfl

theorem Unfailing.after {next : α → LedgerM Enactment} (unfailing : ∀ value, Unfailing (next value))
    (first : LedgerM α) : Unfailing (first >>= next) :=
  fun _ => ensures_bind.mpr fun value _ => unfailing value _

theorem Unfailing.clean (unfailing : Unfailing program) : Clean program :=
  fun ledger => (unfailing ledger).mono fun _ _ => .inl

theorem clean_error (timely : error ≠ .expired) : Clean (pure (.error error)) :=
  fun _ => ensures_pure.mpr (.inr ⟨rfl, fun late => timely (Except.error.inj late)⟩)

theorem Clean.ite {check : Prop} [Decidable check] (first : Clean program) (second : Clean other) :
    Clean (if check then program else other) := by
  split
  · exact first
  · exact second

/-- Reading the ledger writes nothing. -/
theorem Clean.read {next : Leaves → LedgerM Enactment} (clean : ∀ state, Clean (next state)) :
    Clean (leaves >>= next) :=
  fun ledger => ensures_bind.mpr (ensures_leaves.mpr (clean _ ledger))

/-- A clean program that is followed, where it succeeds, by one that does not fail. -/
theorem Clean.followed (clean : Clean program) {next : Enactment → LedgerM Enactment}
    (passes : ∀ error, next (.error error) = pure (.error error))
    (unfailing : Unfailing (next (.ok ()))) : Clean (program >>= next) := by
  intro ledger
  refine (clean ledger).bind ?_
  intro result after ended
  cases result with
  | ok =>
    exact (unfailing after).mono fun _ _ => .inl
  | error error =>
    rw [passes, ensures_pure]
    exact .inr (ended.resolve_left (by simp))

/-! ## The actions -/

/-- A write that is followed only by writes and by success. -/
theorem clean_put {key : LeafKey} {value : LeafValue key} :
    Clean (put key value >>= fun _ => pure (.ok ())) :=
  (Unfailing.after (fun _ => unfailing_ok) _).clean

theorem applyParameter_clean (key value : Bytes) (now : U64) :
    Clean (applyParameter key value now) := by
  refine Clean.read fun state => ?_
  dsimp only
  repeat' first
    | exact clean_error (by decide)
    | exact clean_put
    | split
  exact (Unfailing.after (fun _ => .after (fun _ => unfailing_ok) _) _).clean

theorem enactMint_clean (recipient : Bytes) (amount now : U64) :
    Clean (enactMint recipient amount now) := by
  unfold enactMint
  split
  swap
  · exact clean_error (by decide)
  refine Clean.read fun state => ?_
  dsimp only
  repeat' first
    | exact clean_error (by decide)
    | split
  refine Unfailing.clean ?_
  repeat refine Unfailing.after (fun _ => ?_) _
  exact unfailing_ok

theorem enactRegister_clean (assetId : AssetId) (cap epochCap : U128) (requiresStark : Bool) :
    Clean (enactRegister assetId cap epochCap requiresStark) :=
  .ite (clean_error (by decide)) <| .ite (clean_error (by decide)) <|
    (Unfailing.after (fun _ => .after (fun _ => unfailing_ok) _) _).clean

section Actions

variable [Platform]

theorem govUnfreezeBridge_clean (now : U64) : Clean (govUnfreezeBridge now) :=
  .read fun _ => .ite (clean_error (by decide)) (Unfailing.after (fun _ => unfailing_ok) _).clean

theorem enactSpend_clean (source recipient : Bytes) (amount : U64) :
    Clean (enactSpend source recipient amount) := by
  unfold enactSpend
  split
  swap
  · exact clean_error (by decide)
  cases idFromSlice source with
  | none => exact clean_error (by decide)
  | some sourceId =>
  refine Clean.read fun state => ?_
  dsimp only
  repeat' first
    | exact clean_error (by decide)
    | split
  all_goals
    refine Unfailing.clean ?_
    repeat refine Unfailing.after (fun _ => ?_) _
    exact unfailing_ok

omit [Platform] in
/-- The victim's address is checked before the first seizure, and no seizure fails. -/
theorem enactRecovery_clean (scope : Hash) (victim : Bytes) (seizures : List Seizure) :
    Clean (enactRecovery scope victim seizures) := by
  unfold enactRecovery
  split
  swap
  · exact clean_error (by decide)
  refine Unfailing.clean ?_
  repeat refine Unfailing.after (fun _ => ?_) _
  exact unfailing_ok

theorem enactRotation_clean (rotation : CommitteeRotation) (chainId : U64) :
    Clean (enactRotation rotation chainId) := by
  unfold enactRotation
  repeat' first
    | exact clean_error (by decide)
    | split
  exact (Unfailing.after (fun _ => .after (fun _ => unfailing_ok) _) _).clean

/-- An action that fails has changed nothing. -/
theorem executeAction_clean (action : Action) (now chainId : U64) :
    Clean (executeAction action now chainId) := by
  refine Clean.read fun state => ?_
  cases action with
  | mint recipient amount => exact enactMint_clean recipient amount now
  | parameter key value =>
    exact (applyParameter_clean key value now).followed (fun _ => rfl)
      (.after (fun _ => unfailing_ok) _)
  | spend source recipient amount => exact enactSpend_clean source recipient amount
  | blacklist target => exact (Unfailing.after (fun _ => unfailing_ok) _).clean
  | freezeRecovery scope victim seizures => exact enactRecovery_clean scope victim seizures
  | freeze targets => exact (Unfailing.after (fun _ => .after (fun _ => unfailing_ok) _) _).clean
  | unfreeze targets => exact (Unfailing.after (fun _ => .after (fun _ => unfailing_ok) _) _).clean
  | bridgeMigration vault =>
    refine .ite (clean_error (by decide)) ?_
    split
    · exact (Unfailing.after (fun _ => unfailing_ok) _).clean
    · exact clean_error (by decide)
  | bridgeUnfreeze =>
    exact (govUnfreezeBridge_clean now).followed (fun _ => rfl) (.after (fun _ => unfailing_ok) _)
  | guardianRotate set =>
    exact .ite (clean_error (by decide))
      (Unfailing.after (fun _ => .after (fun _ => unfailing_ok) _) _).clean
  | committeeRotate rotation => exact enactRotation_clean rotation chainId
  | operatorRevoke operatorId =>
    dsimp only
    split
    swap
    · exact clean_error (by decide)
    split
    · exact (Unfailing.after (fun _ => .after (fun _ => unfailing_ok) _) _).clean
    · exact clean_error (by decide)
  | assetRegister assetId cap epochCap requiresStark =>
    exact enactRegister_clean assetId cap epochCap requiresStark
  | bridgeAnchorSet corridor anchor => exact clean_error (by decide)
  | epochAdvance =>
    dsimp only
    split
    · exact (Unfailing.after (fun _ => .after (fun _ => unfailing_ok) _) _).clean
    · exact clean_error (by decide)
  | activate feature version =>
    exact .ite (clean_error (by decide))
      (Unfailing.after (fun _ => .after (fun _ => unfailing_ok) _) _).clean

/-! ## Failed enactments -/

/-- What a failed enactment adds to the conclusion of its referendum: one that came too late removes
the action. -/
def withdrawn (referendumId : U64) (error : EnactError) (concluded : Ledger) : Ledger :=
  if error = .expired then concluded.write (.govAction referendumId) none else concluded

theorem govEnact_clean (context : Context) (referendumId now chainId : U64) (ledger : Ledger) :
    Ensures ledger (govEnact context referendumId now chainId) fun result after =>
      ∀ error, result = .error error →
        after = withdrawn referendumId error ((govConclude context referendumId now).plain ledger).2
        := by
  unfold govEnact
  refine (ensures_plain (govConclude context referendumId now)).bind ?_
  intro status concluded ended
  rw [ended]
  have refused : ∀ refusal, refusal ≠ EnactError.expired →
      Ensures concluded (pure (.error refusal) : LedgerM Enactment) fun result after =>
        ∀ error, result = .error error → after = withdrawn referendumId error concluded := by
    rintro refusal timely
    rw [ensures_pure]
    rintro error same
    cases same
    exact (if_neg timely).symm
  split
  swap
  · exact refused _ (by decide)
  split
  · exact refused _ (by decide)
  simp only [ensures_bind, ensures_leaves]
  split
  swap
  · exact refused _ (by decide)
  split
  swap
  · exact refused _ (by decide)
  split
  · simp only [clearGovAction, ensures_bind, ensures_put, ensures_pure]
    rintro error same
    cases same
    exact (if_pos rfl).symm
  split
  · exact refused _ (by decide)
  split
  · exact refused _ (by simp)
  refine (executeAction_clean _ now chainId concluded).bind ?_
  intro result after executed
  cases result with
  | ok =>
    refine (Unfailing.after (fun _ => .after (fun _ => .after (fun _ => unfailing_ok) _) _) _
      after).mono ?_
    rintro _ _ rfl error same
    cases same
  | error failure =>
    obtain ⟨rfl, timely⟩ := executed.resolve_left (by simp)
    exact refused failure fun late => timely (by rw [late])

/-- A failed enactment leaves what concluding the referendum leaves, without the action where it
came too late. An action or a parameter that is refused leaves the ledger as it was. In every
program the refusals come before the first write. -/
theorem govEnact_failed (before after : Ledger) (error : EnactError) (now chainId : U64) :
    (∀ context referendumId,
      (govEnact context referendumId now chainId).plain before = (some (.error error), after) →
        after = withdrawn referendumId error
          ((govConclude context referendumId now).plain before).2) ∧
    (∀ action, (executeAction action now chainId).plain before = (some (.error error), after) →
      after = before) ∧
    (∀ key value, (applyParameter key value now).plain before = (some (.error error), after) →
      after = before) := by
  have refused : ∀ {program : LedgerM Enactment}, Clean program →
      program.plain before = (some (.error error), after) → after = before := by
    intro program clean ended
    have outcome := clean before (.error error) (by rw [ended])
    rw [ended] at outcome
    exact (outcome.resolve_left (by simp)).1
  refine ⟨?_, fun action => refused (executeAction_clean action now chainId),
    fun key value => refused (applyParameter_clean key value now)⟩
  intro context referendumId ended
  have outcome := govEnact_clean context referendumId now chainId before (.error error)
    (by rw [ended])
  rw [ended] at outcome
  exact outcome error rfl

end Actions

/-- The first block of a chain with epochs of ten blocks. -/
def firstContext : Context := ⟨none, 1, 10, []⟩

/-- A ledger with one referendum, approved long ago, on the next bridge epoch. -/
def lateLedger : Ledger :=
  (emptyLedger.write (.govReferendum 1)
    { Referendum.openReferendum 1 .bridgeMigration [] 0 0 with status := .approved }).write
      (.govAction 1) (some .epochAdvance)

/-- An enactment at the end of time comes too late. -/
theorem govEnact_failed_late :
    letI := Platform.blank
    (govEnact firstContext 1 (Word.top 64) 0).plain lateLedger =
        (some (.error .expired), lateLedger.write (.govAction 1) none) ∧
      lateLedger.write (.govAction 1) none = withdrawn 1 .expired
        ((govConclude firstContext 1 (Word.top 64)).plain lateLedger).2 := by
  let := Platform.blank
  have enacted : (govEnact firstContext 1 (Word.top 64) 0).plain lateLedger =
      (some (.error .expired), lateLedger.write (.govAction 1) none) := rfl
  exact ⟨enacted, (govEnact_failed _ _ _ _ _).1 _ _ enacted⟩

/-! ## Guardians -/

/-- A rotation installs a well formed set, and no other. -/
theorem ensures_guardianRotate [Platform] (set : GuardianSet) (ledger : Ledger) (now chainId : U64) :
    Ensures ledger (executeAction (.guardianRotate set) now chainId) fun result after =>
      if set.wellFormed then result = .ok () ∧ Leaves.guardianSet after.get = set
      else after = ledger := by
  simp only [executeAction, ensures_bind, ensures_leaves]
  split
  next malformed =>
    rw [Bool.not_eq_true'] at malformed
    simp [malformed]
  next formed =>
    rw [Bool.not_eq_true', Bool.not_eq_false] at formed
    simp [formed, setGuardianSet, Leaves.guardianSet]

/-- Whatever set is in force or is installed by a rotation, quorums of it share a member. All of its
members together are a quorum exactly when the threshold is at most the number of distinct members,
cast to 32 bits; a rotation does not ask for that. Two quorums are together more than all members,
and a rotation installs well formed sets only. -/
theorem guardian_quorums [Platform] {set : GuardianSet} (formed : set.wellFormed = true) :
    (∀ first second, set.authorizes first = true → set.authorizes second = true →
        ∃ id ∈ set.members, id ∈ first ∧ id ∈ second) ∧
      (set.authorizes set.members = true ↔
        set.threshold.val ≤ set.members.toFinset.card % 2 ^ 32) ∧
      ∀ (rotated : GuardianSet) (ledger : Ledger) (now chainId : U64),
        Ensures ledger (executeAction (.guardianRotate rotated) now chainId) fun result after =>
          if rotated.wellFormed then result = .ok () ∧ Leaves.guardianSet after.get = rotated
          else after = ledger :=
  ⟨fun _ _ => GuardianSet.quorums_intersect, GuardianSet.members_authorize_iff formed,
    ensures_guardianRotate⟩

/-- Three guardians, two of which have to approve. -/
def threeGuardians : GuardianSet :=
  ⟨[Vector.replicate 32 1, Vector.replicate 32 2, Vector.replicate 32 3], 2⟩

theorem three_guardians_act : threeGuardians.authorizes threeGuardians.members = true :=
  (@guardian_quorums Platform.blank threeGuardians (by decide)).2.1.mpr (by decide)

/-- One guardian entered twice, both of which would have to approve. -/
def doubledGuardian : GuardianSet := ⟨[Vector.replicate 32 1, Vector.replicate 32 1], 2⟩

/-- A rotation installs a well formed set that nobody can approve anything for. -/
theorem doubled_guardian_never_acts :
    doubledGuardian.wellFormed = true ∧
      (∀ approvers, doubledGuardian.authorizes approvers = false) ∧
      ∀ (_ : Platform) (ledger : Ledger) (now chainId : U64), ∃ after,
        (executeAction (.guardianRotate doubledGuardian) now chainId).plain ledger =
          (some (.ok ()), after) ∧ Leaves.guardianSet after.get = doubledGuardian := by
  have formed : doubledGuardian.wellFormed = true := by decide
  refine ⟨formed, fun approvers => ?_, fun _ ledger now chainId => ⟨_, rfl, ?_⟩⟩
  · rw [← Bool.not_eq_true, GuardianSet.authorizes_iff]
    rintro ⟨-, enough⟩
    have single : doubledGuardian.members.toFinset.card = 1 := by decide
    have counted := Finset.card_le_card
      (Finset.inter_subset_left : doubledGuardian.members.toFinset ∩ approvers.toFinset ⊆ _)
    rw [single] at counted
    exact absurd (enough.trans ((Nat.mod_le ..).trans counted)) (by decide)
  · have installed := (ensures_guardianRotate doubledGuardian ledger now chainId).ended rfl
    rw [if_pos formed] at installed
    exact installed.2

end QuantovaChain.Ledger
