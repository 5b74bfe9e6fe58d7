import QuantovaChain.Ledger.Electorate

/-!
# Weight within an epoch

A bond keeps what of it counted when it was last changed, and the height of that change. Within the
epoch of the change the bond counts with what it kept, and every change keeps what counts at its
own height. So no number of raises, exits and returns within an epoch moves the weight of anyone in
that epoch: a raise counts from the next epoch on, and so does an exit.
-/

namespace QuantovaChain.Staking.Bond

variable {bond : Bond} {height length : U64}

theorem amountInEpoch_le (bond : Bond) (epoch length : U64) :
    (bond.amountInEpoch epoch length).val ≤ bond.amount.val := by
  unfold amountInEpoch
  split
  · exact Nat.le_refl _
  split
  · exact Nat.le_refl _
  · rw [Word.val_min]
    exact Nat.min_le_right _ _

theorem weightInEpoch_le (bond : Bond) (epoch length : U64) :
    (bond.weightInEpoch epoch length).val ≤ bond.amount.val := by
  unfold weightInEpoch
  split
  · exact amountInEpoch_le bond epoch length
  split
  · rw [Word.val_zero]
    exact Nat.zero_le _
  · rw [Word.val_min]
    exact Nat.min_le_right _ _

/-- A bond that was changed in an epoch counts there with what it kept. -/
theorem weightInEpoch_changed (positive : length ≠ 0) (changed : bond.raisedAtHeight = height) :
    bond.weightInEpoch (height.div length) length = min bond.activeAmount bond.amount := by
  have current : ¬ height.div length < height.div length := Nat.lt_irrefl _
  have neither : ¬ (length = 0 ∨ height.div length < height.div length) :=
    not_or.mpr ⟨positive, current⟩
  unfold weightInEpoch amountInEpoch
  rw [changed, if_neg positive, if_neg current, if_neg neither, ite_self]

/-- A bond that kept a weight of at most its amount counts with it. -/
theorem weightInEpoch_kept (positive : length ≠ 0) (changed : bond.raisedAtHeight = height)
    (kept : bond.activeAmount.val ≤ bond.amount.val) :
    bond.weightInEpoch (height.div length) length = bond.activeAmount := by
  rw [weightInEpoch_changed positive changed]
  ext
  rw [Word.val_min]
  exact Nat.min_eq_left kept

theorem weightInEpoch_staying (staying : bond.exitRequestedAt = none) (epoch : U64) :
    bond.weightInEpoch epoch length = bond.amountInEpoch epoch length := by
  unfold weightInEpoch
  rw [staying]
  rfl

theorem weightInEpoch_requestExitAt (positive : length ≠ 0) {exited : Bond} {nowDay : U64}
    (granted : bond.requestExitAt nowDay height length = some exited) :
    exited.weightInEpoch (height.div length) length =
      bond.weightInEpoch (height.div length) length := by
  unfold requestExitAt at granted
  split at granted
  · cases granted
  next refused =>
    obtain rfl := Option.some.inj granted
    have staying : bond.exitRequestedAt = none := by
      cases requested : bond.exitRequestedAt with
      | none => rfl
      | some day => simp [requested] at refused
    rw [weightInEpoch_staying staying]
    exact weightInEpoch_kept positive rfl (amountInEpoch_le bond _ length)

theorem weightInEpoch_rejoin (positive : length ≠ 0) (bond : Bond) :
    (bond.rejoin height length).weightInEpoch (height.div length) length =
      bond.weightInEpoch (height.div length) length := by
  unfold rejoin
  split
  · rfl
  · exact weightInEpoch_kept positive rfl (weightInEpoch_le bond _ length)

theorem exitRequestedAt_rejoin (bond : Bond) :
    (bond.rejoin height length).exitRequestedAt = none := by
  unfold rejoin
  split
  next staying => exact Option.isNone_iff_eq_none.mp staying
  · rfl

theorem amount_rejoin (bond : Bond) : (bond.rejoin height length).amount = bond.amount := by
  unfold rejoin
  split <;> rfl

theorem weightInEpoch_raiseTo (positive : length ≠ 0) (staying : bond.exitRequestedAt = none)
    {total : U64} (more : bond.amount.val ≤ total.val) :
    (bond.raiseTo total height length).weightInEpoch (height.div length) length =
      bond.weightInEpoch (height.div length) length := by
  rw [weightInEpoch_staying staying]
  exact weightInEpoch_kept positive rfl ((amountInEpoch_le bond _ length).trans more)

end QuantovaChain.Staking.Bond

namespace QuantovaChain.Ledger

open Governance (Id)
open Staking
open Transaction.State Leaves

/-- What a validator weighs in an epoch, which is nothing without a bond. -/
def Leaves.weightInEpoch (state : Leaves) (id : Id) (epoch heightsPerEpoch : U64) : U64 :=
  match state.stakeBond id with
  | some bond => bond.weightInEpoch epoch heightsPerEpoch
  | none => 0

/-- Everyone weighs in the epoch of a height what they did. -/
def SameWeights (height length : U64) (before after : Ledger) : Prop :=
  ∀ id, weightInEpoch after.get id (height.div length) length =
    weightInEpoch before.get id (height.div length) length

section Changes

variable {context : Context} {height length : U64} {before middle after ledger : Ledger}

theorem SameWeights.trans (first : SameWeights height length before middle)
    (second : SameWeights height length middle after) : SameWeights height length before after :=
  fun id => (second id).trans (first id)

theorem SameWeights.of_bonds
    (same : ∀ id, stakeBond after.get id = stakeBond before.get id) :
    SameWeights height length before after := by
  intro id
  unfold weightInEpoch
  rw [same id]

theorem SameWeights.of_same (same : SameIn .stakes before after) :
    SameWeights height length before after := by
  refine .of_bonds fun id => ?_
  unfold stakeBond
  rw [same _ rfl]

/-- Writing a bond that weighs what the one before it did. -/
theorem sameWeights_write {id : Id} {bond : Bond}
    (weighs : bond.weightInEpoch (height.div length) length =
      weightInEpoch ledger.get id (height.div length) length) :
    SameWeights height length ledger (ledger.write (.stakeBond id) (some bond)) := by
  intro other
  by_cases here : other = id
  · subst here
    rw [← weighs]
    unfold weightInEpoch stakeBond
    rw [get_write_self]
    rfl
  · unfold weightInEpoch stakeBond
    rw [get_write_ne _ (by rintro ⟨rfl⟩; exact here rfl)]

/-- A bond that is raised weighs what it did. So does a first bond, which is nothing yet. -/
theorem weightInEpoch_raisedBond (positive : context.heightsPerEpoch ≠ 0) {state : Leaves} {id : Id}
    {amount total day : U64}
    (adds : (((state.stakeBond id).map Bond.amount).getD 0).checkedAdd amount = some total) :
    (raisedBond context (state.stakeBond id) total day).weightInEpoch
        (context.executionHeight.div context.heightsPerEpoch) context.heightsPerEpoch =
      state.weightInEpoch id (context.executionHeight.div context.heightsPerEpoch)
        context.heightsPerEpoch := by
  have adds := Word.checkedAdd_eq_some.mp adds
  have raised : ∀ bond : Bond, bond.amount.val ≤ total.val →
      ((bond.rejoin context.executionHeight context.heightsPerEpoch).raiseTo total
        context.executionHeight context.heightsPerEpoch).weightInEpoch
          (context.executionHeight.div context.heightsPerEpoch) context.heightsPerEpoch =
        bond.weightInEpoch (context.executionHeight.div context.heightsPerEpoch)
          context.heightsPerEpoch := by
    intro bond more
    rw [Bond.weightInEpoch_raiseTo positive (Bond.exitRequestedAt_rejoin bond)
      (by rwa [Bond.amount_rejoin]), Bond.weightInEpoch_rejoin positive]
  unfold raisedBond weightInEpoch
  cases found : state.stakeBond id with
  | some bond =>
    rw [found] at adds
    exact raised { bond with bondedAtDay := day } (adds ▸ Nat.le_add_right _ _)
  | none =>
    refine (raised (freshBond day) (Nat.zero_le _)).trans ?_
    ext
    exact Nat.le_zero.mp (Bond.weightInEpoch_le (freshBond day) _ _)

end Changes

/-! ## Operations -/

section Operations

variable {context : Context} {before after : Ledger}

/-- Raises and exits leave what everyone weighs in the epoch as it was. -/
theorem Rebonds.weights (rebonds : Rebonds context before after)
    (positive : context.heightsPerEpoch ≠ 0) :
    SameWeights context.executionHeight context.heightsPerEpoch before after := by
  cases rebonds with
  | same same => exact .of_same same
  | exits paid found granted written =>
    subst written
    refine (SameWeights.of_same paid).trans (sameWeights_write ?_)
    rw [Bond.weightInEpoch_requestExitAt positive granted, weightInEpoch, found]
  | raises paid adds counted noted =>
    have paid : SameWeights context.executionHeight context.heightsPerEpoch before _ :=
      .of_same paid
    refine (paid.trans (sameWeights_write ?_)).trans
      ((SameWeights.of_bonds ((creditStaked_bonds _).ended counted)).trans (.of_same noted))
    rw [paid]
    exact weightInEpoch_raisedBond positive adds

variable [Platform]

/-! ## Along a run -/

/-- However often validators bond, raise, leave and come back within an epoch, everyone weighs in
that epoch what they did. By induction on the run, as a transition that changes a bond keeps its
weight in the epoch. -/
theorem weight_fixed_within_epoch {start finish : Ledger} {trace : List Transition}
    (run : Run start trace finish) {epoch heightsPerEpoch : U64} (positive : heightsPerEpoch ≠ 0)
    (lengths : ∀ next ∈ trace, next.moment.context.heightsPerEpoch = heightsPerEpoch)
    (within : ∀ next ∈ trace,
      next.moment.context.executionHeight.div heightsPerEpoch = epoch)
    (keeps : ∀ next ∈ trace, next.operation.dropsBonds = false) (id : Id) :
    Leaves.weightInEpoch finish.get id epoch heightsPerEpoch =
      Leaves.weightInEpoch start.get id epoch heightsPerEpoch := by
  induction run with
  | nil => rfl
  | @step trace _ earlier next continues hypothesis =>
    subst continues
    have last : next ∈ trace ++ [next] := List.mem_append_right _ List.mem_cons_self
    have moved := (next.rebonds (keeps next last)).weights ((lengths next last).symm ▸ positive) id
    rw [lengths next last, within next last] at moved
    exact moved.trans (hypothesis
      (List.forall_mem_append.mp lengths).1
      (List.forall_mem_append.mp within).1
      (List.forall_mem_append.mp keeps).1)
  | drain earlier drained same hypothesis =>
    rw [same]
    exact hypothesis lengths within keeps

end Operations

/-- A validator leaves in the fourth epoch and comes back with a larger bond, and weighs there what
it did. -/
theorem weight_fixed_exit_return :
    letI := Platform.blank
    ∃ left back : Transition, Run bondedLedger [left, back] back.after ∧
      Leaves.stakeBond left.after.get holder = some ⟨wholeStake, 0, some 90, wholeStake, 30⟩ ∧
      (Leaves.stakeBond back.after.get holder).map Bond.amount = some 3000000000 ∧
      Leaves.weightInEpoch back.after.get holder 3 10 = wholeStake := by
  let := Platform.blank
  let moment : Moment := momentAt 7776000
  let left : Transition := .take moment (.requestStakeExit (addressOf holder)) bondedLedger true
    (by decide +kernel)
  let back : Transition := .take moment (.bond (addressOf holder) 2000000000) left.after true
    (by decide +kernel)
  have run : Run bondedLedger [left, back] back.after :=
    .step (.step .nil left rfl) back (Transition.take_before ..)
  have both : ∀ {holds : Transition → Prop}, holds left → holds back →
      ∀ next ∈ [left, back], holds next := by
    intro holds first second next among
    rcases List.mem_cons.mp among with rfl | among
    · exact first
    · rwa [List.mem_singleton.mp among]
  have fixed : weightInEpoch back.after.get holder 3 10 =
      weightInEpoch bondedLedger.get holder 3 10 :=
    weight_fixed_within_epoch run (by decide) (both rfl rfl) (both (by decide) (by decide))
      (both rfl rfl) holder
  refine ⟨left, back, run, by decide +kernel, by decide +kernel, fixed.trans (by decide +kernel)⟩

end QuantovaChain.Ledger
