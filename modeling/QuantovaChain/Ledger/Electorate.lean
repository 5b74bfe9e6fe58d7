import QuantovaChain.Ledger.Referenda

/-!
# The electorate

A vote is weighed against the stake that has matured: what was bonded in this epoch counts from the
next one on. Each bond keeps its own snapshot for this, the amount that counted before it was last
raised and the height of that raise, and the total of the stake keeps another. The two are written
by different operations. What makes them agree is that a raise of a bond is always a raise of the
total, so that the snapshot of the total is never younger than what it is compared with.
-/

namespace QuantovaChain.Ledger

open Idfmt (Text)
open Governance Staking
open Transaction Transaction.State Leaves
open Transaction.Program (expect)

/-! ## Adding up bonds -/

/-- A measure of a bond, as a weight of leaves. -/
def bondWeight (measure : Bond → Nat) : (key : LeafKey) → LeafValue key → ℤ
  | .stakeBond _, bond => (bond.map fun bond => (measure bond : ℤ)).getD 0
  | _, _ => 0

/-- The measures of all bonds, added up. -/
def bondsBy (measure : Bond → Nat) (ledger : Ledger) : ℤ := ledger.total (bondWeight measure)

/-- The measure of a bond, if there is one. -/
def partBy (measure : Bond → Nat) : Option Bond → ℤ
  | some bond => measure bond
  | none => 0

variable {measure other : Bond → Nat} {before after ledger : Ledger}

theorem weigh_bondWeight (id : Id) : weigh (bondWeight measure) (.stakeBond id)
    (ledger.get (.stakeBond id)) = partBy measure (stakeBond ledger.get id) := by
  unfold stakeBond
  cases ledger.get (.stakeBond id) with
  | none => rfl
  | some bond => cases bond <;> rfl

theorem bondWeight_only : OnlyAt (bondWeight measure) LeafKey.stakeBond := by
  intro key elsewhere value
  cases key with
  | stakeBond id => exact absurd rfl (elsewhere id)
  | _ => rfl

theorem bondsBy_congr (same : SameIn .stakes before after) :
    bondsBy measure after = bondsBy measure before :=
  bondWeight_only.total_congr bondWeight_only fun _ => congrArg _ (same _ rfl)

/-- A change of one bond. -/
theorem bondsBy_change (measure : Bond → Nat) {id : Id}
    (same : ∀ other, other ≠ id →
      stakeBond after.get other = stakeBond before.get other) :
    bondsBy measure after = bondsBy measure before -
      partBy measure (stakeBond before.get id) +
      partBy measure (stakeBond after.get id) := by
  rw [← weigh_bondWeight, ← weigh_bondWeight]
  refine bondWeight_only.total_change bondWeight_only id fun other apart => ?_
  rw [weigh_bondWeight, weigh_bondWeight, same other apart]

/-- A measure that is smaller on the bonds of the ledger adds up to less. -/
theorem bondsBy_mono (less : ∀ id bond, stakeBond ledger.get id = some bond →
    measure bond ≤ other bond) : bondsBy measure ledger ≤ bondsBy other ledger := by
  refine bondWeight_only.total_mono bondWeight_only fun id => ?_
  rw [weigh_bondWeight, weigh_bondWeight]
  cases found : stakeBond ledger.get id with
  | none => exact le_refl _
  | some bond => exact Int.ofNat_le.mpr (less id bond found)

theorem bondsBy_none (none : ∀ id, stakeBond ledger.get id = none) :
    bondsBy measure ledger = 0 :=
  bondWeight_only.total_zero fun id => by rw [weigh_bondWeight, none id, partBy]

/-- No bond is more than all bonds. -/
theorem partBy_le_bondsBy (measure : Bond → Nat) (ledger : Ledger) (id : Id) :
    partBy measure (stakeBond ledger.get id) ≤ bondsBy measure ledger := by
  rw [← weigh_bondWeight]
  refine bondWeight_only.weigh_le_total (fun other => ?_) id
  rw [weigh_bondWeight]
  cases stakeBond ledger.get other with
  | none => exact le_refl _
  | some bond => exact Int.natCast_nonneg _

/-- Two bonds are part of the sum of all: without the first, the second still is. -/
theorem partBy_add_le_bondsBy (measure : Bond → Nat) (ledger : Ledger) {first second : Id}
    (apart : first ≠ second) :
    partBy measure (stakeBond ledger.get first) + partBy measure (stakeBond ledger.get second) ≤
      bondsBy measure ledger := by
  let cleared := ledger.write (.stakeBond first) none
  have same : ∀ other, other ≠ first →
      stakeBond cleared.get other = stakeBond ledger.get other := by
    intro other distinct
    rw [stakeBond, get_write_ne _ (by simpa using distinct.symm), ← stakeBond]
  have gone : stakeBond cleared.get first = none := by
    rw [stakeBond, get_write_self]
    rfl
  have rest := partBy_le_bondsBy measure cleared second
  rw [bondsBy_change measure same, gone, same second apart.symm] at rest
  simp only [partBy] at rest ⊢
  omega


/-! ## Snapshots -/

/-- What of a total counts in the epoch of a block, when a part of it counted before the last raise.
-/
def snapshot (context : Context) (total active raised : U64) : U64 :=
  if context.heightsPerEpoch = 0 then total
  else if raised.div context.heightsPerEpoch < context.currentEpoch then total
  else min active total

theorem maturedTotalStaked_eq (state : Leaves) (context : Context) :
    state.maturedTotalStaked context =
      snapshot context state.totalStaked state.totalStakedActive state.totalStakedRaisedAt := rfl

theorem SameIn.maturedTotalStaked (same : SameIn .stakes before after) (context : Context) :
    maturedTotalStaked after.get context = maturedTotalStaked before.get context := by
  rw [maturedTotalStaked_eq, totalStaked, totalStakedRaisedAt,
    totalStakedActive, same _ rfl, same _ rfl, same _ rfl]
  rfl

section Snapshot

variable (context : Context) (total active raised next : U64)

theorem snapshot_le : (snapshot context total active raised).val ≤ total.val := by
  unfold snapshot
  split
  · exact Nat.le_refl _
  split
  · exact Nat.le_refl _
  · rw [Word.val_min]
    exact Nat.min_le_right _ _

/-- A smaller total cuts the snapshot at most to the total. -/
theorem snapshot_debit : min (snapshot context total active raised).val next.val ≤
    (snapshot context next (min active next) raised).val := by
  unfold snapshot
  split
  · exact Nat.min_le_right _ _
  split
  · exact Nat.min_le_right _ _
  · simp only [Word.val_min]
    omega

/-- A raise in this epoch keeps what counted before it. -/
theorem snapshot_credit :
    min active.val next.val ≤ (snapshot context next active context.executionHeight).val := by
  unfold snapshot
  split
  · exact Nat.min_le_right _ _
  split
  · exact Nat.min_le_right _ _
  · rw [Word.val_min]

end Snapshot

def amountOf (bond : Bond) : Nat := bond.amount.val

/-- What of a bond counts in the epoch of a block. -/
def maturedOf (context : Context) (bond : Bond) : Nat :=
  (bond.amountInEpoch context.currentEpoch context.heightsPerEpoch).val

theorem maturedOf_le (context : Context) (bond : Bond) : maturedOf context bond ≤ amountOf bond := by
  unfold maturedOf amountOf Bond.amountInEpoch
  split
  · exact Nat.le_refl _
  split
  · exact Nat.le_refl _
  · rw [Word.val_min]
    exact Nat.min_le_right _ _

/-- The total of the stake is what the bonds add up to, nothing was raised in the future, and from
the first epoch on the matured total covers what of the bonds has matured. -/
structure Backed (context : Context) (ledger : Ledger) : Prop where
  total : ((totalStaked ledger.get).val : ℤ) = bondsBy amountOf ledger
  raised : totalStakedRaisedAt ledger.get ≤ context.executionHeight
  bondsRaised : ∀ id bond, stakeBond ledger.get id = some bond →
    bond.raisedAtHeight ≤ context.executionHeight
  matured : 1 ≤ context.currentEpoch.val →
    bondsBy (maturedOf context) ledger ≤ (maturedTotalStaked ledger.get context).val

namespace Backed

variable {context later : Context}

theorem of_same (backed : Backed context before) (same : SameIn .stakes before after) :
    Backed context after where
  total := by
    rw [totalStaked, same _ rfl, bondsBy_congr same]
    exact backed.total
  raised := by
    rw [totalStakedRaisedAt, same _ rfl]
    exact backed.raised
  bondsRaised id bond := by
    rw [stakeBond, same _ rfl]
    exact backed.bondsRaised id bond
  matured begun := by
    rw [bondsBy_congr same, same.maturedTotalStaked]
    exact backed.matured begun

theorem confined {α : Type} {program : LedgerM α} (backed : Backed context ledger)
    (elsewhere : Confined [.other, .books] program) :
    Ensures ledger program fun _ after => Backed context after := by
  have outside : Region.stakes ∉ [Region.other, .books] := by decide
  exact (elsewhere.same ledger outside).mono fun _ _ same => backed.of_same same

/-- In a later epoch everything has matured. -/
theorem advance (backed : Backed context ledger) (length : context.heightsPerEpoch ≠ 0)
    (sameLength : later.heightsPerEpoch = context.heightsPerEpoch)
    (onward : context.executionHeight ≤ later.executionHeight) : Backed later ledger where
  total := backed.total
  raised := Nat.le_trans backed.raised onward
  bondsRaised id bond found := Nat.le_trans (backed.bondsRaised id bond found) onward
  matured begun := by
    have epochs : context.currentEpoch.val ≤ later.currentEpoch.val := by
      rw [Context.currentEpoch, Context.currentEpoch, Word.val_div, Word.val_div, sameLength]
      exact Nat.div_le_div_right onward
    rcases Nat.eq_or_lt_of_le epochs with same | passed
    · have same : later.currentEpoch = context.currentEpoch := Word.ext same.symm
      have measures : maturedOf later = maturedOf context := by
        funext bond
        rw [maturedOf, maturedOf, same, sameLength]
      rw [same] at begun
      rw [measures, maturedTotalStaked, same, sameLength]
      exact backed.matured begun
    · have raisedEarlier : (totalStakedRaisedAt ledger.get).div later.heightsPerEpoch <
          later.currentEpoch := by
        refine Nat.lt_of_le_of_lt ?_ passed
        rw [Context.currentEpoch, Word.val_div, Word.val_div, sameLength]
        exact Nat.div_le_div_right backed.raised
      rw [maturedTotalStaked, if_neg (sameLength ▸ length), if_pos raisedEarlier, backed.total]
      exact bondsBy_mono fun _ _ _ => maturedOf_le later _

end Backed

/-! ## Changing one bond -/

/-- In the middle of an operation on one bond: the bond and the total as they are now, with the
other bonds as before and a matured total that only the total itself limits. -/
structure Restaked (context : Context) (id : Id) (bond : Option Bond) (total : ℤ)
    (before after : Ledger) : Prop where
  others : ∀ other, other ≠ id →
    stakeBond after.get other = stakeBond before.get other
  bond : stakeBond after.get id = bond
  total : ((totalStaked after.get).val : ℤ) = total
  raised : totalStakedRaisedAt before.get ≤ context.executionHeight →
    totalStakedRaisedAt after.get ≤ context.executionHeight
  matured : min (maturedTotalStaked before.get context).val
      (totalStaked after.get).val ≤ (maturedTotalStaked after.get context).val

namespace Restaked

variable {context : Context} {id : Id} {bond : Option Bond} {total : ℤ} {middle : Ledger}

theorem refl (context : Context) (id : Id) (ledger : Ledger) :
    Restaked context id (stakeBond ledger.get id) (totalStaked ledger.get).val ledger
      ledger where
  others _ _ := rfl
  bond := rfl
  total := rfl
  raised same := same
  matured := Nat.min_le_left _ _

section

variable (restaked : Restaked context id bond total before middle)

include restaked

/-- What happens elsewhere does not matter. -/
theorem andSame (same : SameIn .stakes middle after) :
    Restaked context id bond total before after where
  others other apart := by
    rw [stakeBond, same _ rfl]
    exact restaked.others other apart
  bond := by
    rw [stakeBond, same _ rfl]
    exact restaked.bond
  total := by
    rw [totalStaked, same _ rfl]
    exact restaked.total
  raised earlier := by
    rw [totalStakedRaisedAt, same _ rfl]
    exact restaked.raised earlier
  matured := by
    rw [same.maturedTotalStaked, totalStaked, same _ rfl]
    exact restaked.matured

theorem write (next : Option Bond) :
    Restaked context id next total before (middle.write (.stakeBond id) next) where
  others other apart := by
    rw [stakeBond, get_write_ne _ (by simpa using Ne.symm apart)]
    exact restaked.others other apart
  bond := by
    rw [stakeBond, get_write_self]
    rfl
  total := by simpa [totalStaked] using restaked.total
  raised := by simpa [totalStakedRaisedAt] using restaked.raised
  matured := by
    simpa [maturedTotalStaked_eq, totalStaked, totalStakedRaisedAt,
      totalStakedActive] using restaked.matured

/-- The totals are written. -/
theorem recount (bonds : ∀ id, stakeBond after.get id = stakeBond middle.get id)
    (raised : totalStakedRaisedAt after.get = totalStakedRaisedAt middle.get ∨
      totalStakedRaisedAt after.get = context.executionHeight)
    (matured : min (maturedTotalStaked before.get context).val
      (totalStaked after.get).val ≤ (maturedTotalStaked after.get context).val) :
    Restaked context id bond (totalStaked after.get).val before after where
  others other apart := (bonds other).trans (restaked.others other apart)
  bond := (bonds id).trans restaked.bond
  total := rfl
  raised earlier := by
    rcases raised with same | now
    · rw [same]
      exact restaked.raised earlier
    · rw [now]
      exact Nat.le_refl _
  matured := matured

theorem debit {amount : U64} (covered : (amount.val : ℤ) ≤ total) :
    Ensures middle (debitStaked amount) fun _ after =>
      Restaked context id bond (total - amount.val) before after := by
  unfold debitStaked
  split
  next zero =>
    rw [ensures_pure, zero, Word.val_zero]
    simpa using restaked
  simp only [setTotalStakedActive, setTotalStaked, ensures_bind, ensures_leaves, ensures_put]
  generalize written : (middle.write .stakeTotalActive _).write .stakeTotal _ = after
  have totalled : totalStaked after.get = (totalStaked middle.get).satSub amount := by
    rw [← written, totalStaked, get_write_self]
    rfl
  have reduced : ((totalStaked after.get).val : ℤ) = total - amount.val := by
    rw [totalled, Word.val_satSub]
    have whole := restaked.total
    omega
  rw [← reduced]
  apply restaked.recount
  case bonds =>
    intro id
    simp [← written, stakeBond]
  case raised => simp [← written, totalStakedRaisedAt]
  case matured =>
    have active : totalStakedActive after.get =
        min (totalStakedActive middle.get) (totalStaked after.get) := by
      rw [totalled, ← written, totalStakedActive, get_write_ne _ (by simp), get_write_self]
      rfl
    have raised : totalStakedRaisedAt after.get =
        totalStakedRaisedAt middle.get := by
      simp [← written, totalStakedRaisedAt]
    have kept := snapshot_debit context (totalStaked middle.get)
      (totalStakedActive middle.get) (totalStakedRaisedAt middle.get)
      (totalStaked after.get)
    rw [← maturedTotalStaked_eq, ← active, ← raised, ← maturedTotalStaked_eq] at kept
    have smaller : (totalStaked after.get).val ≤ (totalStaked middle.get).val := by
      rw [totalled, Word.val_satSub]
      omega
    have matured := restaked.matured
    omega

end

theorem credit (restaked : Restaked context id bond (totalStaked before.get).val before middle)
    (amount : U64) :
    Ensures middle (creditStaked context amount) fun _ after =>
      Restaked context id bond ((totalStaked before.get).satAdd amount).val before after := by
  have unchanged : totalStaked middle.get = totalStaked before.get := by
    apply Word.ext
    have whole := restaked.total
    omega
  unfold creditStaked
  split
  next zero =>
    rw [ensures_pure, zero, Word.satAdd_zero]
    exact restaked
  simp only [setTotalStakedActive, setTotalStakedRaisedAt, setTotalStaked, ensures_bind,
    ensures_leaves, ensures_put]
  generalize written : ((middle.write .stakeTotalActive _).write .stakeTotalRaised _).write
    .stakeTotal _ = after
  have totalled : totalStaked after.get = (totalStaked before.get).satAdd amount := by
    rw [← unchanged, ← written, totalStaked, get_write_self]
    rfl
  have raised : totalStakedRaisedAt after.get = context.executionHeight := by
    simp [← written, totalStakedRaisedAt]
  rw [← totalled]
  apply restaked.recount
  case bonds =>
    intro id
    simp [← written, stakeBond]
  case raised => exact .inr raised
  case matured =>
    have active : totalStakedActive after.get =
        maturedTotalStaked middle.get context := by
      simp [← written, totalStakedActive]
    have kept := snapshot_credit context (totalStakedActive after.get)
      (totalStaked after.get)
    rw [← raised, ← maturedTotalStaked_eq, active] at kept
    have matured := restaked.matured
    rw [unchanged] at matured
    have whole := snapshot_le context (totalStaked before.get)
      (totalStakedActive before.get) (totalStakedRaisedAt before.get)
    rw [← maturedTotalStaked_eq] at whole
    omega

/-- An operation on one bond that moves the total with the bond, and lets no more of the bond count
in this epoch than counted before. -/
theorem backed (restaked : Restaked context id bond total before after)
    (backed : Backed context before)
    (balanced : total = (totalStaked before.get).val -
      partBy amountOf (stakeBond before.get id) + partBy amountOf bond)
    (timely : ∀ current, bond = some current → current.raisedAtHeight ≤ context.executionHeight)
    (less : 1 ≤ context.currentEpoch.val → partBy (maturedOf context) bond ≤
      partBy (maturedOf context) (stakeBond before.get id)) : Backed context after := by
  have amounts : ((totalStaked after.get).val : ℤ) = bondsBy amountOf after := by
    rw [restaked.total, balanced, bondsBy_change amountOf restaked.others, restaked.bond, backed.total]
  constructor
  case total => exact amounts
  case raised => exact restaked.raised backed.raised
  case bondsRaised =>
    intro other found present
    by_cases here : other = id
    · subst here
      exact timely found (restaked.bond.symm.trans present)
    · rw [restaked.others other here] at present
      exact backed.bondsRaised other found present
  case matured =>
    intro begun
    have covers := backed.matured begun
    have less := less begun
    have limited := restaked.matured
    have changed := bondsBy_change (maturedOf context) restaked.others
    rw [restaked.bond] at changed
    have capped : bondsBy (maturedOf context) after ≤ bondsBy amountOf after :=
      bondsBy_mono fun _ _ _ => maturedOf_le context _
    omega

end Restaked

/-! ## Bonds that change -/

section Bonds

variable {context : Context} (length : context.heightsPerEpoch ≠ 0)

include length

/-- A bond that was raised at this height counts with what it had before. -/
theorem maturedOf_now {bond : Bond} (now : bond.raisedAtHeight = context.executionHeight) :
    maturedOf context bond = min bond.activeAmount.val bond.amount.val := by
  have current : ¬ context.executionHeight.div context.heightsPerEpoch < context.currentEpoch :=
    Nat.lt_irrefl _
  unfold maturedOf Bond.amountInEpoch
  rw [if_neg length, now, if_neg current, Word.val_min]

theorem maturedOf_rejoin (bond : Bond) :
    maturedOf context (bond.rejoin context.executionHeight context.heightsPerEpoch) ≤
      maturedOf context bond := by
  unfold Bond.rejoin
  split
  · exact Nat.le_refl _
  next leaving =>
    rw [maturedOf_now length rfl]
    refine Nat.le_trans (Nat.min_le_left _ _) ?_
    unfold Bond.weightInEpoch maturedOf Bond.amountInEpoch Context.currentEpoch
    rw [if_neg leaving, if_neg length]
    by_cases earlier : bond.raisedAtHeight.div context.heightsPerEpoch <
        context.executionHeight.div context.heightsPerEpoch
    · rw [if_pos (.inr earlier), Word.val_zero]
      exact Nat.zero_le _
    · rw [if_neg (by tauto), if_neg earlier]

theorem maturedOf_raiseTo (bond : Bond) (total : U64) :
    maturedOf context (bond.raiseTo total context.executionHeight context.heightsPerEpoch) ≤
      maturedOf context bond := by
  rw [maturedOf_now length rfl]
  exact Nat.min_le_left _ _

theorem maturedOf_requestExitAt {bond exited : Bond} {nowDay : U64}
    (granted : bond.requestExitAt nowDay context.executionHeight context.heightsPerEpoch =
      some exited) :
    maturedOf context exited ≤ maturedOf context bond ∧
      exited.raisedAtHeight = context.executionHeight := by
  unfold Bond.requestExitAt at granted
  split at granted
  · cases granted
  · obtain rfl := Option.some.inj granted
    refine ⟨?_, rfl⟩
    rw [maturedOf_now length rfl]
    exact Nat.min_le_left _ _

theorem maturedOf_raisedBond (bond : Option Bond) (total day : U64) :
    (maturedOf context (raisedBond context bond total day) : ℤ) ≤
      partBy (maturedOf context) bond := by
  have raised := maturedOf_raiseTo length
    (Bond.rejoin { bond.getD (freshBond day) with bondedAtDay := day } context.executionHeight
      context.heightsPerEpoch) total
  have rejoined := maturedOf_rejoin length { bond.getD (freshBond day) with bondedAtDay := day }
  refine (Int.ofNat_le.mpr (raised.trans rejoined)).trans ?_
  cases bond with
  | some bond => exact le_refl _
  | none =>
    refine (Int.ofNat_le.mpr (maturedOf_le context _)).trans ?_
    exact le_refl _

end Bonds

/-! ## Operations -/

section Operations

variable {context : Context}

/-- The largest word. -/
def mostStake : ℤ := 2 ^ 64 - 1

theorem partBy_amountOf (bond : Option Bond) :
    partBy amountOf bond = ((bond.map Bond.amount).getD 0).val := by
  cases bond <;> rfl

/-- A bond is paid up, written and counted. -/
theorem raise_backed (length : context.heightsPerEpoch ≠ 0) (backed : Backed context before)
    {id : Id} {middle : Ledger} {amount total day : U64}
    (adds : (((stakeBond before.get id).map Bond.amount).getD 0).checkedAdd amount =
      some total)
    (same : SameIn .stakes before middle) :
    Ensures (middle.write (.stakeBond id)
        (some (raisedBond context (stakeBond before.get id) total day)))
      (creditStaked context amount) fun _ after =>
        bondsBy amountOf after ≤ mostStake → Backed context after := by
  have restaked := ((Restaked.refl context id before).andSame same).write
    (some (raisedBond context (stakeBond before.get id) total day))
  have adds := Word.checkedAdd_eq_some.mp adds
  have amounts : (amountOf (raisedBond context (stakeBond before.get id) total day) : ℤ) =
      partBy amountOf (stakeBond before.get id) + amount.val := by
    rw [partBy_amountOf]
    exact_mod_cast adds
  refine (restaked.credit amount).mono ?_
  intro _ after restaked room
  refine restaked.backed backed ?_ ?_ ?_
  · rw [bondsBy_change amountOf restaked.others, restaked.bond, partBy, amounts, ← backed.total]
      at room
    rw [partBy, amounts, Word.val_satAdd]
    unfold mostStake at room
    omega
  · rintro current ⟨rfl⟩
    exact Nat.le_refl _
  · exact fun _ => maturedOf_raisedBond length _ _ _

/-- What an exit or a raise does to the stakes: nothing, or a bond leaves, or a bond is paid up,
written and counted. -/
inductive Rebonds (context : Context) (before after : Ledger) : Prop
  | same (same : SameIn .stakes before after)
  | exits {middle : Ledger} {id : Id} {bond exited : Bond} {nowDay : U64}
      (paid : SameIn .stakes before middle) (found : stakeBond middle.get id = some bond)
      (granted : bond.requestExitAt nowDay context.executionHeight context.heightsPerEpoch =
        some exited)
      (written : after = middle.write (.stakeBond id) (some exited))
  | raises {middle credited : Ledger} {id : Id} {amount total day : U64}
      (paid : SameIn .stakes before middle)
      (adds : (((stakeBond before.get id).map Bond.amount).getD 0).checkedAdd amount =
        some total)
      (counted : (creditStaked context amount).plain (middle.write (.stakeBond id)
        (some (raisedBond context (stakeBond before.get id) total day))) =
          (some (), credited))
      (noted : SameIn .stakes credited after)

theorem requestStakeExit_rebonds (paid : SameIn .stakes before ledger) (address : Text)
    (nowDay : U64) :
    Ensures ledger (requestStakeExit context address nowDay) fun _ after =>
      Rebonds context before after := by
  unfold requestStakeExit
  split
  swap
  · simpa using Rebonds.same paid
  simp only [ensures_bind, ensures_leaves]
  repeat' first | exact ensures_pure.mpr (.same paid) | split
  next bond found _ _ exited granted =>
  simp only [setStakeBond, ensures_bind, ensures_put, ensures_pure]
  exact .exits paid found granted rfl

theorem bond_rebonds (address : Text) (amount day : U64) :
    Ensures ledger (bond context address amount day) fun _ after =>
      Rebonds context ledger after := by
  have unchanged : Rebonds context ledger ledger := .same (.refl _ _)
  unfold bond
  split
  swap
  · simpa using unchanged
  simp only [ensures_bind, ensures_leaves]
  repeat' first | exact ensures_pure.mpr unchanged | split
  next total adds _ =>
  simp only [setAccount, setStakeBond, ensures_bind, ensures_put, ensures_pure]
  refine (ensures_plain _).mono fun _ _ counted => .raises ?_ adds counted (.refl _ _)
  exact fun key inside => get_write_ne _ (by rintro rfl; cases inside)

theorem Rebonds.backed (rebonds : Rebonds context before after)
    (length : context.heightsPerEpoch ≠ 0) (backed : Backed context before)
    (room : bondsBy amountOf after ≤ mostStake) : Backed context after := by
  cases rebonds with
  | same same => exact backed.of_same same
  | @exits middle id bond exited nowDay paid found granted written =>
    subst written
    obtain ⟨less, now⟩ := maturedOf_requestExitAt length granted
    apply ((Restaked.refl context id middle).write (some exited)).backed (backed.of_same paid)
    case balanced =>
      rw [found, partBy, partBy, amountOf, amountOf, Bond.requestExitAt_amount granted]
      omega
    case timely =>
      rintro current ⟨rfl⟩
      rw [now]
      exact Nat.le_refl _
    case less =>
      intro _
      rw [found]
      exact Int.ofNat_le.mpr less
  | raises paid adds counted noted =>
    rw [bondsBy_congr noted] at room
    exact ((raise_backed length backed adds paid).ended counted room).of_same noted

/-- A bond is dropped along with its amount, in either order. -/
theorem drop_backed (backed : Backed context before) {id : Id} {bond : Bond} {total : ℤ}
    (found : stakeBond before.get id = some bond)
    (restaked : Restaked context id none total before after)
    (reduced : total = (totalStaked before.get).val - bond.amount.val) :
    Backed context after := by
  refine restaked.backed backed ?_ ?_ ?_
  · rw [found, reduced, partBy, partBy, amountOf]
    omega
  · intro current absurd
    cases absurd
  · intro _
    rw [found, partBy, partBy]
    exact Int.natCast_nonneg _

theorem amount_le_total (backed : Backed context before) {id : Id} {bond : Bond}
    (found : stakeBond before.get id = some bond) :
    (bond.amount.val : ℤ) ≤ (totalStaked before.get).val := by
  have part := partBy_le_bondsBy amountOf before id
  rw [found, ← backed.total] at part
  exact part

theorem withdrawStake_backed (backed : Backed context ledger) (address : Text) (nowDay : U64) :
    Ensures ledger (withdrawStake address nowDay) fun _ after => Backed context after := by
  unfold withdrawStake
  split
  swap
  · simpa using backed
  next id _ =>
  simp only [ensures_bind, ensures_leaves]
  split
  swap
  · simpa using backed
  next bond found =>
  simp only [ensures_bind, ensures_expect]
  intro ready _
  split
  · simpa using backed
  simp only [clearStakeBond, ensures_bind, ensures_put]
  refine (((Restaked.refl context id ledger).write none).debit
    (amount_le_total backed found)).mono ?_
  intro _ debited restaked
  have dropped := drop_backed backed found restaked rfl
  simp only [ensures_leaves, setAccount, recordUnbondEvent, recordAmountEvent, recordNativeEvent,
    ensures_put, ensures_emit, ensures_emitSide, ensures_pure]
  refine dropped.of_same fun key inside => ?_
  rw [get_pushSide, get_push, get_write_ne _ (by rintro rfl; cases inside)]

theorem burnBond_backed (backed : Backed context ledger) (address : Text) {id : Id} {bond : Bond}
    (found : stakeBond ledger.get id = some bond) :
    Ensures ledger (burnBond address id bond) fun _ after => Backed context after := by
  have elsewhere : Region.stakes ∉ [Region.other] := by decide
  unfold burnBond
  refine (Confined.same ledger elsewhere).bind ?_
  intro _ burned same
  refine (((Restaked.refl context id ledger).andSame same).debit
    (amount_le_total backed found)).bind ?_
  intro _ debited restaked
  simp only [clearStakeBond, recordSlashEvent, recordAmountEvent, recordNativeEvent, ensures_bind,
    ensures_put, ensures_emit, ensures_emitSide]
  exact (drop_backed backed found (restaked.write none) rfl).of_same fun _ _ => rfl

theorem slashValidator_backed (backed : Backed context ledger) (address : Text) :
    Ensures ledger (slashValidator address) fun _ after => Backed context after := by
  unfold slashValidator
  split
  swap
  · simpa using backed
  next id _ =>
  have forfeit : ∀ state : Leaves, Confined [.other, .books] (do
      let forfeited ← expect (state.stakeRewardsOutstanding id)
      debitSupply forfeited
      clearStakeRewards id
      return true) := fun _ => by
    repeat' first | infer_instance | refine .bind ?_ fun _ => ?_ | exact confined_put
  simp only [ensures_bind, ensures_leaves]
  split
  · simpa using backed
  have same : SameIn .stakes ledger (ledger.write (.stakeBanned id) ()) :=
    fun key inside => get_write_ne _ (by rintro rfl; cases inside)
  have banned := backed.of_same same
  rw [setStakeBanned, ensures_bind, ensures_put]
  cases found : stakeBond ledger.get id with
  | some bond =>
    have stands : stakeBond (ledger.write (.stakeBanned id) ()).get id = some bond := by
      rw [stakeBond, same _ rfl]
      exact found
    exact (burnBond_backed banned address stands).bind fun _ _ burned => burned.confined (forfeit _)
  | none => exact banned.confined (forfeit _)

theorem slashStake_backed (backed : Backed context ledger) (address : Text) (fault : Fault) :
    Ensures ledger (slashStake address fault) fun _ after => Backed context after := by
  have elsewhere : Region.stakes ∉ [Region.other] := by decide
  unfold slashStake
  split
  swap
  · simpa using backed
  next id _ =>
  simp only [ensures_bind, ensures_leaves]
  split
  swap
  · simpa using backed
  next bond found =>
  have closing : ∀ taken, Confined [.other, .books] (do
      setStakeBanned id
      let state ← leaves
      let forfeited ← expect (state.stakeRewardsOutstanding id)
      if forfeited ≠ 0 then setStakeTreasury (state.stakeTreasury.satAdd forfeited)
      clearStakeRewards id
      return taken : LedgerM U64) := fun taken => by
    repeat' first
      | infer_instance | dsimp only | split | refine .bind ?_ fun _ => ?_ | exact confined_put
  rw [setStakeTreasury, ensures_bind, ensures_put]
  refine (((Restaked.refl context id ledger).andSame fun key inside =>
    get_write_ne _ (by rintro rfl; cases inside)).debit (amount_le_total backed found)).bind ?_
  intro _ debited restaked
  refine (Confined.same debited elsewhere).bind ?_
  intro _ credited same
  have dropped : ∀ {rest : LedgerM U64} {noted}, Confined [.other, .books] rest →
      SameIn .stakes credited noted →
      Ensures noted (do clearStakeBond id; rest) fun _ after => Backed context after := by
    intro rest noted confined sameNoted
    rw [clearStakeBond, ensures_bind, ensures_put]
    have restaked := ((restaked.andSame same).andSame sameNoted).write none
    exact (drop_backed backed found restaked rfl).confined confined
  split
  · refine ((confined_emit _).same credited elsewhere).bind fun _ _ sameEvent => ?_
    exact (Confined.same _ elsewhere).bind fun _ _ sameSide =>
      dropped (closing _) (sameEvent.trans sameSide)
  · exact dropped (closing _) (.refl _ _)

theorem creditStaked_bonds (amount : U64) :
    Ensures ledger (creditStaked context amount) fun _ after =>
      ∀ id, stakeBond after.get id = stakeBond ledger.get id := by
  unfold creditStaked
  split
  · simp
  simp only [setTotalStakedActive, setTotalStakedRaisedAt, setTotalStaked, ensures_bind,
    ensures_leaves, ensures_put]
  intro id
  simp [stakeBond]

theorem debitStaked_bonds (amount : U64) :
    Ensures ledger (debitStaked amount) fun _ after =>
      ∀ id, stakeBond after.get id = stakeBond ledger.get id := by
  unfold debitStaked
  split
  · simp
  simp only [setTotalStakedActive, setTotalStaked, ensures_bind, ensures_leaves, ensures_put]
  intro id
  simp [stakeBond]

/-- Genesis gives one validator its bond. -/
theorem seedValidatorBondAt_bonds {address : Text} {id : Id} (spelled : addressId address = some id)
    (amount bondedAtDay : U64) :
    Ensures ledger (seedValidatorBondAt context address amount bondedAtDay) fun _ after =>
      stakeBond after.get id = some ⟨amount, bondedAtDay, none, amount, 0⟩ ∧
      ∀ other, other ≠ id → stakeBond after.get other = stakeBond ledger.get other := by
  have written : ∀ bond : Bond,
      stakeBond (ledger.write (.stakeBond id) (some bond)).get id = some bond ∧
      ∀ other, other ≠ id →
        stakeBond (ledger.write (.stakeBond id) (some bond)).get other =
          stakeBond ledger.get other := by
    intro bond
    constructor
    · rw [stakeBond, get_write_self]
      rfl
    · intro other apart
      rw [stakeBond, get_write_ne _ (by simpa using Ne.symm apart)]
      rfl
  unfold seedValidatorBondAt
  rw [spelled]
  simp only [setStakeBond, ensures_bind, ensures_leaves, ensures_put]
  split
  · refine (creditStaked_bonds _).mono fun _ after same => ?_
    exact ⟨(same id).trans (written _).1, fun other apart =>
      (same other).trans ((written _).2 other apart)⟩
  · refine (debitStaked_bonds _).mono fun _ after same => ?_
    exact ⟨(same id).trans (written _).1, fun other apart =>
      (same other).trans ((written _).2 other apart)⟩

/-- Genesis gives a validator its bond. -/
theorem seedValidatorBondAt_backed (genesis : context.executionHeight = 0)
    (backed : Backed context ledger) (address : Text) (amount bondedAtDay : U64) :
    Ensures ledger (seedValidatorBondAt context address amount bondedAtDay) fun _ after =>
      bondsBy amountOf after ≤ mostStake → Backed context after := by
  have first : context.currentEpoch.val = 0 := by
    rw [Context.currentEpoch, Word.val_div, genesis, Word.val_zero, Nat.zero_div]
  unfold seedValidatorBondAt
  split
  swap
  · simpa using fun _ => backed
  next id _ =>
  simp only [setStakeBond, ensures_bind, ensures_leaves, ensures_put]
  generalize seeded : (⟨amount, bondedAtDay, none, amount, 0⟩ : Bond) = bond
  have whole : amountOf bond = amount.val := by rw [← seeded]; rfl
  have restaked := (Restaked.refl context id ledger).write (some bond)
  have old := partBy_amountOf (stakeBond ledger.get id)
  have part := partBy_le_bondsBy amountOf ledger id
  have timely : ∀ current, some bond = some current →
      current.raisedAtHeight ≤ context.executionHeight := by
    rintro current ⟨rfl⟩
    rw [← seeded]
    exact Nat.zero_le _
  generalize ((stakeBond ledger.get id).map Bond.amount).getD 0 = existing at old
  split
  next grows =>
    refine (restaked.credit (amount.satSub existing)).mono ?_
    intro _ after restaked room
    refine restaked.backed backed ?_ timely fun begun => absurd begun (by omega)
    rw [bondsBy_change amountOf restaked.others, restaked.bond, partBy, old, whole,
      ← backed.total] at room
    rw [partBy, old, whole, Word.val_satAdd, Word.val_satSub]
    rw [Word.le_def] at grows
    unfold mostStake at room
    omega
  next shrinks =>
    rw [old, ← backed.total] at part
    have covered : ((existing.satSub amount).val : ℤ) ≤ (totalStaked ledger.get).val := by
      rw [Word.val_satSub]
      omega
    refine (restaked.debit covered).mono ?_
    intro _ after restaked _
    refine restaked.backed backed ?_ timely fun begun => absurd begun (by omega)
    rw [partBy, old, whole, Word.val_satSub]
    rw [Word.le_def] at shrinks
    omega

/-! ### Recoveries -/

theorem seizeBond_backed (backed : Backed context ledger) (source : Id) (remaining : U64) :
    Ensures ledger (seizeBond source remaining) fun _ after => Backed context after := by
  unfold seizeBond
  simp only [ensures_bind, ensures_leaves]
  split
  swap
  · simpa using backed
  next bond found =>
  split
  · simpa using backed
  rw [clearStakeBond, ensures_bind, ensures_put]
  refine (((Restaked.refl context source ledger).write none).debit
    (amount_le_total backed found)).bind ?_
  intro _ debited restaked
  exact (drop_backed backed found restaked rfl).confined
    ((creditAccount_confined _ _).bind fun _ => confined_pure _)

variable [Platform]

theorem executeAction_backed (backed : Backed context ledger) (action : Action)
    (now chainId : U64) :
    Ensures ledger (executeAction action now chainId) fun _ after => Backed context after := by
  have outside : Region.stakes ∉ [Region.other, .freezes] := by decide
  have votes : Region.stakes ∉ [Region.votes] := by decide
  exact executeAction_keeps outside .of_same (fun source remaining backed =>
    seizeBond_backed backed source remaining) (fun _ _ backed =>
      (Confined.same _ votes).mono fun _ _ => backed.of_same) backed action now chainId

/-! ### Lanes with a fee -/

theorem requestExitWithFee_rebonds (address : Text) (fee nowDay : U64) :
    Ensures ledger (requestExitWithFee context address fee nowDay) fun _ after =>
      Rebonds context ledger after := by
  have unchanged : Rebonds context ledger ledger := .same (.refl _ _)
  unfold requestExitWithFee
  split
  swap
  · simpa using unchanged
  rw [ensures_bind, ensures_leaves]
  dsimp only
  repeat' first | exact ensures_pure.mpr unchanged | split
  exact charged_ensures .stakes (by decide) (fun paid same =>
    requestStakeExit_rebonds same address nowDay) _ _ _ _ _

theorem withdrawWithFee_backed (backed : Backed context ledger) (address : Text)
    (fee nowDay : U64) :
    Ensures ledger (withdrawWithFee context address fee nowDay) fun _ after =>
      Backed context after := by
  unfold withdrawWithFee
  split
  swap
  · simpa using backed
  rw [ensures_bind, ensures_leaves]
  split
  swap
  · simpa using backed
  rw [ensures_bind, ensures_expect]
  intro ready _
  dsimp only
  repeat' first | exact ensures_pure.mpr backed | split
  exact charged_ensures .stakes (by decide) (fun paid same =>
    withdrawStake_backed (backed.of_same same) address nowDay) _ _ _ _ _

theorem bondWithFee_rebonds (address : Text) (amount fee day : U64) :
    Ensures ledger (bondWithFee context address amount fee day) fun _ after =>
      Rebonds context ledger after := by
  have unchanged : Rebonds context ledger ledger := .same (.refl _ _)
  unfold bondWithFee
  split
  swap
  · simpa using unchanged
  rw [ensures_bind, ensures_leaves]
  repeat' first | exact ensures_pure.mpr unchanged | split | dsimp only
  next total adds _ =>
  refine charged_ensures .stakes (by decide) ?_ _ _ _ _ _
  intro paid same
  rw [setStakeBond, ensures_bind, ensures_put]
  refine (ensures_plain _).bind ?_
  intro _ credited counted
  simp only [recordBondEvent, recordNativeEvent, ensures_bind, ensures_emit, ensures_emitSide,
    ensures_pure]
  exact .raises same adds counted fun _ _ => rfl

/-! ## Along a run -/

/-- Whether an operation seeds a bond. -/
def Operation.seeds {α : Type} : Operation α → Bool
  | .seedValidatorBondAt .. => true
  | _ => false

/-- Whether an operation gives a bond at genesis, pays one out, burns one or seizes one. -/
def Operation.dropsBonds {α : Type} : Operation α → Bool
  | .seedValidatorBondAt .. | .withdrawStake _ | .withdrawWithFee .. | .slashValidator _
  | .slashStake .. | .govEnact .. => true
  | _ => false

/-- Every other operation raises a bond, requests its exit or leaves the stakes alone. -/
theorem Transition.rebonds (next : Transition) (keeps : next.operation.dropsBonds = false) :
    Rebonds next.moment.context next.before next.after := by
  by_cases touched : .stakes ∈ next.operation.regions
  · obtain ⟨moment, operation, result, before, after, ran⟩ := next
    cases operation with
    | bond address amount => exact (bond_rebonds _ _ _).ended ran
    | bondWithFee address amount fee => exact (bondWithFee_rebonds _ _ _ _).ended ran
    | requestStakeExit address => exact (requestStakeExit_rebonds (.refl _ _) _ _).ended ran
    | requestExitWithFee address fee => exact (requestExitWithFee_rebonds _ _ _).ended ran
    | _ => simp [Operation.regions, Operation.dropsBonds] at touched keeps
  · exact .same (next.same touched)

theorem Transition.backed (next : Transition)
    (length : next.moment.context.heightsPerEpoch ≠ 0)
    (genesis : next.operation.seeds = true → next.moment.context.executionHeight = 0)
    (backed : Backed next.moment.context next.before)
    (room : bondsBy amountOf next.after ≤ mostStake) : Backed next.moment.context next.after := by
  cases drops : next.operation.dropsBonds with
  | false => exact (next.rebonds drops).backed length backed room
  | true =>
    obtain ⟨moment, operation, result, before, after, ran⟩ := next
    cases operation with
    | seedValidatorBondAt address amount bondedAtDay =>
      exact (seedValidatorBondAt_backed (genesis rfl) backed _ _ _).ended ran room
    | withdrawStake address => exact (withdrawStake_backed backed _ _).ended ran
    | withdrawWithFee address fee => exact (withdrawWithFee_backed backed _ _ _).ended ran
    | slashValidator address => exact (slashValidator_backed backed _).ended ran
    | slashStake address fault => exact (slashStake_backed backed _ _).ended ran
    | govEnact referendumId chainId =>
      rcases govEnact_within .stakes ran (by decide) with
        ⟨_, same⟩ | ⟨_, action, concluded, done, _, sameBefore, executes, sameAfter⟩
      · exact backed.of_same same
      · exact ((executeAction_backed (backed.of_same sameBefore) action moment.now chainId).ended
          executes).of_same sameAfter
    | _ => cases drops

/-- A transition that seeds one validator changes what the bonds add up to by its bond. -/
theorem Transition.bondsBy_seed (measure : Bond → ℕ) {moment : Moment} {address : Text} {id : Id}
    {amount bondedAtDay : U64} {before after : Ledger}
    (ran : ((Operation.seedValidatorBondAt address amount bondedAtDay).program moment).plain before =
      (some (), after)) (spelled : addressId address = some id) :
    stakeBond after.get id = some ⟨amount, bondedAtDay, none, amount, 0⟩ ∧
      bondsBy measure after = bondsBy measure before -
        partBy measure (stakeBond before.get id) +
        measure ⟨amount, bondedAtDay, none, amount, 0⟩ := by
  obtain ⟨bonded, others⟩ := (seedValidatorBondAt_bonds spelled amount bondedAtDay).ended ran
  refine ⟨bonded, ?_⟩
  rw [bondsBy_change measure others, bonded]
  rfl

omit [Platform] in
/-- A ledger without stakes is backed. -/
theorem backed_none (unstaked : ∀ key : LeafKey, key.region = .stakes → ledger.get key = none) :
    Backed context ledger where
  total := by
    rw [totalStaked, unstaked _ rfl, bondsBy_none fun id => by
      rw [stakeBond, unstaked _ rfl, Option.join_none]]
    rfl
  raised := by
    rw [totalStakedRaisedAt, unstaked _ rfl]
    exact Nat.zero_le _
  bondsRaised id bond found := by
    rw [stakeBond, unstaked _ rfl] at found
    cases found
  matured _ := by
    rw [bondsBy_none fun id => by rw [stakeBond, unstaked _ rfl, Option.join_none]]
    exact Int.natCast_nonneg _

section Covers

variable {start finish : Ledger} {trace : List Transition}
  (unstaked : ∀ key : LeafKey, key.region = .stakes → start.get key = none)
  (run : Run start trace finish) (context : Context) (length : context.heightsPerEpoch ≠ 0)
  (lengths : ∀ next ∈ trace, next.moment.context.heightsPerEpoch = context.heightsPerEpoch)
  (ordered : trace.Pairwise fun earlier later =>
    earlier.moment.context.executionHeight ≤ later.moment.context.executionHeight)
  (onward : ∀ next ∈ trace, next.moment.context.executionHeight ≤ context.executionHeight)
  (genesis : ∀ next ∈ trace, next.operation.seeds = true →
    next.moment.context.executionHeight = 0)

include unstaked run length lengths ordered onward genesis

/-- Along a run whose bonds add up to a word after every transition, the stake is backed after every
transition and at the end. By induction on the run: a transition keeps what is backed in its own
block, and what is backed in one block is backed in every later one. -/
theorem Run.backed (room : ∀ next ∈ trace, bondsBy amountOf next.after ≤ mostStake) :
    (∀ next ∈ trace, Backed next.moment.context next.after) ∧ Backed context finish := by
  induction run generalizing context with
  | nil => exact ⟨fun _ among => absurd among List.not_mem_nil, backed_none unstaked⟩
  | @step trace _ earlier next continues hypothesis =>
    subst continues
    have last : next ∈ trace ++ [next] := List.mem_append_right _ List.mem_cons_self
    obtain ⟨orderedBefore, _, orderedLast⟩ := List.pairwise_append.mp ordered
    have sameLength := lengths next last
    obtain ⟨past, backed⟩ := hypothesis next.moment.context (sameLength ▸ length)
      (fun past among => (lengths past (List.mem_append_left _ among)).trans sameLength.symm)
      orderedBefore (fun past among => orderedLast past among next List.mem_cons_self)
      (List.forall_mem_append.mp genesis).1
      (List.forall_mem_append.mp room).1
    have kept := next.backed (sameLength ▸ length) (genesis next last) backed (room next last)
    refine ⟨List.forall_mem_append.mpr ⟨past, ?_⟩,
      kept.advance (sameLength ▸ length) sameLength.symm (onward next last)⟩
    exact List.forall_mem_singleton.mpr kept
  | drain earlier drained same hypothesis =>
    obtain ⟨past, backed⟩ := hypothesis context length lengths ordered onward genesis room
    exact ⟨past, backed.of_same (.of_get same)⟩

/-- Along every run from a ledger without stakes, with bonds seeded at genesis only, the total of
the stake is what the bonds add up to after every transition exactly if the bonds add up to a word
after every transition: the total is a word itself, so that nothing more can be counted. Where they
do, the same holds at the end, and from the first epoch on the matured total covers what of the
bonds has matured. Each transition keeps the bonds backed while they fit. -/
theorem electorate_covers :
    ((∀ next ∈ trace, ((Leaves.totalStaked next.after.get).val : ℤ) = bondsBy amountOf next.after) ↔
        ∀ next ∈ trace, bondsBy amountOf next.after ≤ mostStake) ∧
      ((∀ next ∈ trace, bondsBy amountOf next.after ≤ mostStake) →
        ((Leaves.totalStaked finish.get).val : ℤ) = bondsBy amountOf finish ∧
          (1 ≤ context.currentEpoch.val →
            bondsBy (maturedOf context) finish ≤
              (Leaves.maturedTotalStaked finish.get context).val)) := by
  have backed := run.backed unstaked context length lengths ordered onward genesis
  refine ⟨⟨fun covers next among => ?_, fun room next among => ?_⟩, fun room => ?_⟩
  · have word := (Leaves.totalStaked next.after.get).bound
    rw [← covers next among, mostStake]
    omega
  · exact ((backed room).1 next among).total
  · exact ⟨(backed room).2.total, (backed room).2.matured⟩

end Covers

end Operations

/-- Genesis, with epochs of ten blocks. -/
def genesisMoment : Moment := ⟨⟨none, 0, 10, []⟩, 0⟩

/-- A validator is seeded at genesis, and its bond has matured in the fourth epoch. -/
theorem electorate_covers_seeded :
    letI := Platform.blank
    ∃ seeded : Transition, Run emptyLedger [seeded] seeded.after ∧
      Leaves.stakeBond seeded.after.get holder = some ⟨wholeStake, 0, none, wholeStake, 0⟩ ∧
      bondsBy (maturedOf (momentAt 0).context) seeded.after ≤
        (Leaves.maturedTotalStaked seeded.after.get (momentAt 0).context).val := by
  let := Platform.blank
  let seeded : Transition := .take genesisMoment
    (.seedValidatorBondAt (addressOf holder) wholeStake 0) emptyLedger () (by decide +kernel)
  have run : Run emptyLedger [seeded] seeded.after := .step .nil seeded rfl
  obtain ⟨bonded, seededSum⟩ := Transition.bondsBy_seed amountOf seeded.ran
    (addressId_addressOf holder)
  have room : bondsBy amountOf seeded.after ≤ mostStake := by
    rw [seededSum, bondsBy_none fun _ => rfl]
    decide
  have only : ∀ {holds : Transition → Prop}, holds seeded → ∀ next ∈ [seeded], holds next := by
    intro holds first next among
    rwa [List.mem_singleton.mp among]
  have covers := electorate_covers (fun key _ => get_emptyLedger key) run (momentAt 0).context
    (by decide) (only rfl) (List.pairwise_singleton _ _) (only (by decide)) (only fun _ => rfl)
  exact ⟨seeded, run, bonded, (covers.2 (only room)).2 (by decide)⟩

end QuantovaChain.Ledger
