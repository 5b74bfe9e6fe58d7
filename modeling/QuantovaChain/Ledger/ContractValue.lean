import QuantovaChain.Ledger.Contract
import QuantovaChain.Ledger.Footprint

/-!
# Contract calls conserve value

A contract asks for payments, mints and storage writes in any order and any number. The chain adds
the payments up and checks the sums, and then carries the payments out one by one. What is proved
here does not rest on the sums: every payment takes from one holder exactly what it gives to
another, or the call fails, and a call that fails is rolled back. So a call moves native coins and
assets and creates neither, except that it may mint the asset of its own contract, within the
ceiling declared for it.
-/

namespace QuantovaChain.Ledger

open Idfmt (Text)
open Governance
open Transaction Transaction.State Leaves

/-! ## What a ledger holds -/

/-- The account under a reference. -/
def accountAt (ledger : Ledger) (ref : AccountRef) : Account :=
  (ledger.get (.account ref)).getD default

/-- What a leaf holds in native balances. -/
def nativeHolding : (key : LeafKey) → LeafValue key → ℤ
  | .account _, account => account.balance.val
  | _, _ => 0

/-- What a leaf holds of an asset. -/
def assetHolding (assetId : AssetId) : (key : LeafKey) → LeafValue key → ℤ
  | .assetBalance held _, amount => if held = assetId then amount.val else 0
  | _, _ => 0

/-- The sum of all native balances. -/
def nativeTotal (ledger : Ledger) : ℤ := ledger.total nativeHolding

/-- The sum of the balances of an asset over its holders, less its recorded supply. -/
def assetExcess (ledger : Ledger) (assetId : AssetId) : ℤ :=
  ledger.total (assetHolding assetId) - (assetSupply ledger.get assetId).val

theorem nativeTotal_write {ledger : Ledger} {key : LeafKey} (value : LeafValue key)
    (unheld : ∀ value, nativeHolding key value = 0) :
    nativeTotal (ledger.write key value) = nativeTotal ledger := by
  rw [nativeTotal, nativeTotal, total_write, weigh_weightless unheld, unheld]
  omega

theorem assetExcess_write {ledger : Ledger} {key : LeafKey} (value : LeafValue key)
    {assetId : AssetId} (unheld : ∀ value, assetHolding assetId key value = 0)
    (apart : key ≠ .assetSupply assetId) :
    assetExcess (ledger.write key value) assetId = assetExcess ledger assetId := by
  rw [assetExcess, assetExcess, total_write, weigh_weightless unheld, unheld, assetSupply,
    assetSupply, get_write_ne _ apart]
  omega

/-- The leaves of contract storage. -/
def slotTouches : LeafKey → Bool
  | .contractSlot .. => true
  | _ => false

/-- The leaves of asset balances. -/
def balanceTouches : LeafKey → Bool
  | .assetBalance .. => true
  | _ => false

section Calls

variable [Platform]

/-- What a call has done to the value on the ledger, with native coins and assets that were taken
from a holder and not given to another yet. -/
structure Carries (contractId : Id) (cash : ℤ) (inHand : AssetId → ℤ) (before after : Ledger) :
    Prop where
  native : nativeTotal after + cash = nativeTotal before
  assets : ∀ assetId, assetExcess after assetId + inHand assetId = assetExcess before assetId
  foreign : ∀ assetId, assetId ≠ assetIdOf contractId →
    assetSupply after.get assetId = assetSupply before.get assetId
  grows : assetSupply before.get (assetIdOf contractId) ≤
    assetSupply after.get (assetIdOf contractId)
  ceiling : mintCeiling after.get contractId = mintCeiling before.get contractId
  within : assetSupply before.get (assetIdOf contractId) <
      assetSupply after.get (assetIdOf contractId) →
    mintCeiling before.get contractId ≠ 0 →
    assetSupply after.get (assetIdOf contractId) ≤ mintCeiling before.get contractId

variable {contractId : Id} {cash : ℤ} {inHand : AssetId → ℤ} {before ledger : Ledger}

namespace Carries

theorem refl (contractId : Id) (ledger : Ledger) :
    Carries contractId 0 (fun _ => 0) ledger ledger where
  native := add_zero _
  assets _ := add_zero _
  foreign _ _ := rfl
  grows := Nat.le_refl _
  ceiling := rfl
  within grew := absurd grew (Nat.lt_irrefl _)

/-- The storage of contracts does not count, nor does anything besides the leaves. -/
theorem of_untouched (carries : Carries contractId cash inHand before ledger) {after : Ledger}
    (same : Untouched slotTouches ledger after) : Carries contractId cash inHand before after := by
  have native : nativeTotal after = nativeTotal ledger :=
    same.total_eq fun key slot _ => by cases key <;> first | rfl | cases slot
  have supply : ∀ assetId, assetSupply after.get assetId =
      assetSupply ledger.get assetId := by
    intro assetId
    rw [assetSupply, same _ rfl, assetSupply]
  have excess : ∀ assetId, assetExcess after assetId = assetExcess ledger assetId := by
    intro assetId
    have holdings : after.total (assetHolding assetId) = ledger.total (assetHolding assetId) :=
      same.total_eq fun key slot _ => by cases key <;> first | rfl | cases slot
    rw [assetExcess, holdings, supply, assetExcess]
  have roof : mintCeiling after.get contractId = mintCeiling ledger.get contractId := by
    rw [mintCeiling, same _ rfl, mintCeiling]
  refine ⟨native ▸ carries.native, fun assetId => (excess assetId).symm ▸ carries.assets assetId,
    fun assetId apart => (supply assetId).trans (carries.foreign assetId apart), ?_,
    roof.trans carries.ceiling, ?_⟩
  · rw [supply]
    exact carries.grows
  · rw [supply]
    exact carries.within

variable {inHand' : AssetId → ℤ}

section

variable (carries : Carries contractId cash inHand before ledger)

include carries

/-- A write that leaves the supplies and the ceilings alone. -/
theorem write (key : LeafKey) (value : LeafValue key) {cash' : ℤ}
    (native : nativeTotal (ledger.write key value) + cash' = nativeTotal ledger + cash)
    (assets : ∀ assetId, assetExcess (ledger.write key value) assetId + inHand' assetId =
      assetExcess ledger assetId + inHand assetId)
    (supplies : ∀ assetId, key ≠ .assetSupply assetId)
    (ceilings : ∀ assetId, key ≠ .assetMintCeiling assetId) :
    Carries contractId cash' inHand' before (ledger.write key value) := by
  have supply : assetSupply (ledger.write key value).get = assetSupply ledger.get := by
    funext assetId
    rw [assetSupply, assetSupply, get_write_ne _ (supplies assetId)]
  have roof : mintCeiling (ledger.write key value).get contractId =
      mintCeiling ledger.get contractId := by
    rw [mintCeiling, mintCeiling, get_write_ne _ (ceilings _)]
  refine ⟨native.trans carries.native, fun assetId => (assets assetId).trans (carries.assets _),
    ?_, ?_, roof.trans carries.ceiling, ?_⟩
  · rw [supply]
    exact carries.foreign
  · rw [supply]
    exact carries.grows
  · rw [supply]
    exact carries.within

theorem write_account (ref : AccountRef) (account : Account) :
    Carries contractId (cash + (accountAt ledger ref).balance.val - account.balance.val) inHand
      before (ledger.write (.account ref) account) := by
  apply carries.write (.account ref) account
  case native =>
    have held : weigh nativeHolding (.account ref) (ledger.get (.account ref)) =
        (accountAt ledger ref).balance.val := by
      rw [accountAt]
      cases ledger.get (.account ref) <;> rfl
    rw [nativeTotal, total_write, held, nativeTotal]
    simp only [nativeHolding]
    omega
  case assets =>
    intro assetId
    rw [assetExcess_write _ (fun _ => rfl) (by simp)]
  case supplies => simp
  case ceilings => simp

/-- The asset balance of a holder is written. -/
theorem write_balance (moved : AssetId) (holder : Id) (amount : U128)
    (same : ∀ assetId, assetId ≠ moved → inHand' assetId = inHand assetId)
    (carried : inHand' moved = inHand moved + (assetBalance ledger.get moved holder).val -
      amount.val) :
    Carries contractId cash inHand' before (ledger.write (.assetBalance moved holder) amount) := by
  apply carries.write (.assetBalance moved holder) amount
  case native => rw [nativeTotal_write _ fun _ => rfl]
  case assets =>
    intro assetId
    by_cases here : assetId = moved
    · subst here
      have held : weigh (assetHolding assetId) (.assetBalance assetId holder)
          (ledger.get (.assetBalance assetId holder)) =
            (assetBalance ledger.get assetId holder).val := by
        rw [assetBalance]
        cases ledger.get (.assetBalance assetId holder) <;> simp [assetHolding]
      rw [assetExcess, total_write, held, assetSupply, get_write_ne _ (by simp), carried,
        assetExcess, assetSupply]
      simp only [assetHolding, if_true]
      omega
    · have unheld : ∀ value, assetHolding assetId (.assetBalance moved holder) value = 0 :=
        fun _ => if_neg (Ne.symm here)
      rw [assetExcess_write _ unheld (by simp), same assetId here]
  case supplies => simp
  case ceilings => simp

/-- The supply of the contract's asset is raised within the ceiling. -/
theorem write_supply (supply : U128)
    (same : ∀ assetId, assetId ≠ assetIdOf contractId → inHand' assetId = inHand assetId)
    (raised : (assetSupply ledger.get (assetIdOf contractId)).val ≤ supply.val)
    (carried : inHand' (assetIdOf contractId) = inHand (assetIdOf contractId) + supply.val -
      (assetSupply ledger.get (assetIdOf contractId)).val)
    (within : mintCeiling ledger.get contractId ≠ 0 → supply ≤ mintCeiling ledger.get contractId) :
    Carries contractId cash inHand' before
      (ledger.write (.assetSupply (assetIdOf contractId)) supply) := by
  have own : assetSupply (ledger.write (.assetSupply (assetIdOf contractId)) supply).get
      (assetIdOf contractId) = supply := by
    rw [assetSupply, get_write_self, Option.getD_some]
  have other : ∀ assetId, assetId ≠ assetIdOf contractId →
      assetSupply (ledger.write (.assetSupply (assetIdOf contractId)) supply).get assetId =
        assetSupply ledger.get assetId := by
    intro assetId apart
    rw [assetSupply, get_write_ne _ (by simpa using Ne.symm apart), assetSupply]
  have roof : mintCeiling (ledger.write (.assetSupply (assetIdOf contractId)) supply).get
      contractId = mintCeiling ledger.get contractId := by
    rw [mintCeiling, mintCeiling, get_write_ne _ (by simp)]
  constructor
  case native =>
    rw [nativeTotal_write _ fun _ => rfl]
    exact carries.native
  case assets =>
    intro assetId
    by_cases here : assetId = assetIdOf contractId
    · subst here
      rw [← carries.assets, assetExcess, own, total_write, carried, assetExcess,
        weigh_weightless fun _ => rfl]
      simp only [assetHolding]
      omega
    · rw [assetExcess_write _ (fun _ => rfl) (by simpa using Ne.symm here), same assetId here]
      exact carries.assets assetId
  case foreign =>
    intro assetId apart
    rw [other assetId apart]
    exact carries.foreign assetId apart
  case grows =>
    rw [own]
    exact Nat.le_trans carries.grows raised
  case ceiling => exact roof.trans carries.ceiling
  case within =>
    intro _ declared
    rw [own, ← carries.ceiling]
    exact within (carries.ceiling ▸ declared)

end

end Carries

/-! ## Calls -/

theorem applyBalanceDelta_carries (carries : Carries contractId cash inHand before ledger)
    (address : Text) (delta : ℤ) :
    Ensures ledger (applyBalanceDelta address delta) fun _ after =>
      Carries contractId (cash - delta) inHand before after := by
  unfold applyBalanceDelta
  split
  next still =>
    rw [ensures_pure, still, sub_zero]
    exact carries
  simp only [ensures_bind, ensures_leaves]
  split
  · simp
  next covered =>
  simp only [ensures_bind, ensures_expect, Word.ofNat?_eq_some, setAccount, ensures_put]
  intro balance moved
  have written := carries.write_account (accountRef address)
    { Leaves.account ledger.get address with balance := balance }
  have exactly : cash + ((accountAt ledger (accountRef address)).balance.val : ℤ) - balance.val =
      cash - delta := by
    change cash + ((Leaves.account ledger.get address).balance.val : ℤ) - balance.val = _
    omega
  rwa [exactly] at written

/-- An amount of one asset. -/
def single (moved : AssetId) (amount : ℤ) (assetId : AssetId) : ℤ :=
  if assetId = moved then amount else 0

theorem debitAsset_carries (carries : Carries contractId cash inHand before ledger)
    (moved : AssetId) (holder : Id) (amount : U128) :
    Ensures ledger (debitAsset moved holder amount) fun taken after => taken = true →
      Carries contractId cash (fun assetId => inHand assetId + single moved amount.val assetId)
        before after := by
  unfold debitAsset
  simp only [ensures_bind, ensures_leaves]
  split
  swap
  · simp
  next updated covered =>
  rw [Word.checkedSub_eq_some] at covered
  simp only [setAssetBalance, ensures_bind, ensures_put, ensures_pure]
  intro _
  apply carries.write_balance
  · intro assetId apart
    simp [single, apart]
  · simp only [single, if_true]
    omega

theorem creditAsset_carries (carries : Carries contractId cash inHand before ledger)
    (moved : AssetId) (holder : Id) (amount : U128) :
    Ensures ledger (creditAsset moved holder amount) fun given after => given = true →
      Carries contractId cash (fun assetId => inHand assetId - single moved amount.val assetId)
        before after ∧ Untouched balanceTouches ledger after := by
  unfold creditAsset
  simp only [ensures_bind, ensures_leaves]
  split
  swap
  · simp
  next updated fits =>
  rw [Word.checkedAdd_eq_some] at fits
  simp only [setAssetBalance, ensures_bind, ensures_put, ensures_pure]
  refine fun _ => ⟨?_, untouched_write _ rfl _⟩
  apply carries.write_balance
  · intro assetId apart
    simp [single, apart]
  · simp only [single, if_true]
    omega

section

variable (carries : Carries contractId 0 (fun _ => 0) before ledger)

include carries

/-- An amount of an asset moves from one holder to another. -/
theorem moveAsset_carries (moved : AssetId) (source holder : Id) (amount : U128)
    (refusal rejection : Rule) {rest : LedgerM (Option Rule)}
    (goes : ∀ after, Carries contractId 0 (fun _ => 0) before after →
      Ensures after rest fun broken after => broken = none →
        Carries contractId 0 (fun _ => 0) before after) :
    Ensures ledger (do
      if !(← debitAsset moved source amount) then return some refusal
      if !(← creditAsset moved holder amount) then return some rejection
      rest) fun broken after =>
        broken = none → Carries contractId 0 (fun _ => 0) before after := by
  refine (debitAsset_carries carries moved source amount).bind ?_
  intro taken middle carries
  cases taken with
  | false => simp
  | true =>
    refine (creditAsset_carries (carries rfl) moved holder amount).bind ?_
    intro given after carries
    cases given with
    | false => simp
    | true =>
      apply goes
      simpa using (carries rfl).1

theorem takeValue_carries (caller contract : Text) (callerId receiver : Id) (value : U64)
    (inAsset : Option AssetId) :
    Ensures ledger (takeValue caller contract callerId receiver value inAsset) fun broken after =>
      broken = none → Carries contractId 0 (fun _ => 0) before after := by
  unfold takeValue
  split
  · simpa using carries
  cases inAsset with
  | none =>
    refine (applyBalanceDelta_carries carries caller _).bind fun _ _ carries => ?_
    refine (applyBalanceDelta_carries carries contract _).bind fun _ _ carries => ?_
    simpa using carries
  | some assetId =>
    simp only [ensures_bind, ensures_leaves]
    split
    · simp
    split
    · simp
    exact moveAsset_carries carries assetId callerId receiver _ _ _
      fun _ carries => ensures_pure.mpr fun _ => carries

theorem payNative_carries (contract : Text) (credit : Text × U64) :
    Ensures ledger (payNative contract credit) fun _ after =>
      Carries contractId 0 (fun _ => 0) before after := by
  refine (applyBalanceDelta_carries carries contract _).bind fun _ _ carries => ?_
  refine (applyBalanceDelta_carries carries credit.1 _).bind fun _ _ carries => ?_
  rw [ensures_emitSide]
  simp only [sub_neg_eq_add, zero_add, sub_self] at carries
  exact carries.of_untouched fun _ _ => rfl

theorem payAssets_carries (source : Id) (credits : List (AssetId × Id × U128)) :
    Ensures ledger (payAssets source credits) fun broken after =>
      broken = none → Carries contractId 0 (fun _ => 0) before after := by
  induction credits generalizing ledger with
  | nil => simpa [payAssets] using carries
  | cons credit rest hypothesis =>
    obtain ⟨assetId, holder, amount⟩ := credit
    rw [payAssets]
    simp only [ensures_bind, ensures_leaves]
    split
    · simp
    split
    · simp
    exact moveAsset_carries carries assetId source holder amount _ _
      fun _ carries => hypothesis carries

theorem mintWithinCeiling_carries (holder : Id) (amount : U128) :
    Ensures ledger (mintWithinCeiling contractId holder amount) fun minted after =>
      minted = true → Carries contractId 0 (fun _ => 0) before after := by
  unfold mintWithinCeiling mintAsset
  simp only [ensures_bind, ensures_leaves]
  split
  swap
  · simp
  next total raised =>
  split
  · simp
  next roofed =>
  split
  · simp
  rw [ensures_bind, ensures_leaves, raised]
  rw [Word.checkedAdd_eq_some] at raised
  refine (creditAsset_carries carries (assetIdOf contractId) holder amount).bind ?_
  intro given middle ended
  cases given with
  | false => simp
  | true =>
    obtain ⟨carries, untouched⟩ := ended rfl
    have supply : assetSupply middle.get (assetIdOf contractId) =
        assetSupply ledger.get (assetIdOf contractId) := by
      rw [assetSupply, untouched _ rfl, assetSupply]
    have roof : mintCeiling middle.get contractId = mintCeiling ledger.get contractId := by
      rw [mintCeiling, untouched _ rfl, mintCeiling]
    simp only [Bool.not_true, Bool.false_eq_true, if_false, setAssetSupply, ensures_bind,
      ensures_put, ensures_pure]
    intro _
    apply carries.write_supply
    case same =>
      intro assetId apart
      simp [single, apart]
    case raised =>
      rw [supply]
      omega
    case carried =>
      rw [supply]
      simp only [single, if_true]
      omega
    case within =>
      rw [roof]
      intro declared
      rw [Word.le_def]
      simp only [ne_eq, declared, not_false_eq_true, decide_true, Bool.true_and, decide_eq_true_eq,
        Word.lt_def] at roofed
      omega

theorem applyEvents_carries (context : Context) (contract : Text) (effects : List Effect) :
    Ensures ledger (applyEvents context contract contractId effects) fun broken after =>
      broken = none → Carries contractId 0 (fun _ => 0) before after := by
  induction effects generalizing ledger with
  | nil => simpa [applyEvents] using carries
  | cons effect rest hypothesis =>
    cases effect with
    | transfer recipient amount => exact hypothesis carries
    | event selector data =>
      rw [applyEvents]
      split
      · refine (mintWithinCeiling_carries carries _ _).bind ?_
        intro minted after carries
        cases minted with
        | false => simp
        | true => exact hypothesis (carries rfl)
      · simp only [ensures_bind, ensures_emit]
        exact hypothesis (carries.of_untouched fun _ _ => rfl)

theorem setContractSlot_carries (id : Id) (slot : Slot) (value : U64) :
    Ensures ledger (setContractSlot id slot value) fun _ after =>
      Carries contractId 0 (fun _ => 0) before after := by
  unfold setContractSlot
  split
  · simp only [ensures_bind, ensures_delete, ensures_pure]
    refine carries.of_untouched fun key outside => get_erase_ne ?_
    rintro rfl
    cases outside
  · rw [ensures_put]
    exact carries.of_untouched (untouched_write (.contractSlot id slot) rfl value)

end

omit [Platform] in
/-- A call that succeeds ends where `post` holds, if the rest of it does once no rule is broken. -/
theorem orFail_ends {broken : Option Rule} {rest : LedgerM Bool} {post : Ledger → Prop}
    (goes : broken = none → Ensures ledger rest fun ended after => ended = true → post after) :
    Ensures ledger (orFail broken rest) fun ended after => ended = true → post after := by
  cases broken with
  | none => exact goes rfl
  | some rule => simp [orFail, fail]

theorem applyOutcome_carries (carries : Carries contractId 0 (fun _ => 0) before ledger)
    (context : Context) (request : CallRequest) (callerId : Id) (inAsset : Option AssetId)
    (outcome : ContractOutcome) :
    Ensures ledger (applyOutcome context request callerId contractId inAsset outcome)
      fun ended after => ended = true → Carries contractId 0 (fun _ => 0) before after := by
  unfold applyOutcome
  refine ensures_bind.mpr (ensures_residue.mpr (ensures_bind.mpr (ensures_leave.mpr ?_)))
  generalize used : ledger.withExtra _ = metered
  have carries : Carries contractId 0 (fun _ => 0) before metered :=
    carries.of_untouched fun _ _ => used ▸ rfl
  split
  swap
  · simp [fail]
  next payments _ =>
  refine ensures_bind.mpr (ensures_leaves.mpr (orFail_ends fun _ => ?_))
  refine (takeValue_carries carries _ _ _ _ _ _).bind fun _ _ carries => orFail_ends fun none => ?_
  refine Ensures.bind (ensures_each (fun credit _ _ carries =>
    payNative_carries carries _ credit) (carries none)) fun _ _ carries => ?_
  refine (payAssets_carries carries _ _).bind fun _ _ carries => orFail_ends fun none => ?_
  refine (applyEvents_carries (carries none) _ _ _).bind fun _ _ carries => orFail_ends fun none => ?_
  refine Ensures.bind (ensures_each (fun entry _ _ carries =>
    setContractSlot_carries carries _ _ _) (carries none)) fun _ _ carries => ?_
  exact ensures_pure.mpr fun _ => carries

theorem runContract_carries (context : Context) (request : CallRequest) (ledger : Ledger) :
    Ensures ledger (runContract context request) fun ended after => ended = true →
      ∃ contractId, addressId request.contract = some contractId ∧
        Carries contractId 0 (fun _ => 0) ledger after := by
  unfold runContract
  refine ensures_bind.mpr (ensures_residue.mpr (ensures_bind.mpr (ensures_leave.mpr ?_)))
  generalize cleared : ledger.withExtra _ = started
  split
  swap
  · simp [fail]
  next contractId spelled =>
  have carries : Carries contractId 0 (fun _ => 0) ledger started :=
    (Carries.refl contractId ledger).of_untouched fun _ _ => cleared ▸ rfl
  refine ensures_bind.mpr (ensures_leaves.mpr ?_)
  split
  swap
  · simp [fail]
  split
  swap
  · simp [fail]
  dsimp only
  split
  · simp [fail]
  refine ensures_bind.mpr (ensures_expect.mpr fun executed _ => ?_)
  cases executed with
  | ok outcome =>
    refine (applyOutcome_carries carries context request _ _ outcome).mono ?_
    exact fun _ _ ended succeeded => ⟨contractId, spelled, ended succeeded⟩
  | error failure => simp

/-- A call of a contract, as a transaction, moves value and creates none: where it succeeds, the sum
of the native balances is the same, and for every asset the sum of the balances differs from the
recorded supply as before; the only supply that may change is that of the contract's own asset, and
it may only grow, up to the ceiling where one is declared. Where the call fails, the leaves and the
events are as before. The plain run is followed write by write. -/
theorem runContract_conserves (context : Context) (request : CallRequest) (ledger : Ledger) :
    let ran := applyAtomic (runContract context request).exec ledger
    ran.1 = true ∧ (∃ contractId, addressId request.contract = some contractId ∧
      nativeTotal ran.2 = nativeTotal ledger ∧
      (∀ assetId, assetExcess ran.2 assetId = assetExcess ledger assetId) ∧
      (∀ assetId, assetId ≠ assetIdOf contractId →
        Leaves.assetSupply ran.2.get assetId = Leaves.assetSupply ledger.get assetId) ∧
      Leaves.assetSupply ledger.get (assetIdOf contractId) ≤
        Leaves.assetSupply ran.2.get (assetIdOf contractId) ∧
      (Leaves.assetSupply ledger.get (assetIdOf contractId) <
          Leaves.assetSupply ran.2.get (assetIdOf contractId) →
        Leaves.mintCeiling ledger.get contractId ≠ 0 →
        Leaves.assetSupply ran.2.get (assetIdOf contractId) ≤
          Leaves.mintCeiling ledger.get contractId)) ∨
    ran.1 = false ∧ ran.2.get = ledger.get ∧ ran.2.events = ledger.events ∧
      ran.2.sideEvents = ledger.sideEvents := by
  intro ran
  rcases applyAtomic_outcome (runContract context request) ledger with
    ⟨committed, returned, same⟩ | ⟨failed, same⟩
  · obtain ⟨contractId, spelled, carries⟩ :=
      runContract_carries context request ledger true returned rfl
    have carries : Carries contractId 0 (fun _ => 0) ledger ran.2 :=
      carries.of_untouched fun key _ => same.store key
    refine .inl ⟨committed, contractId, spelled, ?_, ?_, carries.foreign, carries.grows,
      carries.within⟩
    · simpa using carries.native
    · simpa using carries.assets
  · exact .inr ⟨failed, funext same.store, same.events, same.sideEvents⟩

end Calls

end QuantovaChain.Ledger
