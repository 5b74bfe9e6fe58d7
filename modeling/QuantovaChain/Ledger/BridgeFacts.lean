import QuantovaChain.Ledger.Operation

/-!
# Bridge facts act once and within caps

A mint answers to something that happened on another chain, and the end of a burn to a burn on this
one. Markers keep either from acting twice: a source reference is marked when it mints, a burn
reference when the burn is settled or slashed, and no marker is ever taken back. What was minted and
what was paid is counted by asset and epoch.

The markers and counters of a ledger are those of the deeds that led to it, so what the code checks
against a marker or a counter before each deed is a statement about all the deeds before.
-/

namespace QuantovaChain.Ledger

open Governance (AssetId Id)
open Bridge (Fact ExitFact)
open Transaction Transaction.State Leaves

/-- What happens to the facts of the bridge, with the bridge epoch it happens in. -/
inductive BridgeDeed
  | nothing
  | mint (fact : Fact) (epoch : U64)
  | burn (input : BurnInput)
  | settle (fact : ExitFact)
  | slash (fact : ExitFact) (epoch : U64)

namespace BridgeDeed

/-- Whether a deed mints on a source reference. -/
def mintsOn (sourceChain : U32) (sourceRef : Id) : BridgeDeed → Bool
  | mint fact _ => fact.sourceChain == sourceChain && fact.sourceRef == sourceRef
  | _ => false

/-- Whether a deed settles or slashes a burn. -/
def resolves (burnRef : Id) : BridgeDeed → Bool
  | settle fact | slash fact _ => fact.burnRef == burnRef
  | _ => false

/-- What a deed mints of an asset in an epoch. -/
def mintedIn (assetId : AssetId) (epoch : U64) : BridgeDeed → Nat
  | mint fact time => if fact.assetId = assetId ∧ time = epoch then fact.amount.val else 0
  | _ => 0

/-- What a slash pays of an asset in an epoch. -/
def paidIn (assetId : AssetId) (epoch : U64) : BridgeDeed → Nat
  | slash fact time => if fact.assetId = assetId ∧ time = epoch then fact.amount.val else 0
  | _ => 0

/-- What a slash pays in an epoch, of whichever asset. -/
def paidInAll (epoch : U64) : BridgeDeed → Nat
  | slash fact time => if time = epoch then fact.amount.val else 0
  | _ => 0

end BridgeDeed

/-- What is recorded of a burn. -/
def BurnInput.record (input : BurnInput) : OutstandingBurn :=
  { assetId := input.assetId, amount := input.amount, beneficiary := input.holder,
    destination := input.destination }

/-- What an exit has to agree with. -/
def exitRecord (fact : ExitFact) : OutstandingBurn :=
  { assetId := fact.assetId, amount := fact.amount, beneficiary := fact.holder,
    destination := fact.destination }

section Runs

variable [Platform] {before after ledger : Ledger}

/-- How the markers and counters change with a deed. -/
structure BridgeDeed.Effect (deed : BridgeDeed) (before after : Ledger) : Prop where
  seen : ∀ sourceChain sourceRef, bridgeReferenceSeen after.get sourceChain sourceRef =
    (bridgeReferenceSeen before.get sourceChain sourceRef ||
      deed.mintsOn sourceChain sourceRef)
  settled : ∀ burnRef, bridgeExitSettled after.get burnRef =
    (bridgeExitSettled before.get burnRef || deed.resolves burnRef)
  outstanding : ∀ burnRef record, bridgeOutstandingBurn after.get burnRef = some record →
    bridgeOutstandingBurn before.get burnRef = some record ∨
      ∃ input, deed = .burn input ∧ bridgeBurnRef input = burnRef ∧ input.record = record
  minted : ∀ assetId epoch, (bridgeEpochMinted after.get assetId epoch).val =
    (bridgeEpochMinted before.get assetId epoch).val + deed.mintedIn assetId epoch
  paid : ∀ assetId epoch, (bridgeEpochPaid after.get assetId epoch).val =
    (bridgeEpochPaid before.get assetId epoch).val + deed.paidIn assetId epoch
  paidInAll : ∀ epoch, (bridgeEpochPaidGlobal after.get epoch).val =
    (bridgeEpochPaidGlobal before.get epoch).val + deed.paidInAll epoch

namespace BridgeDeed.Effect

theorem of_same (same : SameIn .bridgeFacts before after) : Effect .nothing before after where
  seen sourceChain sourceRef := by
    rw [bridgeReferenceSeen, same _ rfl]
    simp [bridgeReferenceSeen, mintsOn]
  settled burnRef := by
    rw [bridgeExitSettled, same _ rfl]
    simp [bridgeExitSettled, resolves]
  outstanding burnRef record found := by
    rw [bridgeOutstandingBurn, same _ rfl] at found
    exact .inl found
  minted assetId epoch := by
    rw [bridgeEpochMinted, same _ rfl]
    rfl
  paid assetId epoch := by
    rw [bridgeEpochPaid, same _ rfl]
    rfl
  paidInAll epoch := by
    rw [bridgeEpochPaidGlobal, same _ rfl]
    rfl

/-- A mint marks its source reference and counts its amount. -/
theorem of_mint {fact : Fact} {epoch : U64} {minted : U128}
    (marked : after.get (.bridgeSeen fact.sourceChain fact.sourceRef) = some ())
    (counted : after.get (.bridgeEpochmint fact.assetId epoch) = some minted)
    (adds : minted.val = (bridgeEpochMinted before.get fact.assetId epoch).val +
      fact.amount.val)
    (others : ∀ key, key.region = .bridgeFacts →
      key ≠ .bridgeSeen fact.sourceChain fact.sourceRef →
      key ≠ .bridgeEpochmint fact.assetId epoch → after.get key = before.get key) :
    Effect (.mint fact epoch) before after where
  seen sourceChain sourceRef := by
    by_cases here : fact.sourceChain = sourceChain ∧ fact.sourceRef = sourceRef
    · obtain ⟨rfl, rfl⟩ := here
      simp [bridgeReferenceSeen, marked, mintsOn]
    · have unmarked : mintsOn sourceChain sourceRef (.mint fact epoch) = false := by
        simpa [mintsOn] using here
      rw [bridgeReferenceSeen, others _ rfl (by simpa [eq_comm] using here) (by simp),
        unmarked, Bool.or_false, bridgeReferenceSeen]
  settled burnRef := by simp [bridgeExitSettled, others, LeafKey.region, resolves]
  outstanding burnRef record found := by
    rw [bridgeOutstandingBurn, others _ rfl (by simp) (by simp)] at found
    exact .inl found
  minted assetId time := by
    by_cases here : fact.assetId = assetId ∧ epoch = time
    · obtain ⟨rfl, rfl⟩ := here
      simp [bridgeEpochMinted, counted, mintedIn, adds]
    · rw [bridgeEpochMinted, others _ rfl (by simp) (by simpa [eq_comm] using here),
        mintedIn, if_neg here]
      rfl
  paid assetId epoch := by simp [bridgeEpochPaid, others, LeafKey.region, paidIn]
  paidInAll epoch := by simp [bridgeEpochPaidGlobal, others, LeafKey.region, BridgeDeed.paidInAll]

/-- A burn is recorded under its reference. -/
theorem of_burn {input : BurnInput}
    (recorded : after.get (.bridgeOutstanding (bridgeBurnRef input)) = some input.record)
    (others : ∀ key, key.region = .bridgeFacts → key ≠ .bridgeOutstanding (bridgeBurnRef input) →
      after.get key = before.get key) : Effect (.burn input) before after where
  seen sourceChain sourceRef := by simp [bridgeReferenceSeen, others, LeafKey.region, mintsOn]
  settled burnRef := by simp [bridgeExitSettled, others, LeafKey.region, resolves]
  outstanding burnRef record found := by
    by_cases here : bridgeBurnRef input = burnRef
    · subst here
      rw [bridgeOutstandingBurn, recorded, Option.some.injEq] at found
      exact .inr ⟨input, rfl, rfl, found⟩
    · rw [bridgeOutstandingBurn, others _ rfl (by simpa [eq_comm] using here)] at found
      exact .inl found
  minted assetId epoch := by simp [bridgeEpochMinted, others, LeafKey.region, mintedIn]
  paid assetId epoch := by simp [bridgeEpochPaid, others, LeafKey.region, paidIn]
  paidInAll epoch := by simp [bridgeEpochPaidGlobal, others, LeafKey.region, BridgeDeed.paidInAll]

/-- A burn that is settled is marked and no longer outstanding. -/
theorem of_settle {fact : ExitFact} (marked : after.get (.bridgeExitSeen fact.burnRef) = some ())
    (consumed : after.get (.bridgeOutstanding fact.burnRef) = none)
    (others : ∀ key, key.region = .bridgeFacts → key ≠ .bridgeExitSeen fact.burnRef →
      key ≠ .bridgeOutstanding fact.burnRef → after.get key = before.get key) :
    Effect (.settle fact) before after where
  seen sourceChain sourceRef := by simp [bridgeReferenceSeen, others, LeafKey.region, mintsOn]
  settled burnRef := by
    by_cases here : fact.burnRef = burnRef
    · subst here
      simp [bridgeExitSettled, marked, resolves]
    · have unmarked : resolves burnRef (.settle fact) = false := by simpa [resolves] using here
      rw [bridgeExitSettled, others _ rfl (by simpa [eq_comm] using here) (by simp),
        unmarked, Bool.or_false, bridgeExitSettled]
  outstanding burnRef record found := by
    by_cases here : fact.burnRef = burnRef
    · subst here
      rw [bridgeOutstandingBurn, consumed] at found
      cases found
    · rw [bridgeOutstandingBurn,
        others _ rfl (by simp) (by simpa [eq_comm] using here)] at found
      exact .inl found
  minted assetId epoch := by simp [bridgeEpochMinted, others, LeafKey.region, mintedIn]
  paid assetId epoch := by simp [bridgeEpochPaid, others, LeafKey.region, paidIn]
  paidInAll epoch := by simp [bridgeEpochPaidGlobal, others, LeafKey.region, BridgeDeed.paidInAll]

/-- A slash is a settlement that is paid for: what it pays is counted on top. -/
theorem of_slash {middle : Ledger} {fact : ExitFact} {epoch : U64} {paid paidAll : U128}
    (settles : Effect (.settle fact) before middle)
    (counted : after.get (.bridgeEpochpay fact.assetId epoch) = some paid)
    (adds : paid.val = (bridgeEpochPaid before.get fact.assetId epoch).val +
      fact.amount.val)
    (countedAll : after.get (.bridgeEpochpayGlobal epoch) = some paidAll)
    (addsAll : paidAll.val = (bridgeEpochPaidGlobal before.get epoch).val + fact.amount.val)
    (others : ∀ key, key.region = .bridgeFacts → key ≠ .bridgeEpochpay fact.assetId epoch →
      key ≠ .bridgeEpochpayGlobal epoch → after.get key = middle.get key) :
    Effect (.slash fact epoch) before after where
  seen sourceChain sourceRef := by
    rw [bridgeReferenceSeen, others _ rfl (by simp) (by simp)]
    exact settles.seen sourceChain sourceRef
  settled burnRef := by
    rw [bridgeExitSettled, others _ rfl (by simp) (by simp)]
    exact settles.settled burnRef
  outstanding burnRef record found := by
    rw [bridgeOutstandingBurn, others _ rfl (by simp) (by simp)] at found
    rcases settles.outstanding burnRef record found with found | ⟨_, burns, _⟩
    · exact .inl found
    · cases burns
  minted assetId epoch := by
    rw [bridgeEpochMinted, others _ rfl (by simp) (by simp)]
    exact settles.minted assetId epoch
  paid assetId time := by
    by_cases here : fact.assetId = assetId ∧ epoch = time
    · obtain ⟨rfl, rfl⟩ := here
      simp [bridgeEpochPaid, counted, paidIn, adds]
    · rw [bridgeEpochPaid, others _ rfl (by simpa [eq_comm] using here) (by simp), paidIn,
        if_neg here]
      exact settles.paid assetId time
  paidInAll time := by
    by_cases here : epoch = time
    · subst here
      simp [bridgeEpochPaidGlobal, countedAll, BridgeDeed.paidInAll, addsAll]
    · rw [bridgeEpochPaidGlobal, others _ rfl (by simp) (by simpa [eq_comm] using here),
        BridgeDeed.paidInAll, if_neg here]
      exact settles.paidInAll time

end BridgeDeed.Effect

/-! ## What the code checks -/

/-- A burn that may be resolved: it has not been, and it is outstanding on the same terms. -/
structure Resolvable (fact : ExitFact) (ledger : Ledger) : Prop where
  unsettled : bridgeExitSettled ledger.get fact.burnRef = false
  outstanding : bridgeOutstandingBurn ledger.get fact.burnRef = some (exitRecord fact)

/-- What holds before and after a deed. -/
def BridgeDeed.Permitted (before after : Ledger) : BridgeDeed → Prop
  | nothing | burn _ => True
  | mint fact epoch =>
    bridgeReferenceSeen before.get fact.sourceChain fact.sourceRef = false ∧
      ∃ asset, bridgedAsset after.get fact.assetId = some asset ∧
        asset.supply ≤ asset.cap ∧
        bridgeEpochMinted after.get fact.assetId epoch ≤ asset.epochCap
  | settle fact => Resolvable fact before
  | slash fact epoch => Resolvable fact before ∧
      ∃ asset, bridgedAsset before.get fact.assetId = some asset ∧
        bridgeEpochPaid after.get fact.assetId epoch ≤ asset.epochCap ∧
        bridgeEpochPaidGlobal after.get epoch ≤ bridgePayoutCap before.get

/-- A deed was permitted and took effect. -/
structure BridgeDeed.Done (deed : BridgeDeed) (before after : Ledger) : Prop where
  effect : deed.Effect before after
  permitted : deed.Permitted before after

theorem BridgeDeed.Done.of_same (same : SameIn .bridgeFacts before after) :
    Done .nothing before after :=
  ⟨.of_same same, trivial⟩

omit [Platform] in
theorem outstandingBurnMatches_eq_true {state : Leaves} {fact : ExitFact} :
    state.outstandingBurnMatches fact = true ↔
      state.bridgeOutstandingBurn fact.burnRef = some (exitRecord fact) := by
  unfold outstandingBurnMatches
  cases state.bridgeOutstandingBurn fact.burnRef with
  | none => simp
  | some record =>
    obtain ⟨assetId, amount, beneficiary, destination⟩ := record
    simp only [Bool.and_eq_true, beq_iff_eq, Option.some.injEq, exitRecord,
      OutstandingBurn.mk.injEq]
    tauto

omit [Platform] in
theorem exitTerms_eq_some {fact : ExitFact} {vault : Id} {asset : QAsset}
    (terms : exitTerms ledger.get fact = some (vault, asset)) :
    Resolvable fact ledger ∧ bridgedAsset ledger.get fact.assetId = some asset := by
  unfold exitTerms at terms
  split at terms
  · cases terms
  next passed =>
  simp only [Bool.or_eq_true, not_or, Bool.not_eq_true, Bool.not_eq_true', Bool.not_eq_false] at passed
  obtain ⟨⟨_, unsettled⟩, outstanding⟩ := passed
  refine ⟨⟨unsettled, outstandingBurnMatches_eq_true.mp outstanding⟩, ?_⟩
  cases vaulted : bridgePoolVault ledger.get with
  | none => simp [vaulted] at terms
  | some pool =>
    cases found : bridgedAsset ledger.get fact.assetId with
    | none => simp [vaulted, found] at terms
    | some registered =>
      simp only [vaulted, found, Option.bind_eq_bind, Option.bind_some, Option.pure_def,
        Option.some.injEq, Prod.mk.injEq] at terms
      rw [terms.2]

theorem refused_done {deed : BridgeDeed} : Ensures ledger (pure false) fun done after =>
    BridgeDeed.Done (if done then deed else .nothing) ledger after :=
  ensures_pure.mpr (.of_same (.refl _ _))

theorem bridgeMint_done (context : Context) (fact : Fact) (ledger : Ledger) :
    Ensures ledger (bridgeMint context fact) fun minted after =>
      BridgeDeed.Done (if minted then .mint fact (bridgeEpoch ledger.get) else .nothing)
        ledger after := by
  unfold bridgeMint
  split
  · exact refused_done
  simp only [ensures_bind, ensures_leaves]
  repeat' first | exact refused_done | split
  next asset registered unseen _ supply supplied capped _ minted counted metered _ credited _ =>
  have elsewhere : Region.bridgeFacts ∉ [Region.other] := by decide
  refine (Confined.same ledger elsewhere).bind ?_
  intro accepted held same
  split
  · simpa using BridgeDeed.Done.of_same same
  simp only [setBridgedBalance, setBridgedAsset, recordBridgeMintEvent, recordNativeEvent,
    ensures_bind, ensures_put, ensures_emit, ensures_emitSide, ensures_pure, if_true]
  constructor
  case effect =>
    apply BridgeDeed.Effect.of_mint
    case marked => simp
    case counted => rw [get_pushSide, get_push, get_write_self]
    case adds => exact Word.checkedAdd_eq_some.mp counted
    case others =>
      intro key inside notSeen notMinted
      rw [get_pushSide, get_push, get_write_ne _ notMinted.symm, get_write_ne _ notSeen.symm,
        get_write_ne _ (by rintro rfl; cases inside),
        get_write_ne _ (by rintro rfl; cases inside), same key inside]
  case permitted =>
    refine ⟨by simpa using unseen, { asset with supply }, ?_, Nat.le_of_not_lt capped, ?_⟩
    · simp [bridgedAsset]
    · rw [bridgeEpochMinted, get_pushSide, get_push, get_write_self, Option.getD_some]
      exact Nat.le_of_not_lt metered

/-- What a burn in this state would be known by. -/
def burnInput (ledger : Ledger) (assetId : AssetId) (holder : Id) (amount : U128)
    (destination : Id) (chainId senderNonce : U64) : BurnInput :=
  { chainId, genesis := chainGenesisHash ledger.get, assetId, holder, amount, destination,
    senderNonce, eventIndex := Word.clamp 64 ledger.events.length }

theorem bridgeBurn_done (assetId : AssetId) (holder : Id) (amount : U128) (destination : Id)
    (chainId senderNonce : U64) (ledger : Ledger) :
    Ensures ledger (bridgeBurn assetId holder amount destination chainId senderNonce)
      fun burned after => BridgeDeed.Done
        (if burned then
          .burn (burnInput ledger assetId holder amount destination chainId senderNonce)
        else .nothing) ledger after := by
  unfold bridgeBurn
  split
  · exact refused_done
  simp only [ensures_bind, ensures_leaves]
  repeat' first | exact refused_done | split
  next asset _ _ _ supply _ =>
  simp only [setBridgedBalance, setBridgedAsset, recordOutstandingBurn, recordBridgeBurnEvent,
    recordNativeEvent, ensures_bind, ensures_put, ensures_eventCount, ensures_leaves, ensures_emit,
    ensures_emitSide, ensures_pure, if_true]
  generalize written : (ledger.write (.bridgeBalance assetId holder) _).write (.bridgeAsset assetId)
    _ = paid
  have same : SameIn .bridgeFacts ledger paid := by
    intro key inside
    rw [← written, get_write_ne _ (by rintro rfl; cases inside),
      get_write_ne _ (by rintro rfl; cases inside)]
  have input : burnInput paid assetId holder amount destination chainId senderNonce =
      burnInput ledger assetId holder amount destination chainId senderNonce := by
    rw [← written, burnInput, chainGenesisHash, get_write_ne _ (by simp),
      get_write_ne _ (by simp)]
    rfl
  unfold burnInput at input ⊢
  rw [input]
  refine ⟨?_, trivial⟩
  apply BridgeDeed.Effect.of_burn
  case recorded =>
    rw [get_pushSide, get_push, get_write_self]
    rfl
  case others =>
    intro key inside apart
    rw [get_pushSide, get_push, get_write_ne _ apart.symm, same key inside]

/-- The writes with which the end of a burn begins. -/
theorem settled_effect (fact : ExitFact) (ledger : Ledger) :
    BridgeDeed.Effect (.settle fact) ledger
      ((ledger.write (.bridgeExitSeen fact.burnRef) ()).erase (.bridgeOutstanding fact.burnRef)) := by
  apply BridgeDeed.Effect.of_settle
  case marked => rw [get_erase_ne (by simp), get_write_self]
  case consumed => exact get_erase_self
  case others =>
    intro key _ notSeen notOutstanding
    rw [get_erase_ne notOutstanding.symm, get_write_ne _ notSeen.symm]

theorem bridgeSettle_done (fact : ExitFact) (ledger : Ledger) :
    Ensures ledger (bridgeSettle fact) fun settled after =>
      BridgeDeed.Done (if settled then .settle fact else .nothing) ledger after := by
  unfold bridgeSettle
  simp only [ensures_bind, ensures_leaves]
  repeat' first | exact refused_done | split
  next vault asset terms _ held _ _ =>
  simp only [markBridgeExitSettled, consumeOutstandingBurn, setBridgeVaultCustody,
    recordBridgeSettleEvent, recordBridgeExitEvent, recordNativeEvent, ensures_bind, ensures_put,
    ensures_delete, ensures_emit, ensures_emitSide, ensures_pure, if_true]
  refine ⟨?_, (exitTerms_eq_some terms).1⟩
  apply BridgeDeed.Effect.of_settle
  case marked => simp
  case consumed => simp
  case others =>
    intro key inside notSeen notOutstanding
    rw [get_pushSide, get_push, get_write_ne _ (by rintro rfl; cases inside),
      get_erase_ne notOutstanding.symm, get_write_ne _ notSeen.symm]

theorem bridgeSlash_done (fact : ExitFact) (ledger : Ledger) :
    Ensures ledger (bridgeSlash fact) fun slashed after =>
      BridgeDeed.Done
        (if slashed then .slash fact (bridgeEpoch ledger.get) else .nothing)
        ledger after := by
  unfold bridgeSlash
  simp only [ensures_bind, ensures_leaves]
  repeat' first | exact refused_done | split
  next asset terms _ paid counted metered _ paidAll countedAll meteredAll _ _ _ _ _ _ _ _ =>
  simp only [markBridgeExitSettled, consumeOutstandingBurn, setBridgedBalance, setBridgedAsset,
    recordBridgeSlashEvent, recordBridgeExitEvent, recordNativeEvent, ensures_bind, ensures_put,
    ensures_delete, ensures_emit, ensures_emitSide, ensures_pure, if_true]
  obtain ⟨resolvable, registered⟩ := exitTerms_eq_some terms
  constructor
  case effect =>
    apply BridgeDeed.Effect.of_slash (settled_effect fact ledger)
    case counted => rw [get_pushSide, get_push, get_write_ne _ (by simp), get_write_self]
    case adds => exact Word.checkedAdd_eq_some.mp counted
    case countedAll => rw [get_pushSide, get_push, get_write_self]
    case addsAll => exact Word.checkedAdd_eq_some.mp countedAll
    case others =>
      intro key inside notPaid notPaidAll
      rw [get_pushSide, get_push, get_write_ne _ notPaidAll.symm, get_write_ne _ notPaid.symm,
        get_write_ne _ (by rintro rfl; cases inside),
        get_write_ne _ (by rintro rfl; cases inside)]
  case permitted =>
    refine ⟨resolvable, asset, registered, ?_, ?_⟩
    · simp [bridgeEpochPaid]
      exact Nat.le_of_not_lt metered
    · rw [bridgeEpochPaidGlobal, get_pushSide, get_push, get_write_self, Option.getD_some]
      exact Nat.le_of_not_lt meteredAll

/-! ## Along a run -/

/-- What an operation does to the facts of the bridge. -/
def Operation.bridgeDeed {α : Type} (before : Ledger) : Operation α → α → BridgeDeed
  | .bridgeMint fact, true => .mint fact (bridgeEpoch before.get)
  | .bridgeBurn assetId holder amount destination chainId senderNonce, true =>
    .burn (burnInput before assetId holder amount destination chainId senderNonce)
  | .bridgeSettle fact, true => .settle fact
  | .bridgeSlash fact, true => .slash fact (bridgeEpoch before.get)
  | _, _ => .nothing

def Transition.bridgeDeed (next : Transition) : BridgeDeed :=
  next.operation.bridgeDeed next.before next.result

theorem Transition.bridgeDone (next : Transition) :
    next.bridgeDeed.Done next.before next.after := by
  obtain ⟨moment, operation, result, before, after, ran⟩ := next
  by_cases touched : .bridgeFacts ∈ operation.regions
  · cases operation with
    | bridgeMint fact =>
      have done := (bridgeMint_done moment.context fact before).ended ran
      cases result <;> exact done
    | bridgeBurn assetId holder amount destination chainId senderNonce =>
      have done := (bridgeBurn_done assetId holder amount destination chainId senderNonce
        before).ended ran
      cases result <;> exact done
    | bridgeSettle fact =>
      have done := (bridgeSettle_done fact before).ended ran
      cases result <;> exact done
    | bridgeSlash fact =>
      have done := (bridgeSlash_done fact before).ended ran
      cases result <;> exact done
    | _ => simp [Operation.regions] at touched
  · have same : SameIn .bridgeFacts before after :=
      Transition.same ⟨moment, operation, result, before, after, ran⟩ touched
    have nothing : operation.bridgeDeed before result = .nothing := by
      cases operation with
      | bridgeMint | bridgeBurn | bridgeSettle | bridgeSlash =>
        simp [Operation.regions] at touched
      | _ => rfl
    rw [Transition.bridgeDeed, nothing]
    exact .of_same same

/-- The deeds of a trace. -/
def bridgeLog (trace : List Transition) : List BridgeDeed := trace.map Transition.bridgeDeed

/-- The markers and counters of a ledger are those of a log of deeds. -/
structure Recorded (log : List BridgeDeed) (ledger : Ledger) : Prop where
  seen : ∀ sourceChain sourceRef, bridgeReferenceSeen ledger.get sourceChain sourceRef =
    log.any (BridgeDeed.mintsOn sourceChain sourceRef)
  settled : ∀ burnRef,
    bridgeExitSettled ledger.get burnRef = log.any (BridgeDeed.resolves burnRef)
  outstanding : ∀ burnRef record, bridgeOutstandingBurn ledger.get burnRef = some record →
    ∃ input, .burn input ∈ log ∧ bridgeBurnRef input = burnRef ∧ input.record = record
  minted : ∀ assetId epoch, (bridgeEpochMinted ledger.get assetId epoch).val =
    (log.map (BridgeDeed.mintedIn assetId epoch)).sum
  paid : ∀ assetId epoch, (bridgeEpochPaid ledger.get assetId epoch).val =
    (log.map (BridgeDeed.paidIn assetId epoch)).sum
  paidInAll : ∀ epoch, (bridgeEpochPaidGlobal ledger.get epoch).val =
    (log.map (BridgeDeed.paidInAll epoch)).sum

namespace Recorded

variable {log : List BridgeDeed} {deed : BridgeDeed}

theorem none (unmarked : ∀ key : LeafKey, key.region = .bridgeFacts → ledger.get key = none) :
    Recorded [] ledger where
  seen _ _ := by rw [bridgeReferenceSeen, unmarked _ rfl]; rfl
  settled _ := by rw [bridgeExitSettled, unmarked _ rfl]; rfl
  outstanding _ _ found := by
    rw [bridgeOutstandingBurn, unmarked _ rfl] at found
    cases found
  minted _ _ := by rw [bridgeEpochMinted, unmarked _ rfl]; rfl
  paid _ _ := by rw [bridgeEpochPaid, unmarked _ rfl]; rfl
  paidInAll _ := by rw [bridgeEpochPaidGlobal, unmarked _ rfl]; rfl

theorem step (recorded : Recorded log before) (effect : deed.Effect before after) :
    Recorded (log ++ [deed]) after where
  seen sourceChain sourceRef := by simp [effect.seen, recorded.seen]
  settled burnRef := by simp [effect.settled, recorded.settled]
  outstanding burnRef record found := by
    rcases effect.outstanding burnRef record found with found | ⟨input, rfl, named, same⟩
    · obtain ⟨input, logged, named, same⟩ := recorded.outstanding burnRef record found
      exact ⟨input, List.mem_append_left _ logged, named, same⟩
    · exact ⟨input, by simp, named, same⟩
  minted assetId epoch := by simp [effect.minted, recorded.minted]
  paid assetId epoch := by simp [effect.paid, recorded.paid]
  paidInAll epoch := by simp [effect.paidInAll, recorded.paidInAll]

/-- What is resolved was not resolved before, and agrees with a burn of the log. -/
theorem resolvable (recorded : Recorded log before) {fact : ExitFact}
    (resolvable : Resolvable fact before) :
    (∀ past ∈ log, past.resolves fact.burnRef = false) ∧
      ∃ input, .burn input ∈ log ∧ bridgeBurnRef input = fact.burnRef ∧
        input.record = exitRecord fact := by
  refine ⟨?_, recorded.outstanding _ _ resolvable.outstanding⟩
  have unsettled := resolvable.unsettled
  rw [recorded.settled, List.any_eq_false] at unsettled
  exact fun past logged => Bool.eq_false_iff.mpr (unsettled past logged)

end Recorded

theorem Run.recorded {start finish : Ledger} {trace : List Transition}
    (unmarked : ∀ key : LeafKey, key.region = .bridgeFacts → start.get key = none)
    (run : Run start trace finish) : Recorded (bridgeLog trace) finish := by
  refine run.invariant (fun trace ledger => Recorded (bridgeLog trace) ledger) (.none unmarked) ?_ ?_
  · intro trace next recorded
    rw [bridgeLog, List.map_append]
    exact recorded.step next.bridgeDone.effect
  · intro trace ledger drained same recorded
    obtain ⟨seen, settled, outstanding, minted, paid, paidInAll⟩ := recorded
    rw [← same] at *
    exact ⟨seen, settled, outstanding, minted, paid, paidInAll⟩

/-- A transition of a run from a ledger without bridge facts, with the transitions before it. A mint
is the first on its source reference, and stays within the caps. A burn is resolved for the first
time, on the terms of the burn. What slashes pay in an epoch stays within the cap of the asset and
the cap on payouts. By induction on the run, the leaves record what it has done so far, and each
transition checks them. -/
theorem bridge_facts_once {start finish : Ledger} {trace : List Transition}
    (unmarked : ∀ key : LeafKey, key.region = .bridgeFacts → start.get key = none)
    (run : Run start trace finish) (first : List Transition) (next : Transition)
    (second : List Transition) (cut : trace = first ++ next :: second)
    (injective : Set.InjOn bridgeBurnRef {input | .burn input ∈ bridgeLog trace}) :
    (∀ fact epoch, next.bridgeDeed = .mint fact epoch →
      (∀ past ∈ bridgeLog first, past.mintsOn fact.sourceChain fact.sourceRef = false) ∧
      ∃ asset, Leaves.bridgedAsset next.after.get fact.assetId = some asset ∧
        asset.supply ≤ asset.cap ∧
        ((bridgeLog (first ++ [next])).map (BridgeDeed.mintedIn fact.assetId epoch)).sum ≤
          asset.epochCap.val) ∧
    (∀ fact, (next.bridgeDeed = .settle fact ∨ ∃ epoch, next.bridgeDeed = .slash fact epoch) →
      (∀ past ∈ bridgeLog first, past.resolves fact.burnRef = false) ∧
      (∃ input, .burn input ∈ bridgeLog first ∧ bridgeBurnRef input = fact.burnRef) ∧
      ∀ input, .burn input ∈ bridgeLog trace → bridgeBurnRef input = fact.burnRef →
        input.record = exitRecord fact) ∧
    (∀ fact epoch, next.bridgeDeed = .slash fact epoch →
      ∃ asset, Leaves.bridgedAsset next.before.get fact.assetId = some asset ∧
        ((bridgeLog (first ++ [next])).map (BridgeDeed.paidIn fact.assetId epoch)).sum ≤
          asset.epochCap.val ∧
        ((bridgeLog (first ++ [next])).map (BridgeDeed.paidInAll epoch)).sum ≤
          (Leaves.bridgePayoutCap next.before.get).val) := by
  rw [cut, ← List.singleton_append, ← List.append_assoc] at run
  obtain ⟨middle, earlier, _⟩ := run.split
  have recorded := earlier.last.1.recorded unmarked
  have ⟨effect, permitted⟩ := next.bridgeDone
  have counted : Recorded (bridgeLog (first ++ [next])) next.after := by
    rw [bridgeLog, List.map_append]
    exact recorded.step effect
  refine ⟨?_, ?_, ?_⟩
  · intro fact epoch mints
    rw [mints] at permitted
    obtain ⟨unseen, asset, registered, capped, metered⟩ := permitted
    rw [recorded.seen, List.any_eq_false] at unseen
    refine ⟨fun past logged => Bool.eq_false_iff.mpr (unseen past logged), asset, registered, capped,
      ?_⟩
    rw [← counted.minted]
    exact metered
  · intro fact ends
    have resolvable : Resolvable fact next.before := by
      rcases ends with settles | ⟨epoch, slashes⟩
      · rw [settles] at permitted
        exact permitted
      · rw [slashes] at permitted
        exact permitted.1
    obtain ⟨unresolved, input, burned, named, same⟩ := recorded.resolvable resolvable
    refine ⟨unresolved, ⟨input, burned, named⟩, ?_⟩
    intro other burnedOther namedOther
    have logged : .burn input ∈ bridgeLog trace := by
      rw [cut, bridgeLog, List.map_append]
      exact List.mem_append_left _ burned
    rw [injective burnedOther logged (namedOther.trans named.symm), same]
  · intro fact epoch slashes
    rw [slashes] at permitted
    obtain ⟨_, asset, registered, metered, meteredAll⟩ := permitted
    refine ⟨asset, registered, ?_, ?_⟩
    · rw [← counted.paid]
      exact metered
    · rw [← counted.paidInAll]
      exact meteredAll

end Runs

def bridgedAssetId : AssetId := Vector.replicate 16 1

/-- A ledger with one bridged asset, a vault and open exits. -/
def bridgedLedger : Ledger :=
  ((emptyLedger.write (.bridgeAsset bridgedAssetId) ⟨0, 100, 50, false⟩).write .bridgeVault
    (Vector.replicate 32 2)).write .bridgeExits true

/-- A deposit of forty units for a holder. -/
def depositFact : Fact :=
  ⟨1, 5, 6, 0, .deposit, 0, Vector.replicate 32 3, bridgedAssetId, 40, holder, 0, 0, 1000⟩

/-- The end of the burn of those units. -/
def exitFact : ExitFact :=
  ⟨1, 0, 5, bridgedAssetId, 40, holder, Vector.replicate 32 4, Vector.replicate 32 0, .settle⟩

/-- The deposit is minted, burned and settled. -/
theorem bridge_facts_once_settled :
    letI := Platform.blank
    ∃ minted burned settled : Transition,
      Run bridgedLedger [minted, burned, settled] settled.after ∧
      settled.bridgeDeed = .settle exitFact ∧
      (∃ input, .burn input ∈ bridgeLog [minted, burned] ∧
        bridgeBurnRef input = exitFact.burnRef ∧ input.record = exitRecord exitFact) ∧
      ∃ asset, Leaves.bridgedAsset minted.after.get bridgedAssetId = some asset ∧
        asset.supply ≤ asset.cap := by
  let := Platform.blank
  let minted : Transition := .take (momentAt 0) (.bridgeMint depositFact) bridgedLedger true
    (by decide +kernel)
  let burned : Transition := .take (momentAt 1)
    (.bridgeBurn bridgedAssetId holder 40 (Vector.replicate 32 4) 0 0) minted.after true
    (by decide +kernel)
  let settled : Transition := .take (momentAt 2) (.bridgeSettle exitFact) burned.after true
    (by decide +kernel)
  have run : Run bridgedLedger [minted, burned, settled] settled.after :=
    .step (.step (.step .nil minted rfl) burned (Transition.take_before ..)) settled
      (Transition.take_before ..)
  have unmarked : ∀ key : LeafKey, key.region = .bridgeFacts → bridgedLedger.get key = none := by
    intro key inside
    rw [bridgedLedger, get_write_ne _ (by rintro rfl; cases inside),
      get_write_ne _ (by rintro rfl; cases inside), get_write_ne _ (by rintro rfl; cases inside),
      get_emptyLedger]
  have mints : minted.bridgeDeed = .mint depositFact 0 := rfl
  have settles : settled.bridgeDeed = .settle exitFact := rfl
  have burns : burned.bridgeDeed = .burn (burnInput minted.after bridgedAssetId holder 40
    (Vector.replicate 32 4) 0 0) := rfl
  have injective : Set.InjOn bridgeBurnRef
      {input | .burn input ∈ bridgeLog [minted, burned, settled]} := by
    intro input logged other loggedOther _
    simp only [bridgeLog, List.map_cons, List.map_nil, mints, settles, burns, Set.mem_ofPred_eq,
      List.mem_cons, reduceCtorEq, BridgeDeed.burn.injEq, List.not_mem_nil, or_false, false_or]
      at logged loggedOther
    rw [logged, loggedOther]
  obtain ⟨caps, _, _⟩ := bridge_facts_once unmarked run [] minted _ rfl injective
  obtain ⟨_, resolved, _⟩ := bridge_facts_once unmarked run [minted, burned] settled [] rfl injective
  obtain ⟨_, asset, registered, capped, _⟩ := caps depositFact 0 mints
  obtain ⟨_, ⟨input, logged, named⟩, same⟩ := resolved exitFact (.inl settles)
  exact ⟨minted, burned, settled, run, settles,
    ⟨input, logged, named, same input (List.mem_append_left [settled.bridgeDeed] logged) named⟩,
    asset, registered, capped⟩

end QuantovaChain.Ledger
