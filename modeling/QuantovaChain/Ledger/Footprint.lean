import QuantovaChain.Ledger.Core

/-!
# Footprints

What a program may write, read off its text. Most results about the ledger concern a few kinds of
leaves, and most operations write none of them. The leaves are divided into regions, one for each
group of leaves that is kept in step by a few operations; a program that is confined to some regions
leaves the others as they were.
-/

namespace QuantovaChain.Ledger

open Idfmt (Text)
open Transaction
open Transaction.State
open Transaction.Program (put delete emit emitSide expect each)

/-- The program writes only some leaves. -/
abbrev Touches {α : Type} (touches : LeafKey → Bool) (program : LedgerM α) : Prop :=
  program.Within touches fun _ => false

/-- Besides some leaves, nothing has changed. -/
def Untouched (touches : LeafKey → Bool) (before after : Ledger) : Prop :=
  ∀ key, touches key = false → after.get key = before.get key

section Touches

variable {α : Type} {touches : LeafKey → Bool} {before middle after ledger : Ledger}

theorem Untouched.trans (first : Untouched touches before middle)
    (second : Untouched touches middle after) : Untouched touches before after :=
  fun key outside => (second key outside).trans (first key outside)

theorem untouched_write (key : LeafKey) (touched : touches key = true) (value : LeafValue key) :
    Untouched touches ledger (ledger.write key value) := by
  intro other outside
  apply get_write_ne
  rintro rfl
  rw [touched] at outside
  cases outside

theorem Touches.untouched {program : LedgerM α} (within : Touches touches program)
    (ledger : Ledger) : Ensures ledger program fun _ after => Untouched touches ledger after :=
  (Program.Within.frame within ledger).mono fun _ _ same key outside => same key outside rfl

/-- A total whose weight is elsewhere stays. -/
theorem Untouched.total_eq (same : Untouched touches before after)
    {weight : (key : LeafKey) → LeafValue key → ℤ}
    (elsewhere : ∀ key, touches key = true → ∀ value, weight key value = 0) :
    after.total weight = before.total weight := by
  refine total_congr fun key => ?_
  by_cases touched : touches key = true
  · rw [weigh_weightless (elsewhere key touched), weigh_weightless (elsewhere key touched)]
  · exact congrArg (weigh weight key) (same key (by simpa using touched))

end Touches

/-! ## Regions -/

/-- The groups of leaves that are kept in step. -/
inductive Region
  | stakes
  | books
  | referenda
  | votes
  | freezes
  | bridgeFacts
  | other
  deriving DecidableEq, Repr

@[reducible] def LeafKey.region : LeafKey → Region
  | .stakeBond _ | .stakeTotal | .stakeTotalActive | .stakeTotalRaised => .stakes
  | .stakeRewards _ | .stakeBanned _ => .books
  | .govNext | .govReferendum _ | .govAction _ => .referenda
  | .govBallot .. | .govLock _ | .govLocked => .votes
  | .govFreeze _ | .govBlacklist _ | .govStoppedAsset _ | .govGuardianFreezeTargets => .freezes
  | .bridgeSeen .. | .bridgeExitSeen _ | .bridgeOutstanding _ | .bridgeEpochmint ..
  | .bridgeEpochpay .. | .bridgeEpochpayGlobal _ => .bridgeFacts
  | _ => .other

/-- A region is among some regions. -/
class Listed (region : Region) (regions : List Region) : Prop where
  contains : regions.contains region = true

/-- The program writes and erases only leaves of some regions. -/
class Confined {α : Type} (regions : List Region) (program : LedgerM α) : Prop where
  within : program.Within (fun key => regions.contains key.region)
    fun key => regions.contains key.region

/-- A region is as it was. -/
def SameIn (region : Region) (before after : Ledger) : Prop :=
  ∀ key, key.region = region → after.get key = before.get key

section Confined

variable {α β : Type} {regions : List Region} {program other : LedgerM α} {next : α → LedgerM β}

theorem SameIn.refl (region : Region) (ledger : Ledger) : SameIn region ledger ledger :=
  fun _ _ => rfl

variable {region : Region}

theorem SameIn.of_get {before after : Ledger} (same : after.get = before.get) :
    SameIn region before after :=
  fun key _ => congrFun same key

theorem SameIn.trans {before middle after : Ledger}
    (first : SameIn region before middle) (second : SameIn region middle after) :
    SameIn region before after :=
  fun key inside => (second key inside).trans (first key inside)

instance {region : Region} {rest : List Region} : Listed region (region :: rest) := ⟨by simp⟩

instance {region first : Region} {rest : List Region} [listed : Listed region rest] :
    Listed region (first :: rest) :=
  ⟨by rw [List.contains_cons, listed.contains, Bool.or_true]⟩

theorem Confined.plain_same [confined : Confined regions program] (ledger : Ledger)
    (outside : region ∉ regions) :
    SameIn region ledger (program.plain ledger).2 := by
  intro key inside
  have unlisted : regions.contains key.region = false := by
    rw [inside]
    simpa using outside
  exact confined.within.get_eq unlisted unlisted ledger

theorem Confined.same [Confined regions program] (ledger : Ledger)
    (outside : region ∉ regions) : Ensures ledger program fun _ after => SameIn region ledger after :=
  fun _ _ => Confined.plain_same ledger outside

theorem Confined.bind (first : Confined regions program)
    (second : ∀ value, Confined regions (next value)) : Confined regions (program >>= next) :=
  ⟨Program.within_bind first.within fun value => (second value).within⟩

instance confined_pure (value : α) : Confined regions (pure value : LedgerM α) := ⟨trivial⟩

instance confined_leaves : Confined regions leaves := ⟨fun _ => trivial⟩

instance confined_put {key : LeafKey} {value : LeafValue key}
    [listed : Listed key.region regions] : Confined regions (put key value) :=
  ⟨listed.contains, trivial⟩

instance confined_delete {key : LeafKey} [listed : Listed key.region regions] :
    Confined regions (delete key) :=
  ⟨listed.contains, fun _ => trivial⟩

instance confined_emit (event : BlockEvent) : Confined regions (emit event) := ⟨trivial⟩

instance confined_emitSide (event : SideEvent) : Confined regions (emitSide event) := ⟨trivial⟩

instance confined_expect (found : Option α) : Confined regions (expect found) :=
  ⟨Program.within_expect found⟩

instance confined_each {action : β → LedgerM Unit} {elements : List β}
    [confined : ∀ element, Confined regions (action element)] :
    Confined regions (each action elements) :=
  ⟨Program.within_each fun element => (confined element).within⟩

end Confined

/-! ## Fees -/

/-- The leaves that a fee moves. -/
def feeTouches : LeafKey → Bool
  | .account _ | .supply => true
  | _ => false

theorem creditAccount_touches (address : Text) (amount : U64) :
    Touches feeTouches (creditAccount address amount) := by
  unfold creditAccount
  split
  · trivial
  · exact fun _ => ⟨rfl, trivial⟩

theorem debitSupply_touches (amount : U64) : Touches feeTouches (debitSupply amount) := by
  unfold debitSupply
  split
  · trivial
  · exact fun _ => ⟨rfl, trivial⟩

theorem collectFee_touches [Platform] (context : Context) (fee : U64) :
    Touches feeTouches (collectFee context fee) := by
  unfold collectFee
  split
  · trivial
  · refine Program.within_bind (creditAccount_touches _ _) fun _ => ?_
    exact Program.within_bind (creditAccount_touches _ _) fun _ => debitSupply_touches _

end QuantovaChain.Ledger
