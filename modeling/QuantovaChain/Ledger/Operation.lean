import QuantovaChain.Ledger.Confined

/-!
# Runs of the ledger

The operations on the ledger that write stakes, books of rewards, referenda, votes, freezes or bridge
facts, with one more kind for everything that writes none of these. The end of a block is an
operation too, which returns what it has paid to each validator. A transition is one operation that
ran to its end; an operation that panicked or was rolled back with its transaction left the ledger
as it was, and is no transition. A run is a chain of transitions, and what every transition keeps
holds along every run.
-/

namespace QuantovaChain.Ledger

open Idfmt (Text)
open Governance
open Staking (Fault)
open Bridge (Fact ExitFact)

/-- The block that an operation is part of, and its time. -/
structure Moment where
  context : Context
  now : U64

/-- A moment in the fourth epoch. -/
def momentAt (now : U64) : Moment := ⟨⟨none, 30, 10, []⟩, now⟩

/-- Someone. -/
def holder : Id := Vector.replicate 32 7

def Moment.day (moment : Moment) : U64 := moment.now.div 86400

/-- The operations, by the type of what they return. -/
inductive Operation : Type → Type 1
  | seedValidatorBondAt (address : Text) (amount bondedAtDay : U64) : Operation Unit
  | bond (address : Text) (amount : U64) : Operation Bool
  | bondWithFee (address : Text) (amount fee : U64) : Operation Bool
  | requestStakeExit (address : Text) : Operation Bool
  | requestExitWithFee (address : Text) (fee : U64) : Operation Bool
  | withdrawStake (address : Text) : Operation Bool
  | withdrawWithFee (address : Text) (fee : U64) : Operation Bool
  | slashValidator (address : Text) : Operation Bool
  | slashStake (address : Text) (fault : Fault) : Operation U64
  | claimReward (address : Text) : Operation U64
  | claimWithFee (address : Text) (fee : U64) : Operation Bool
  | settleSession (transactions : U64) : Operation (List (Id × U64))
  | govPropose (proposer : Text) (track : Track) (action : Action) : Operation (Option U64)
  | govVote (voter : Text) (referendumId : U64) (aye : Bool) (conviction : Conviction)
      (stake : U64) : Operation Bool
  | govConclude (referendumId : U64) : Operation (Option Status)
  | govEnact (referendumId chainId : U64) : Operation Enactment
  | govRelease (voter : Text) : Operation U64
  | guardianFreeze (bound : U64) (targets approvers : List Id) : Operation Bool
  | guardianExpire : Operation Unit
  | bridgeMint (fact : Fact) : Operation Bool
  | bridgeBurn (assetId : AssetId) (holder : Id) (amount : U128) (destination : Id)
      (chainId senderNonce : U64) : Operation Bool
  | bridgeSettle (fact : ExitFact) : Operation Bool
  | bridgeSlash (fact : ExitFact) : Operation Bool
  | elsewhere {α : Type} (program : LedgerM α) (confined : Confined [.other] program) : Operation α

namespace Operation

variable {α : Type}

/-- What an operation may write. -/
def regions : Operation α → List Region
  | seedValidatorBondAt .. | bond .. | bondWithFee .. | requestStakeExit _ | requestExitWithFee ..
  | withdrawStake _ | withdrawWithFee .. => [.other, .stakes]
  | slashValidator _ | slashStake .. => [.other, .stakes, .books]
  | claimReward _ | claimWithFee .. | settleSession _ => [.other, .books]
  | govPropose .. | govConclude _ => [.other, .referenda]
  | govVote .. => [.other, .referenda, .votes]
  | govEnact .. => [.other, .stakes, .referenda, .votes, .freezes]
  | govRelease _ => [.other, .votes]
  | guardianFreeze .. | guardianExpire => [.other, .freezes]
  | bridgeMint _ | bridgeBurn .. | bridgeSettle _ | bridgeSlash _ => [.other, .bridgeFacts]
  | elsewhere .. => [.other]

variable [Platform]

def program (moment : Moment) : Operation α → LedgerM α
  | seedValidatorBondAt address amount bondedAtDay =>
    Ledger.seedValidatorBondAt moment.context address amount bondedAtDay
  | bond address amount => Ledger.bond moment.context address amount moment.day
  | bondWithFee address amount fee =>
    Ledger.bondWithFee moment.context address amount fee moment.day
  | requestStakeExit address => Ledger.requestStakeExit moment.context address moment.day
  | requestExitWithFee address fee =>
    Ledger.requestExitWithFee moment.context address fee moment.day
  | withdrawStake address => Ledger.withdrawStake address moment.day
  | withdrawWithFee address fee => Ledger.withdrawWithFee moment.context address fee moment.day
  | slashValidator address => Ledger.slashValidator address
  | slashStake address fault => Ledger.slashStake address fault
  | claimReward address => Ledger.claimReward address moment.day
  | claimWithFee address fee => Ledger.claimWithFee moment.context address fee moment.day
  | settleSession transactions => settlePayments moment.context moment.day transactions
  | govPropose proposer track action =>
    Ledger.govPropose moment.context proposer track action moment.now
  | govVote voter referendumId aye conviction stake =>
    Ledger.govVote moment.context voter referendumId aye conviction stake moment.now
  | govConclude referendumId => Ledger.govConclude moment.context referendumId moment.now
  | govEnact referendumId chainId =>
    Ledger.govEnact moment.context referendumId moment.now chainId
  | govRelease voter => Ledger.govRelease voter moment.now
  | guardianFreeze bound targets approvers =>
    Ledger.guardianFreeze bound targets approvers moment.now
  | guardianExpire => Ledger.guardianExpire moment.now
  | bridgeMint fact => Ledger.bridgeMint moment.context fact
  | bridgeBurn assetId holder amount destination chainId senderNonce =>
    Ledger.bridgeBurn assetId holder amount destination chainId senderNonce
  | bridgeSettle fact => Ledger.bridgeSettle fact
  | bridgeSlash fact => Ledger.bridgeSlash fact
  | elsewhere program _ => program

theorem confined (operation : Operation α) (moment : Moment) :
    Confined operation.regions (operation.program moment) := by
  cases operation
  case elsewhere program confined => exact confined
  all_goals
    dsimp only [regions, program, Ledger.seedValidatorBondAt, Ledger.bond, Ledger.bondWithFee,
      Ledger.requestExitWithFee, Ledger.withdrawWithFee, Ledger.slashValidator, burnBond,
      Ledger.slashStake, Ledger.claimWithFee, settlePayments, Ledger.govVote, Ledger.govEnact,
      Ledger.guardianFreeze, Ledger.guardianExpire, Ledger.bridgeMint, Ledger.bridgeBurn,
      Ledger.bridgeSettle, Ledger.bridgeSlash]
    repeat' first
      | infer_instance | dsimp only | split | refine .bind ?_ fun _ => ?_
      | exact confined_put | exact confined_emit _ | refine @confined_each _ _ _ _ fun _ => ?_

end Operation

/-! ## Transitions and runs -/

variable [Platform]

/-- An operation that ran to its end. -/
structure Transition where
  moment : Moment
  {Result : Type}
  operation : Operation Result
  result : Result
  before : Ledger
  after : Ledger
  ran : (operation.program moment).plain before = (some result, after)

/-- The transition of an operation that ends with a result. -/
def Transition.take {Result : Type} (moment : Moment) (operation : Operation Result)
    (before : Ledger) (result : Result)
    (ended : ((operation.program moment).plain before).1 = some result) : Transition :=
  ⟨moment, operation, result, before, _, Prod.ext ended rfl⟩

theorem Transition.take_before {Result : Type} (moment : Moment) (operation : Operation Result)
    (before : Ledger) (result : Result)
    (ended : ((operation.program moment).plain before).1 = some result) :
    (Transition.take moment operation before result ended).before = before := rfl

/-- What the operation does not write is as before. -/
theorem Transition.same (next : Transition) {region : Region}
    (outside : region ∉ next.operation.regions) : SameIn region next.before next.after :=
  ((next.operation.confined next.moment).same next.before outside).ended next.ran

/-- A chain of transitions from one ledger to another. Between them the events of a block are taken
and its counters start again, which leaves the leaves as they are. -/
inductive Run (start : Ledger) : List Transition → Ledger → Prop
  | nil : Run start [] start
  | step {trace : List Transition} {ledger : Ledger} (earlier : Run start trace ledger)
      (next : Transition) (continues : next.before = ledger) :
      Run start (trace ++ [next]) next.after
  | drain {trace : List Transition} {ledger : Ledger} (earlier : Run start trace ledger)
      (drained : Ledger) (same : drained.get = ledger.get) : Run start trace drained

namespace Run

variable {start middle finish : Ledger} {trace first second : List Transition}

/-- The last transition of a run leads to the leaves at its end. -/
theorem last {next : Transition} (run : Run start (trace ++ [next]) finish) :
    Run start trace next.before ∧ finish.get = next.after.get := by
  generalize whole : trace ++ [next] = all at run
  induction run with
  | nil => simp at whole
  | step earlier final continues _ =>
    obtain ⟨rfl, sameLast⟩ := List.append_inj' whole rfl
    obtain rfl := List.singleton_injective sameLast
    exact ⟨continues ▸ earlier, rfl⟩
  | drain earlier drained same hypothesis =>
    exact ⟨(hypothesis whole).1, same.trans (hypothesis whole).2⟩

/-- A run is cut wherever its trace is cut. -/
theorem split (run : Run start (first ++ second) finish) :
    ∃ middle, Run start first middle ∧ Run middle second finish := by
  induction second using List.reverseRecOn generalizing finish with
  | nil =>
    rw [List.append_nil] at run
    exact ⟨finish, run, .nil⟩
  | append_singleton second next hypothesis =>
    rw [← List.append_assoc] at run
    obtain ⟨earlier, same⟩ := run.last
    obtain ⟨middle, before, between⟩ := hypothesis earlier
    exact ⟨middle, before, .drain (.step between next rfl) finish same⟩

/-- What holds at first, depends on the leaves and is kept by every transition holds at the end. -/
theorem invariant (holds : List Transition → Ledger → Prop) (initially : holds [] start)
    (keeps : ∀ trace next, holds trace next.before → holds (trace ++ [next]) next.after)
    (drains : ∀ trace ledger drained, drained.get = ledger.get → holds trace ledger →
      holds trace drained)
    (run : Run start trace finish) : holds trace finish := by
  induction run with
  | nil => exact initially
  | step earlier next continues hypothesis =>
    subst continues
    exact keeps _ next hypothesis
  | drain earlier drained same hypothesis => exact drains _ _ drained same hypothesis

end Run

end QuantovaChain.Ledger
