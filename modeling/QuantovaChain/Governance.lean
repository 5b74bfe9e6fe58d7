import QuantovaChain.Codec

/-!
# Governance rules

Referenda, their tallies and tracks, and the sets of guardians, as plain functions of their records.
-/

namespace QuantovaChain.Governance

open State (Bytes Hash)
open Codec Codec.Reader

/-- An account, validator or contract by its payload. -/
abbrev Id := Hash

abbrev AssetId := Vector UInt8 16

def nativeUnit : Nat := 1000000

def bpsDenom : U128 := 10000

def participationFloorBps : U128 := 2500

def daySeconds : Nat := 86400

def hourSeconds : Nat := 3600

def monthSeconds : Nat := 30 * daySeconds

def yearSeconds : Nat := 365 * daySeconds

def minGovDeposit : Nat := 1000 * nativeUnit

def maxGovDepositBps : Nat := 1000

/-- The least and the greatest deposit governance may set. -/
def govDepositBounds (totalSupply : U64) : U64 × U64 :=
  (Word.clamp 64 minGovDeposit,
    Word.clamp 64 (max (totalSupply.val * maxGovDepositBps / 10000) (minGovDeposit * 2)))

inductive Track
  | chainUpgrade
  | mint
  | bridgeMigration
  | freezeRecovery
  | blacklistKill
  deriving DecidableEq, Repr

namespace Track

def all : List Track := [chainUpgrade, mint, bridgeMigration, freezeRecovery, blacklistKill]

def deposit (track : Track) : U64 :=
  let whole := match track with
    | chainUpgrade => 225000
    | mint => 400000
    | bridgeMigration => 150000
    | freezeRecovery => 29250
    | blacklistKill => 39000
  Word.clamp 64 (whole * nativeUnit)

def periodSeconds : Track → U64
  | chainUpgrade => Word.clamp 64 (14 * daySeconds)
  | mint => Word.clamp 64 (3 * daySeconds)
  | bridgeMigration => Word.clamp 64 (5 * daySeconds)
  | freezeRecovery => Word.clamp 64 (6 * hourSeconds)
  | blacklistKill => Word.clamp 64 (2 * daySeconds)

def code : Track → UInt8
  | chainUpgrade => 1
  | mint => 2
  | bridgeMigration => 3
  | freezeRecovery => 4
  | blacklistKill => 5

def thresholdBps : Track → U128
  | chainUpgrade | mint | bridgeMigration => 6667
  | freezeRecovery | blacklistKill => 7500

def enactmentDelay : Track → U64
  | chainUpgrade | mint | bridgeMigration => Word.clamp 64 (7 * daySeconds)
  | blacklistKill => Word.clamp 64 daySeconds
  | freezeRecovery => Word.clamp 64 hourSeconds

def fromCode (code : UInt8) : Option Track := all.find? fun track => track.code == code

end Track

def bridgeFreezeBond : U64 := Track.blacklistKill.deposit

def bridgeFreezeDuration : U64 := Word.clamp 64 (7 * daySeconds)

def bridgeFreezeCooldown : U64 := Word.clamp 64 daySeconds

def bridgeFreezeRefundGrace : U64 := Word.clamp 64 hourSeconds

inductive Conviction
  | liquid
  | year
  | twoYear
  deriving DecidableEq, Repr

namespace Conviction

def factorX10 : Conviction → Nat
  | liquid => 10
  | year => 15
  | twoYear => 25

def lockSeconds : Conviction → U64
  | liquid => Word.clamp 64 monthSeconds
  | year => Word.clamp 64 yearSeconds
  | twoYear => Word.clamp 64 (2 * yearSeconds)

def code : Conviction → UInt8
  | liquid => 0
  | year => 1
  | twoYear => 2

def fromCode (code : UInt8) : Option Conviction :=
  if code = 0 then some liquid else if code = 1 then some year
  else if code = 2 then some twoYear else none

def weight (conviction : Conviction) (stake : U64) : U128 :=
  Word.clamp 128 (stake.val * conviction.factorX10 / 10)

end Conviction

structure Ballot where
  aye : Bool
  conviction : Conviction
  stake : U64
  deriving DecidableEq, Repr

structure Lock where
  amount : U64
  untilTime : U64
  deriving DecidableEq, Repr

def Lock.withdrawable (lock : Lock) (now : U64) : Bool := lock.untilTime ≤ now

structure Tally where
  ayeStake : U128
  nayStake : U128
  ayeWeight : U128
  nayWeight : U128
  deriving DecidableEq, Repr

namespace Tally

def empty : Tally := ⟨0, 0, 0, 0⟩

def recordWeighted (tally : Tally) (aye : Bool) (stake weight : U128) : Tally :=
  if aye then { tally with
    ayeStake := tally.ayeStake.satAdd stake
    ayeWeight := tally.ayeWeight.satAdd weight }
  else { tally with
    nayStake := tally.nayStake.satAdd stake
    nayWeight := tally.nayWeight.satAdd weight }

def recordConviction (tally : Tally) (aye : Bool) (conviction : Conviction) (stake : U64) : Tally :=
  tally.recordWeighted aye (Word.clamp 128 stake.val) (conviction.weight stake)

def turnout (tally : Tally) : U128 := tally.ayeStake.satAdd tally.nayStake

def approved (tally : Tally) (electorateStake thresholdBps : U128) : Bool :=
  0 < electorateStake &&
    electorateStake.satMul participationFloorBps ≤ tally.turnout.satMul bpsDenom &&
    electorateStake.satMul thresholdBps ≤ tally.ayeStake.satMul bpsDenom &&
    tally.nayStake < tally.ayeStake && tally.nayWeight < tally.ayeWeight

end Tally

structure Seizure where
  source : Bytes
  amount : U64
  deriving DecidableEq, Repr

structure OperatorClaim where
  operatorId : U32
  publicKey : Bytes
  pop : Bytes
  deriving DecidableEq, Repr

structure CommitteeRotation where
  operators : List OperatorClaim
  threshold : U32
  deriving DecidableEq, Repr

structure GuardianSet where
  members : List Id
  threshold : U32
  deriving DecidableEq, Repr

namespace GuardianSet

def empty : GuardianSet := ⟨[], 0⟩

def wellFormed (set : GuardianSet) : Bool :=
  2 ≤ set.threshold.val && set.threshold.val ≤ set.members.length &&
    set.members.length < set.threshold.val * 2

def isMember (set : GuardianSet) (id : Id) : Bool := set.members.contains id

/-- The distinct members among the approvers, in order. -/
def distinctMembers (set : GuardianSet) (approvers : List Id) : List Id :=
  approvers.foldl (fun seen approver =>
    if set.isMember approver && !seen.contains approver then seen ++ [approver] else seen) []

def authorizes (set : GuardianSet) (approvers : List Id) : Bool :=
  set.wellFormed && set.threshold.val ≤ (set.distinctMembers approvers).length % 2 ^ 32

end GuardianSet

inductive Action
  | activate (feature : Bytes) (version : U64)
  | mint (recipient : Bytes) (amount : U64)
  | bridgeMigration (vault : Bytes)
  | bridgeUnfreeze
  | guardianRotate (set : GuardianSet)
  | committeeRotate (rotation : CommitteeRotation)
  | assetRegister (assetId : AssetId) (cap epochCap : U128) (requiresStark : Bool)
  | bridgeAnchorSet (corridor : UInt8) (anchor : Bytes)
  | epochAdvance
  | operatorRevoke (operatorId : U32)
  | freezeRecovery (scope : Hash) (victim : Bytes) (seizures : List Seizure)
  | freeze (targets : List Bytes)
  | blacklist (target : Bytes)
  | parameter (key value : Bytes)
  | spend (source recipient : Bytes) (amount : U64)
  | unfreeze (targets : List Bytes)
  deriving DecidableEq, Repr

def Action.track : Action → Track
  | activate .. => .chainUpgrade
  | mint .. => .mint
  | bridgeMigration .. => .bridgeMigration
  | bridgeUnfreeze => .blacklistKill
  | guardianRotate .. => .chainUpgrade
  | committeeRotate .. => .bridgeMigration
  | assetRegister .. => .bridgeMigration
  | bridgeAnchorSet .. => .bridgeMigration
  | epochAdvance => .bridgeMigration
  | operatorRevoke .. => .bridgeMigration
  | freezeRecovery .. => .freezeRecovery
  | blacklist .. => .blacklistKill
  | freeze .. => .blacklistKill
  | parameter .. => .chainUpgrade
  | spend .. => .mint
  | unfreeze .. => .blacklistKill

def Seizure.encode (seizure : Seizure) : Bytes := putBytes seizure.source ++ putU64 seizure.amount

def Seizure.decode : Reader Seizure := do
  let source ← bytes
  let amount ← u64
  return { source, amount }

def OperatorClaim.encode (claim : OperatorClaim) : Bytes :=
  putU32 claim.operatorId ++ putBytes claim.publicKey ++ putBytes claim.pop

def OperatorClaim.decode : Reader OperatorClaim := do
  let operatorId ← u32
  let publicKey ← bytes
  let pop ← bytes
  return { operatorId, publicKey, pop }

def CommitteeRotation.encode (rotation : CommitteeRotation) : Bytes :=
  putList OperatorClaim.encode rotation.operators ++ putU32 rotation.threshold

def CommitteeRotation.decode : Reader CommitteeRotation := do
  let operators ← list OperatorClaim.decode
  let threshold ← u32
  return { operators, threshold }

def GuardianSet.encode (set : GuardianSet) : Bytes :=
  putList (fun member => putBytes member.toList) set.members ++ putU32 set.threshold

def GuardianSet.decode : Reader GuardianSet := do
  let members ← list (sizedArray 32)
  let threshold ← u32
  return { members, threshold }

namespace Action

def encode : Action → Bytes
  | activate feature version => putU8 1 ++ putBytes feature ++ putU64 version
  | mint recipient amount => putU8 2 ++ putBytes recipient ++ putU64 amount
  | bridgeMigration vault => putU8 3 ++ putBytes vault
  | bridgeUnfreeze => putU8 11
  | guardianRotate set => putU8 12 ++ set.encode
  | committeeRotate rotation => putU8 13 ++ rotation.encode
  | assetRegister assetId cap epochCap requiresStark =>
    putU8 14 ++ putBytes assetId.toList ++ putU128 cap ++ putU128 epochCap ++
      putU8 (if requiresStark then 1 else 0)
  | bridgeAnchorSet corridor anchor => putU8 17 ++ putU8 corridor ++ putBytes anchor
  | epochAdvance => putU8 15
  | operatorRevoke operatorId => putU8 16 ++ putU32 operatorId
  | freezeRecovery scope victim seizures =>
    putU8 4 ++ putBytes scope.toList ++ putBytes victim ++ putList Seizure.encode seizures
  | freeze targets => putU8 5 ++ putList putBytes targets
  | blacklist target => putU8 6 ++ putBytes target
  | parameter key value => putU8 8 ++ putBytes key ++ putBytes value
  | spend source recipient amount =>
    putU8 9 ++ putBytes source ++ putBytes recipient ++ putU64 amount
  | unfreeze targets => putU8 10 ++ putList putBytes targets

def decode : Reader Action := do
  match (← u8) with
  | 1 => return activate (← bytes) (← u64)
  | 2 => return mint (← bytes) (← u64)
  | 3 => return bridgeMigration (← bytes)
  | 11 => return bridgeUnfreeze
  | 12 => return guardianRotate (← GuardianSet.decode)
  | 13 => return committeeRotate (← CommitteeRotation.decode)
  | 14 =>
    let assetId ← sizedArray 16
    let cap ← u128
    let epochCap ← u128
    let requiresStark ← u8
    return assetRegister assetId cap epochCap (requiresStark != 0)
  | 15 => return epochAdvance
  | 16 => return operatorRevoke (← u32)
  | 17 => return bridgeAnchorSet (← u8) (← bytes)
  | 4 => return freezeRecovery (← sizedArray 32) (← bytes) (← list Seizure.decode)
  | 5 => return freeze (← list bytes)
  | 6 => return blacklist (← bytes)
  | 8 => return parameter (← bytes) (← bytes)
  | 9 => return spend (← bytes) (← bytes) (← u64)
  | 10 => return unfreeze (← list bytes)
  | _ => failure

/-- What the scope of a recovery is the hash of. -/
def recoveryScopePreimage (chainId : U64) (victim : Bytes) (seizures : List Seizure) : Bytes :=
  putU64 chainId ++ putBytes victim ++ putList Seizure.encode seizures

/-- The name of the kind of an action. -/
def kind : Action → String
  | activate .. => "activate"
  | mint .. => "mint"
  | bridgeMigration .. => "bridge_migration"
  | bridgeUnfreeze => "bridge_unfreeze"
  | guardianRotate .. => "guardian_rotate"
  | committeeRotate .. => "committee_rotate"
  | assetRegister .. => "asset_register"
  | bridgeAnchorSet .. => "bridge_anchor_set"
  | epochAdvance => "epoch_advance"
  | operatorRevoke .. => "operator_revoke"
  | freezeRecovery .. => "freeze_recovery"
  | blacklist .. => "blacklist"
  | freeze .. => "freeze"
  | parameter .. => "parameter"
  | spend .. => "spend"
  | unfreeze .. => "unfreeze"

def isEnactable : Action → Bool
  | activate feature _ => !feature.isEmpty
  | bridgeAnchorSet .. => false
  | _ => true

end Action

structure BridgeFreeze where
  who : Id
  bond : U64
  untilTime : U64
  deriving DecidableEq, Repr

inductive Violation
  | wrongTrack
  | recoveryOutOfScope
  | recoveryTouchesProtected
  | freezeTouchesProtected
  | blacklistTouchesProtected
  deriving DecidableEq, Repr

/-- Whether an action keeps to its track and leaves protected accounts alone. -/
def checkEnactment (track : Track) (action : Action) (scopeOk : Bool)
    (isProtected : Bytes → Bool) : Except Violation Unit :=
  if action.track ≠ track then .error .wrongTrack
  else
    match action with
    | .freezeRecovery _ _ seizures =>
      if !scopeOk then .error .recoveryOutOfScope
      else if seizures.any fun seizure => isProtected seizure.source then
        .error .recoveryTouchesProtected
      else .ok ()
    | .freeze targets =>
      if targets.any isProtected then .error .freezeTouchesProtected else .ok ()
    | .blacklist target =>
      if isProtected target then .error .blacklistTouchesProtected else .ok ()
    | _ => .ok ()

def enactmentWindow : U64 := Word.clamp 64 (30 * daySeconds)

inductive Status
  | deciding
  | approved
  | rejected
  deriving DecidableEq, Repr

/-- The name of a status. -/
def Status.kind : Status → String
  | deciding => "deciding"
  | approved => "approved"
  | rejected => "rejected"

structure Referendum where
  id : U64
  track : Track
  proposer : Bytes
  deposit : U64
  submittedAt : U64
  tally : Tally
  status : Status
  killed : Bool
  deriving DecidableEq, Repr

namespace Referendum

/-- A referendum as it is submitted. -/
def openReferendum (id : U64) (track : Track) (proposer : Bytes) (submittedAt deposit : U64) :
    Referendum :=
  { id, track, proposer, deposit, submittedAt, tally := .empty, status := .deciding, killed := false }

variable (referendum : Referendum)

def decidesAt : U64 := referendum.submittedAt.satAdd referendum.track.periodSeconds

def ready (now : U64) : Bool := referendum.decidesAt ≤ now

def enactmentOpens : U64 := referendum.decidesAt.satAdd referendum.track.enactmentDelay

def enactmentExpired (now : U64) : Bool :=
  referendum.enactmentOpens.satAdd enactmentWindow ≤ now

def enactable (now : U64) : Bool :=
  referendum.enactmentOpens ≤ now && !referendum.enactmentExpired now

/-- Decides the referendum once its time has come. -/
def resolve (now : U64) (electorateStake : U128) : Status × Referendum :=
  if referendum.status ≠ .deciding then (referendum.status, referendum)
  else if referendum.killed then (.rejected, { referendum with status := .rejected })
  else if !referendum.ready now then (.deciding, referendum)
  else
    let status := if referendum.tally.approved electorateStake referendum.track.thresholdBps
      then Status.approved else .rejected
    (status, { referendum with status })

def depositRefunded (electorateStake : U128) : Bool :=
  !referendum.killed && referendum.tally.approved electorateStake referendum.track.thresholdBps

/-- Resolving changes the status alone, and reports the status it leaves. -/
theorem resolve_eq (now : U64) (electorateStake : U128) :
    (referendum.resolve now electorateStake).2 =
      { referendum with status := (referendum.resolve now electorateStake).1 } := by
  unfold resolve
  split
  · rfl
  · split
    · rfl
    · split
      next deciding _ _ =>
        rw [ne_eq, not_not] at deciding
        rw [← deciding]
      next => rfl

end Referendum

structure EnactmentReceipt where
  referendum : U64
  proposalHash : Hash
  scope : Hash
  tally : Tally
  enactedAt : U64
  deriving DecidableEq, Repr

/-! ## Records as they are stored -/

/-- A flag as a byte. -/
def putFlag (flag : Bool) : Bytes := putU8 (if flag then 1 else 0)

def Tally.encode (tally : Tally) : Bytes :=
  putU128 tally.ayeStake ++ putU128 tally.nayStake ++ putU128 tally.ayeWeight ++
    putU128 tally.nayWeight

def Tally.decode : Reader Tally := do
  let ayeStake ← u128
  let nayStake ← u128
  let ayeWeight ← u128
  let nayWeight ← u128
  return { ayeStake, nayStake, ayeWeight, nayWeight }

/-- A tally from before weights were counted. -/
def legacyTally : Reader Tally := do
  let ayeStake ← u128
  let nayStake ← u128
  return { ayeStake, nayStake, ayeWeight := ayeStake, nayWeight := nayStake }

def Status.code : Status → UInt8
  | deciding => 0
  | approved => 1
  | rejected => 2

def Status.fromCode (code : UInt8) : Option Status :=
  if code = 0 then some deciding else if code = 1 then some approved
  else if code = 2 then some rejected else none

namespace Referendum

/-- What is stored of a referendum, around the tally. -/
def encodeWith (putTally : Tally → Bytes) (referendum : Referendum) : Bytes :=
  putU64 referendum.id ++ putU8 referendum.track.code ++ putBytes referendum.proposer ++
    putU64 referendum.deposit ++ putU64 referendum.submittedAt ++ putTally referendum.tally ++
    putU8 referendum.status.code ++ putFlag referendum.killed

def encode : Referendum → Bytes := encodeWith Tally.encode

/-- A referendum by the way its tally is read. -/
def decodeWith (readTally : Reader Tally) : Reader Referendum := do
  let id ← u64
  let track ← Track.fromCode (← u8)
  let proposer ← bytes
  let deposit ← u64
  let submittedAt ← u64
  let tally ← readTally
  let status ← Status.fromCode (← u8)
  let killed ← u8
  return { id, track, proposer, deposit, submittedAt, tally, status, killed := killed != 0 }

def decode : Reader Referendum := decodeWith Tally.decode

end Referendum

def referendumFromStored (bytes : Bytes) : Option Referendum :=
  match whole Referendum.decode bytes with
  | some referendum => some referendum
  | none => whole (Referendum.decodeWith legacyTally) bytes

namespace EnactmentReceipt

/-- What is stored of a receipt, around the tally. -/
def encodeWith (putTally : Tally → Bytes) (receipt : EnactmentReceipt) : Bytes :=
  putU64 receipt.referendum ++ putBytes receipt.proposalHash.toList ++
    putBytes receipt.scope.toList ++ putTally receipt.tally ++ putU64 receipt.enactedAt

def encode : EnactmentReceipt → Bytes := encodeWith Tally.encode

/-- A receipt by the way its tally is read. -/
def decodeWith (readTally : Reader Tally) : Reader EnactmentReceipt := do
  let referendum ← u64
  let proposalHash ← sizedArray 32
  let scope ← sizedArray 32
  let tally ← readTally
  let enactedAt ← u64
  return { referendum, proposalHash, scope, tally, enactedAt }

def decode : Reader EnactmentReceipt := decodeWith Tally.decode

end EnactmentReceipt

def receiptFromStored (bytes : Bytes) : Option EnactmentReceipt :=
  match whole EnactmentReceipt.decode bytes with
  | some receipt => some receipt
  | none => whole (EnactmentReceipt.decodeWith legacyTally) bytes

end QuantovaChain.Governance
