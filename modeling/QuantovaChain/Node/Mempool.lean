import QuantovaChain.Node.Block

/-!
# The pool of pending transactions

A node keeps transactions that wait for a block. A transaction is let in if it could be executed on
the ledger as it stands, and if there is room or room can be made. Transactions without a fee have a
pool of their own inside the pool, a quota of admissions, and one of attempts for each kind.

There are two ways in: one transaction at a time, and a batch whose signatures are checked
beforehand.
-/

namespace QuantovaChain.Node

open State (Bytes Hash)
open Idfmt (Text)
open Tx (Wrapper)
open Governance (Id)
open Ledger

section Mempool

variable [Platform] (setting : Setting) (state : Leaves) (wrapper : Wrapper)

/-! ## What is asked of a transaction -/

/-- The verdict on a signature, and the key that it was checked with. -/
structure VerifyHint where
  publicKey : Bytes
  ok : Bool
  deriving DecidableEq, Repr

/-- A hint counts only for the key that the account has. -/
def VerifyHint.applies (hint : VerifyHint) (publicKey : Bytes) : Bool :=
  !publicKey.isEmpty && hint.publicKey == publicKey

def verified (publicKey : Bytes) (hint : Option VerifyHint) : Bool :=
  match hint with
  | some hint => if hint.applies publicKey then hint.ok else Platform.verify wrapper publicKey
  | none => Platform.verify wrapper publicKey

def feelessPayloadKey : Hash :=
  Platform.sha3 (wrapper.body.call.target ++ wrapper.body.call.args)

/-- Evidence is tried in another order than in a block. -/
def evidenceAdmissible : Bool :=
  let args := wrapper.body.call.args
  let context := setting.context []
  let chainId := setting.params.chainId
  let accused (charge : Charge) : Bool :=
    match charge with
    | .single offence accusation =>
      !state.isValidatorBanned accusation.offender &&
        accusationProven state context chainId offence accusation
    | .double evidence =>
      (doubleFinalityProven state context chainId evidence).any fun offenders =>
        offenders.any fun offender => !state.isValidatorBanned offender
  let charge :=
    match decodeSingle [.prevoteEquivocation, .proposalEquivocation, .lockViolation] args with
    | some charge => some charge
    | none =>
      match Platform.decodeDoubleFinality args with
      | some evidence => some (.double evidence)
      | none => decodeSingle [.equivocation] args
  charge.any accused

inductive Admitted
  | fresh
  | known
  deriving DecidableEq, Repr

/-- The kinds of transactions without a fee, each with its own quota of attempts. -/
inductive FeelessKind
  | evidence
  | mint
  | settle
  | guardian
  deriving DecidableEq, Repr

def isPriority : Bool := isGovernance wrapper

structure Mempool where
  pending : List Wrapper
  ids : Finset Text
  bySender : Text → Option Nat
  senderNonces : Text × U64 → Option Nat
  normalCount : Nat
  cap : Nat
  perSender : Nat
  reserve : Nat
  feelessCap : Nat
  feelessAdmits : Nat
  feelessAttemptsCap : Nat
  attempts : FeelessKind → Nat
  mintSources : Finset (U32 × Id)
  feelessCount : Nat
  feelessPoolCap : Nat
  feelessPayloads : Finset Hash
  feelessSeen : Text → Option U64
  height : U64
  ceiling : U128

namespace Mempool

def withLimits (cap perSender reserve : Nat) : Mempool where
  pending := []
  ids := ∅
  bySender _ := none
  senderNonces _ := none
  normalCount := 0
  cap := max cap 1
  perSender := max perSender 1
  reserve := min reserve (cap - 1)
  feelessCap := 128
  feelessAdmits := 0
  feelessAttemptsCap := 512
  attempts _ := 0
  mintSources := ∅
  feelessCount := 0
  feelessPoolCap := 1024
  feelessPayloads := ∅
  feelessSeen _ := none
  height := 0
  ceiling := Word.top 128

def new : Mempool := withLimits 65536 1024 512

/-- The pool at a height and with a ceiling on fees. -/
def refresh (pool : Mempool) : Mempool :=
  { pool with
    ceiling := Word.clamp 128 setting.params.ceilingFee.val
    height := setting.executionHeight }

/-- Counts one more. -/
def raise (count : Option Nat) : Option Nat := some (count.getD 0 + 1)

/-- Counts one less, and forgets a count of nothing. -/
def lower : Option Nat → Option Nat
  | none => none
  | some count => if count - 1 = 0 then none else some (count - 1)

def trackMint (pool : Mempool) : Mempool :=
  if isBridgeMint wrapper then
    match bridgeMintSourceKey wrapper with
    | some key => { pool with mintSources := insert key pool.mintSources }
    | none => pool
  else pool

def track (pool : Mempool) : Mempool :=
  let sender := wrapper.body.sender
  let nonceKey := (sender, wrapper.body.nonce)
  trackMint wrapper <|
    if isFeeless wrapper then
      { pool with
        feelessCount := pool.feelessCount + 1
        feelessPayloads := insert (feelessPayloadKey wrapper) pool.feelessPayloads
        feelessSeen :=
          Function.update pool.feelessSeen (wrapper.id Platform.sha3) (some pool.height) }
    else
      { pool with
        bySender := Function.update pool.bySender sender (raise (pool.bySender sender))
        senderNonces := Function.update pool.senderNonces nonceKey (raise (pool.senderNonces nonceKey))
        normalCount := if isPriority wrapper then pool.normalCount else pool.normalCount + 1 }

def untrackMint (pool : Mempool) : Mempool :=
  if isBridgeMint wrapper then
    match bridgeMintSourceKey wrapper with
    | some key => { pool with mintSources := pool.mintSources.erase key }
    | none => pool
  else pool

def untrack (pool : Mempool) : Mempool :=
  let sender := wrapper.body.sender
  let nonceKey := (sender, wrapper.body.nonce)
  untrackMint wrapper <|
    if isFeeless wrapper then
      { pool with
        feelessCount := pool.feelessCount - 1
        feelessPayloads := pool.feelessPayloads.erase (feelessPayloadKey wrapper)
        feelessSeen := Function.update pool.feelessSeen (wrapper.id Platform.sha3) none }
    else
      { pool with
        bySender := Function.update pool.bySender sender (lower (pool.bySender sender))
        senderNonces := Function.update pool.senderNonces nonceKey (lower (pool.senderNonces nonceKey))
        normalCount := if isPriority wrapper then pool.normalCount else pool.normalCount - 1 }

def hold (pool : Mempool) : Mempool :=
  let pool := pool.track wrapper
  { pool with pending := pool.pending ++ [wrapper] }

def senderCount (sender : Text) (pool : Mempool) : Nat := (pool.bySender sender).getD 0

def removeAt (index : Nat) (pool : Mempool) : Mempool :=
  match pool.pending[index]? with
  | none => pool
  | some wrapper =>
    untrack wrapper
      { pool with
        pending := pool.pending.eraseIdx index
        ids := pool.ids.erase (wrapper.id Platform.sha3) }

def effectiveFee (pool : Mempool) : Nat :=
  min wrapper.body.fee.val pool.ceiling.val

/-- The first of the cheapest of a kind. -/
def lowestFee (kind : Wrapper → Bool) (pool : Mempool) : Option (Nat × Nat) :=
  ((pool.pending.zipIdx.filter fun entry => kind entry.1).argmin fun entry =>
    pool.effectiveFee entry.1).map fun entry => (entry.2, pool.effectiveFee entry.1)

def lowestFeeNormal (pool : Mempool) : Option (Nat × Nat) :=
  pool.lowestFee fun wrapper => !isPriority wrapper && !isFeeless wrapper

def lowestFeePriority (pool : Mempool) : Option (Nat × Nat) := pool.lowestFee isPriority

/-- Whether a sender already has as many transactions as it may have. -/
def queueFull (incoming : Wrapper) (pool : Mempool) : Bool :=
  !isFeeless incoming && decide (pool.perSender ≤ pool.senderCount incoming.body.sender)

/-- Whether there is room for a transaction that has no lane of its own. -/
def normalRoom (pool : Mempool) : Bool :=
  decide (pool.normalCount < pool.cap - pool.reserve) && decide (pool.pending.length < pool.cap)

def chargeFeeless (pool : Mempool) : Bool × Mempool :=
  if pool.feelessCap ≤ pool.feelessAdmits then (false, pool)
  else (true, { pool with feelessAdmits := pool.feelessAdmits + 1 })

/-- Drops the chosen transaction, if there is one. -/
def evict (victim : Option (Nat × Nat)) (pool : Mempool) : Except Reject Unit × Mempool :=
  match victim with
  | some (index, _) => (.ok (), pool.removeAt index)
  | none => (.error .poolFull, pool)

/-- Drops the chosen transaction if the incoming one pays more. -/
def outbid (incoming : Wrapper) (victim : Option (Nat × Nat)) (pool : Mempool) :
    Except Reject Unit × Mempool :=
  pool.evict (victim.filter fun entry => decide (entry.2 < pool.effectiveFee incoming))

def makeRoom (incoming : Wrapper) (pool : Mempool) : Except Reject Unit × Mempool :=
  if pool.queueFull incoming then (.error .senderQueueFull, pool)
  else if isFeeless incoming then
    if pool.feelessPoolCap ≤ pool.feelessCount then (.error .poolFull, pool)
    else if pool.cap ≤ pool.pending.length then
      pool.evict (pool.lowestFeeNormal.or pool.lowestFeePriority)
    else (.ok (), pool)
  else if isPriority incoming then
    if pool.pending.length < pool.cap then (.ok (), pool)
    else match pool.lowestFeeNormal with
      | some victim => pool.evict (some victim)
      | none => pool.outbid incoming pool.lowestFeePriority
  else if pool.normalRoom then (.ok (), pool)
  else pool.outbid incoming pool.lowestFeeNormal

/-! ## One at a time -/

/-- The quota, for a transaction without a fee. -/
def chargeFor (pool : Mempool) : Bool × Mempool :=
  if isFeeless wrapper then pool.chargeFeeless else (true, pool)

/-- The end of an admission: the quota, the room, and the place in the pool. -/
def enter (pool : Mempool) : Except Reject Admitted × Mempool :=
  let charge := pool.chargeFor wrapper
  if !charge.1 then (.error .rateLimited, charge.2)
  else match charge.2.makeRoom wrapper with
    | (.error reject, pool) => (.error reject, pool)
    | (.ok (), pool) =>
      let pool := pool.hold wrapper
      (.ok .fresh, { pool with ids := insert (wrapper.id Platform.sha3) pool.ids })

/-- A list in so many chunks and what is left. -/
def chunks {α : Type} (size : Nat) : Nat → List α → List (List α)
  | 0, rest => [rest]
  | count + 1, rest => rest.take size :: chunks size count (rest.drop size)

end Mempool

end Mempool

end QuantovaChain.Node
