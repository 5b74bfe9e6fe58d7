import QuantovaChain.Ledger.Leaf

/-!
# Accounts, supply and stake totals

The parts of the ledger that every lane uses: accounts by address, the native supply, the running
total of the stake, and the split of a fee into a burn, the proposer's share and the grants.
-/

namespace QuantovaChain.Ledger

open State (Bytes Hash)
open Idfmt (Text ascii)
open Governance Staking
open Codec
open Transaction.Program (put emit expect)

/-- The payload of an address that parses. -/
def addressId (address : Text) : Option Id :=
  match Idfmt.parseAddress address with
  | .ok payload => if sized : payload.length = 32 then some ⟨payload.toArray, sized⟩ else none
  | .error _ => none

/-- The address that names a payload. -/
def addressOf (id : Id) : Text := Idfmt.render Idfmt.hrpAddress id.toList

theorem addressId_addressOf (id : Id) : addressId (addressOf id) = some id := by
  have parsed := Idfmt.parseAddress_render id.length_toList
  simp only [addressId, addressOf, parsed, Vector.length_toList, dif_pos]
  exact congrArg some (Vector.toArray_inj.mp Array.toArray_toList)

/-- Bytes that are an identifier. -/
def idFromSlice (bytes : Bytes) : Option Id :=
  if sized : bytes.length = 32 then some ⟨bytes.toArray, sized⟩ else none

def idBytesToAddress (bytes : Bytes) : Option Text := (idFromSlice bytes).map addressOf

/-- An account by address: the spelling of an address that parses does not matter. -/
def accountRef (address : Text) : AccountRef :=
  match addressId address with
  | some id => .parsed id
  | none => .unparsed address

theorem accountRef_addressOf (id : Id) : accountRef (addressOf id) = .parsed id := by
  rw [accountRef, addressId_addressOf]

section Addresses

variable [Platform]

/-- The address of a part of the chain itself. -/
def systemAddress (tag : String) : Text := addressOf (Platform.sha3 (ascii tag))

def evidenceAddress : Text := systemAddress "qtv/evidence"

def registrationAddress : Text := systemAddress "qtv/registration"

def stakeSystemAddress : Text := systemAddress "qtv/stake/system"

def stakeClaimAddress : Text := systemAddress "qtv/stake/claim"

def stakeExitAddress : Text := systemAddress "qtv/stake/exit"

def stakePayeeAddress : Text := systemAddress "qtv/stake/payee"

def stakeWithdrawAddress : Text := systemAddress "qtv/stake/withdraw"

def grantsAddress : Text := systemAddress "qtv/gov/grants"

def govSystemAddress : Text := systemAddress "qtv/gov/system"

def keyRegisterAddress : Text := systemAddress "qtv/key/register"

def bridgeFreezeAddress : Text := systemAddress "qtv/bridge/freeze/system"

def bridgeUnfreezeAddress : Text := systemAddress "qtv/bridge/unfreeze/system"

def bridgeBondAddress : Text := systemAddress "qtv/bridge/bond"

def bridgeGuardianAddress : Text := systemAddress "qtv/bridge/guardian/system"

def bridgeMintAddress : Text := systemAddress "qtv/bridge/mint/system"

def bridgeExitAddress : Text := systemAddress "qtv/bridge/exit/system"

def bridgeSettleAddress : Text := systemAddress "qtv/bridge/settle/system"

def vmDeployAddress : Text := systemAddress "qtv/vm/deploy"

/-- The accounts that belong to the chain itself. -/
def reservedPots : List String :=
  ["qtv/gov/grants", "qtv/stake/treasury", "qtv/stake/pool", "qtv/stake/system", "qtv/gov/system",
    "qtv/bridge/bond", "qtv/ecosystem/marketing", "qtv/ecosystem/market-maker",
    "qtv/ecosystem/foundation"]

def isReservedPot (id : Id) : Bool := reservedPots.any fun tag => Platform.sha3 (ascii tag) == id

/-- The address of a key, by its scheme. -/
def addressForKey (scheme : UInt8) (publicKey : Bytes) : Text :=
  addressOf (Platform.sha3 (scheme :: publicKey))

/-- The address of the contract that an account deploys with a nonce. -/
def contractAddress (deployer : Text) (nonce : U64) : Option Text :=
  (addressId deployer).map fun id =>
    addressOf (Platform.sha3 (ascii "qtv/vm/contract/" ++ id.toList ++ putU64 nonce))

/-- The asset that an issuer mints. -/
def assetIdOf (issuer : Id) : AssetId :=
  let digest := Platform.sha3 (ascii "qtv/asset/id/v1" ++ issuer.toList)
  Vector.ofFn fun index => digest.get ⟨index.val, by omega⟩

end Addresses

/-! ## Readers -/

namespace Leaves

variable (state : Leaves)

def account (address : Text) : Account := (state (.account (accountRef address))).getD default

def balance (address : Text) : U64 := (state.account address).balance

def nonce (address : Text) : U64 := (state.account address).nonce

def stakeBond (id : Id) : Option Bond := (state (.stakeBond id)).join

def stakePool : U64 := (state .stakePool).getD 0

def stakeTreasury : U64 := (state .stakeTreasury).getD 0

def totalStaked : U64 := (state .stakeTotal).getD 0

def totalStakedActive : U64 := (state .stakeTotalActive).getD 0

def totalStakedRaisedAt : U64 := (state .stakeTotalRaised).getD 0

def totalSupply : U64 := (state .supply).getD 0

def isStakeBanned (id : Id) : Bool := (state (.stakeBanned id)).isSome

def isValidatorBanned (address : Text) : Bool := (addressId address).any state.isStakeBanned

def validatorAttestKey (address : Text) : Option Bytes := do
  let id ← addressId address
  let key ← state (.stakeAttest id)
  if key.isEmpty then none else some key

def isGovBlacklisted (id : Id) : Bool := (state (.govBlacklist id)).isSome

def isBlacklisted (address : Text) : Bool := (addressId address).any state.isGovBlacklisted

def isFrozenId (id : Id) : Bool := (state (.govFreeze id)).getD false

def isFrozen (address : Text) : Bool := (addressId address).any state.isFrozenId

def chainGenesisHash : Hash := (state .chainGenesisHash).getD (Vector.replicate 32 0)

def validatorIds : List Id := (state .stakeValidators).getD []

/-- What is at stake under an address, in whole native units, as the rules of an epoch count it. -/
def governanceStakeInEpoch (context : Context) (address : Text) (epoch : U64) : U64 :=
  match addressId address with
  | none => 0
  | some id =>
    if state.isStakeBanned id || state.isGovBlacklisted id then 0
    else match state.stakeBond id with
      | some bond =>
        (bond.amountInEpoch epoch context.heightsPerEpoch).div (Word.clamp 64 Staking.nativeUnit)
      | none => 0

/-- The stake that was there before this epoch. -/
def maturedTotalStaked (context : Context) : U64 :=
  if context.heightsPerEpoch = 0 then state.totalStaked
  else if state.totalStakedRaisedAt.div context.heightsPerEpoch < context.currentEpoch then
    state.totalStaked
  else min state.totalStakedActive state.totalStaked

end Leaves

/-! ## Events -/

def nativeEventSource : Text := ascii "qtv/native"

/-- An event kind by its four letters. -/
def letters (kind : String) : Selector := Vector.ofFn fun index => (ascii kind).getD index.val 0

def eventTransfer : Selector := letters "QXFR"

def eventBond : Selector := letters "QBND"

def eventUnbond : Selector := letters "QUBD"

def eventSlash : Selector := letters "QSLH"

def eventMint : Selector := letters "QMNT"

def eventReward : Selector := letters "QRWD"

def eventBridgeMint : Selector := letters "QBMT"

def eventBridgeBurn : Selector := letters "QBBN"

def eventBridgeSettle : Selector := letters "QBSE"

def eventBridgeSlash : Selector := letters "QBSL"

def slashDispositionBurn : Text := ascii "burn"

def slashDispositionTreasury : Text := ascii "treasury"

def recordNativeEvent (kind : Selector) (data : Bytes) : LedgerM Unit :=
  emit ⟨nativeEventSource, kind, data, []⟩

def recordTransferEvent (source recipient : Text) (amount fee : U64) : LedgerM Unit :=
  recordNativeEvent eventTransfer
    (putBytes source ++ putBytes recipient ++ putU64 amount ++ putU64 fee)

def recordBondEvent (address : Text) (amount fee : U64) : LedgerM Unit :=
  recordNativeEvent eventBond (putBytes address ++ putU64 amount ++ putU64 fee)

/-- An event that names an address and an amount. -/
def recordAmountEvent (kind : Selector) (address : Text) (amount : U64) : LedgerM Unit :=
  recordNativeEvent kind (putBytes address ++ putU64 amount)

def recordUnbondEvent : Text → U64 → LedgerM Unit := recordAmountEvent eventUnbond

def recordSlashEvent : Text → U64 → LedgerM Unit := recordAmountEvent eventSlash

def recordMintEvent : Text → U64 → LedgerM Unit := recordAmountEvent eventMint

def recordRewardEvent : Text → U64 → LedgerM Unit := recordAmountEvent eventReward

/-! ## Writers -/

def setAccount (address : Text) (account : Account) : LedgerM Unit :=
  put (.account (accountRef address)) account

def setStakeBond (id : Id) (bond : Bond) : LedgerM Unit := put (.stakeBond id) (some bond)

def clearStakeBond (id : Id) : LedgerM Unit := put (.stakeBond id) none

def setStakePool (amount : U64) : LedgerM Unit := put .stakePool amount

def setStakeTreasury (amount : U64) : LedgerM Unit := put .stakeTreasury amount

def setTotalStaked (amount : U64) : LedgerM Unit := put .stakeTotal amount

def setTotalStakedActive (amount : U64) : LedgerM Unit := put .stakeTotalActive amount

def setTotalStakedRaisedAt (height : U64) : LedgerM Unit := put .stakeTotalRaised height

def setTotalSupply (amount : U64) : LedgerM Unit := put .supply amount

def setStakeBanned (id : Id) : LedgerM Unit := put (.stakeBanned id) ()

def creditStaked (context : Context) (amount : U64) : LedgerM Unit := do
  if amount = 0 then return
  let state ← leaves
  setTotalStakedActive (state.maturedTotalStaked context)
  setTotalStakedRaisedAt context.executionHeight
  setTotalStaked (state.totalStaked.satAdd amount)

def debitStaked (amount : U64) : LedgerM Unit := do
  if amount = 0 then return
  let state ← leaves
  let next := state.totalStaked.satSub amount
  setTotalStakedActive (min state.totalStakedActive next)
  setTotalStaked next

def creditSupply (amount : U64) : LedgerM Unit := do
  if amount = 0 then return
  let state ← leaves
  setTotalSupply (state.totalSupply.satAdd amount)

def debitSupply (amount : U64) : LedgerM Unit := do
  if amount = 0 then return
  let state ← leaves
  setTotalSupply (state.totalSupply.satSub amount)

def creditAccount (address : Text) (amount : U64) : LedgerM Unit := do
  if amount = 0 then return
  let state ← leaves
  let account := state.account address
  setAccount address { account with balance := account.balance.satAdd amount }

/-- Moves a balance by a signed amount, and panics when the result is no balance. -/
def applyBalanceDelta (address : Text) (delta : Int) : LedgerM Unit := do
  if delta = 0 then return
  let state ← leaves
  let account := state.account address
  let updated := (account.balance.val : Int) + delta
  if updated < 0 then .panic
  let balance ← expect (Word.ofNat? 64 updated.toNat)
  setAccount address { account with balance }

/-! ## Fees -/

def feeBurnBps : Nat := 7000

def feeProposerBps : Nat := 1000

structure FeeSplit where
  burn : U64
  proposer : U64
  grants : U64
  deriving DecidableEq, Repr

/-- The shares of a fee; the grants take what rounding leaves. -/
def FeeSplit.of (fee : U64) : FeeSplit :=
  let burn : U64 := Word.clamp 64 (fee.val * feeBurnBps / 10000)
  let proposer : U64 := Word.clamp 64 (fee.val * feeProposerBps / 10000)
  { burn, proposer, grants := (fee.satSub burn).satSub proposer }

section Fees

variable [Platform]

def applyFeeSplit (context : Context) (split : FeeSplit) : LedgerM Unit := do
  creditAccount (context.roundProposer.getD grantsAddress) split.proposer
  creditAccount grantsAddress split.grants
  debitSupply split.burn

def collectFee (context : Context) (fee : U64) : LedgerM Unit := do
  if fee = 0 then return
  applyFeeSplit context (.of fee)

end Fees

/-! ## What payments leave alone -/

section Frames

variable {ledger : Ledger}

open Transaction Transaction.State

/-- A credit returns, and writes the account that it pays. -/
theorem creditAccount_returns (address : Text) (amount : U64) :
    Returns ledger (creditAccount address amount) fun _ after =>
      ∀ key : LeafKey, key ≠ .account (accountRef address) → after.get key = ledger.get key := by
  unfold creditAccount
  split
  · simp
  · simp only [setAccount, returns_bind, returns_leaves, returns_put]
    exact fun key apart => get_write_ne _ apart.symm

/-- A debit of the supply returns, and writes the supply. -/
theorem debitSupply_returns (amount : U64) :
    Returns ledger (debitSupply amount) fun _ after =>
      ∀ key : LeafKey, key ≠ .supply → after.get key = ledger.get key := by
  unfold debitSupply
  split
  · simp
  · simp only [setTotalSupply, returns_bind, returns_leaves, returns_put]
    exact fun key apart => get_write_ne _ apart.symm

/-- A fee is always collected, and writes the accounts of the proposer and of the grants and the
supply. -/
theorem collectFee_returns [Platform] (context : Context) (fee : U64) :
    Returns ledger (collectFee context fee) fun _ after =>
      ∀ key : LeafKey, key ≠ .account (accountRef (context.roundProposer.getD grantsAddress)) →
        key ≠ .account (accountRef grantsAddress) → key ≠ .supply →
        after.get key = ledger.get key := by
  unfold collectFee
  split
  · simp
  refine (creditAccount_returns _ _).bind fun _ _ first => ?_
  refine (creditAccount_returns _ _).bind fun _ _ second => ?_
  refine (debitSupply_returns _).mono fun _ _ third key noProposer noGrants noSupply => ?_
  rw [third key noSupply, second key noGrants, first key noProposer]

end Frames

end QuantovaChain.Ledger
