import QuantovaChain.Codec.Reader
import QuantovaChain.Ledger.Leaf

/-!
# Event records

The events of a block are stored as bytes and proven against the event root. A record is read back
from what is written for it, but other bytes are read as well: block events ignore what follows
them and may lack their transaction, and a flag of a side event is read from any byte.
-/

namespace QuantovaChain.Events

open State (Bytes)
open Codec Codec.Reader Reading

def putText (text : String) : Bytes := putBytes (asBytes text)

/-! ## Block events -/

structure BlockEvent where
  contract : String
  selector : Selector
  data : Bytes
  tx : String
  deriving DecidableEq, Repr

namespace BlockEvent

/-- What is written of an event before its transaction. -/
def stem (event : BlockEvent) : Bytes :=
  putText event.contract ++ putBytes event.selector.toList ++ putBytes event.data

def encode (event : BlockEvent) : Bytes := event.stem ++ putText event.tx

def read : Reader BlockEvent := do
  let contract ← text
  let selector ← sizedArray 4
  let data ← bytes
  let left ← get
  let tx ← if left.length > 0 then text else pure ""
  return { contract, selector, data, tx }

/-- The event at the front of the bytes. -/
def decode (input : Bytes) : Option BlockEvent := read.run' input

end BlockEvent

/-! ## Side events -/

/-- A side event with its texts and codes as a record has them. -/
abbrev SideEvent := Ledger.SideEventOf String U32 (Word 16)

def actionNames : List String :=
  ["activate", "mint", "bridge_migration", "bridge_unfreeze", "guardian_rotate",
    "committee_rotate", "asset_register", "bridge_anchor_set", "epoch_advance", "operator_revoke",
    "freeze_recovery", "blacklist", "freeze", "parameter", "spend", "unfreeze"]

def statusNames : List String := ["deciding", "approved", "rejected"]

def dispositionNames : List String := ["burn", "treasury"]

/-- A text that is one of the known ones. -/
def interned (known : List String) : Reader String := do
  let found ← text
  known.find? (· == found)

/-- A code of sixteen bits in a word of thirty-two. -/
def ruleCode : Reader (Word 16) := do
  let wide ← u32
  if wide.val < 2 ^ 16 then return Word.wrap 16 wide.val else failure

namespace SideEvent

open Ledger.SideEventOf

/-- The encoding in which a byte stands for a flag that is set. -/
def encodeWith (mark : UInt8) : SideEvent → Bytes
  | govPropose referendum proposer track action deposit =>
    putU8 1 ++ (putU64 referendum ++ (putText proposer ++ (putU8 track ++ (putText action ++
      putU64 deposit))))
  | govVote referendum voter aye conviction stake =>
    putU8 2 ++ (putU64 referendum ++ (putText voter ++ (putU8 (if aye then mark else 0) ++
      (putU8 conviction ++ putU64 stake))))
  | govTally referendum status ayeStake nayStake =>
    putU8 3 ++ (putU64 referendum ++ (putText status ++ (putU128 ayeStake ++ putU128 nayStake)))
  | govEnact referendum action proposalHash =>
    putU8 4 ++ (putU64 referendum ++ (putText action ++ putBytes proposalHash.toList))
  | mint recipient amount => putU8 5 ++ (putText recipient ++ putU64 amount)
  | spend source recipient amount =>
    putU8 6 ++ (putText source ++ (putText recipient ++ putU64 amount))
  | parameter key value => putU8 7 ++ (putBytes key ++ putBytes value)
  | blacklist target => putU8 8 ++ putText target
  | freeze target => putU8 9 ++ putText target
  | unfreeze target => putU8 10 ++ putText target
  | recoverySeizure victim source amount scope =>
    putU8 11 ++ (putText victim ++ (putText source ++ (putU64 amount ++ putBytes scope.toList)))
  | recoveryCredit victim amount scope =>
    putU8 12 ++ (putText victim ++ (putU64 amount ++ putBytes scope.toList))
  | guardianFreeze target bound => putU8 13 ++ (putText target ++ putU64 bound)
  | guardianRotate size threshold => putU8 14 ++ (putU32 size ++ putU32 threshold)
  | committeeRotate operators threshold => putU8 15 ++ (putU32 operators ++ putU32 threshold)
  | operatorRevoke operatorId => putU8 16 ++ putU32 operatorId
  | assetRegister assetId cap epochCap requiresStark =>
    putU8 17 ++ (putBytes assetId.toList ++ (putU128 cap ++ (putU128 epochCap ++
      putU8 (if requiresStark then mark else 0))))
  | epochAdvance epoch => putU8 18 ++ putU64 epoch
  | activate feature version => putU8 19 ++ (putBytes feature ++ putU64 version)
  | bridgeMigration vault => putU8 20 ++ putText vault
  | bridgeUnfreeze => putU8 21
  | bond validator amount fee => putU8 22 ++ (putText validator ++ (putU64 amount ++ putU64 fee))
  | unbond validator amount => putU8 23 ++ (putText validator ++ putU64 amount)
  | slash validator amount disposition =>
    putU8 24 ++ (putText validator ++ (putU64 amount ++ putText disposition))
  | reward validator amount => putU8 25 ++ (putText validator ++ putU64 amount)
  | rewardClaim validator amount => putU8 26 ++ (putText validator ++ putU64 amount)
  | contractTransfer contract recipient amount =>
    putU8 27 ++ (putText contract ++ (putText recipient ++ putU64 amount))
  | bridgeMint assetId recipient amount =>
    putU8 28 ++ (putBytes assetId.toList ++ (putBytes recipient.toList ++ putU128 amount))
  | bridgeBurn assetId holder amount destination chainId burnRef =>
    putU8 29 ++ (putBytes assetId.toList ++ (putBytes holder.toList ++ (putU128 amount ++
      (putBytes destination.toList ++ (putU64 chainId ++ putBytes burnRef.toList)))))
  | bridgeSettle assetId beneficiary amount burnRef =>
    putU8 30 ++ (putBytes assetId.toList ++ (putBytes beneficiary.toList ++ (putU128 amount ++
      putBytes burnRef.toList)))
  | bridgeSlash assetId beneficiary amount burnRef =>
    putU8 31 ++ (putBytes assetId.toList ++ (putBytes beneficiary.toList ++ (putU128 amount ++
      putBytes burnRef.toList)))
  | callFailed tx contract selector rule line =>
    putU8 32 ++ (putText tx ++ (putText contract ++ (putBytes selector.toList ++
      (putU32 (Word.wrap 32 rule.val) ++ putU32 line))))

def encode (event : SideEvent) : Bytes := event.encodeWith 1

/-- The fields that a tag announces. -/
def fields : UInt8 → Reader SideEvent
  | 1 => do return govPropose (← u64) (← text) (← u8) (← interned actionNames) (← u64)
  | 2 => do return govVote (← u64) (← text) ((← u8) != 0) (← u8) (← u64)
  | 3 => do return govTally (← u64) (← interned statusNames) (← u128) (← u128)
  | 4 => do return govEnact (← u64) (← interned actionNames) (← sizedArray 32)
  | 5 => do return mint (← text) (← u64)
  | 6 => do return spend (← text) (← text) (← u64)
  | 7 => do return parameter (← bytes) (← bytes)
  | 8 => do return blacklist (← text)
  | 9 => do return freeze (← text)
  | 10 => do return unfreeze (← text)
  | 11 => do return recoverySeizure (← text) (← text) (← u64) (← sizedArray 32)
  | 12 => do return recoveryCredit (← text) (← u64) (← sizedArray 32)
  | 13 => do return guardianFreeze (← text) (← u64)
  | 14 => do return guardianRotate (← u32) (← u32)
  | 15 => do return committeeRotate (← u32) (← u32)
  | 16 => do return operatorRevoke (← u32)
  | 17 => do return assetRegister (← sizedArray 16) (← u128) (← u128) ((← u8) != 0)
  | 18 => do return epochAdvance (← u64)
  | 19 => do return activate (← bytes) (← u64)
  | 20 => do return bridgeMigration (← text)
  | 21 => do return bridgeUnfreeze
  | 22 => do return bond (← text) (← u64) (← u64)
  | 23 => do return unbond (← text) (← u64)
  | 24 => do return slash (← text) (← u64) (← interned dispositionNames)
  | 25 => do return reward (← text) (← u64)
  | 26 => do return rewardClaim (← text) (← u64)
  | 27 => do return contractTransfer (← text) (← text) (← u64)
  | 28 => do return bridgeMint (← sizedArray 16) (← sizedArray 32) (← u128)
  | 29 => do
    return bridgeBurn (← sizedArray 16) (← sizedArray 32) (← u128) (← sizedArray 32) (← u64)
      (← sizedArray 32)
  | 30 => do return bridgeSettle (← sizedArray 16) (← sizedArray 32) (← u128) (← sizedArray 32)
  | 31 => do return bridgeSlash (← sizedArray 16) (← sizedArray 32) (← u128) (← sizedArray 32)
  | 32 => do return callFailed (← text) (← text) (← sizedArray 4) (← ruleCode) (← u32)
  | _ => failure

def decode (input : Bytes) : Option SideEvent := whole (u8 >>= fields) input

/-- The names of an event are known ones. -/
def Known : SideEvent → Prop
  | govPropose _ _ _ action _ => action ∈ actionNames
  | govTally _ status _ _ => status ∈ statusNames
  | govEnact _ action _ => action ∈ actionNames
  | slash _ _ disposition => disposition ∈ dispositionNames
  | _ => True

/-- The flag of an event that has one. -/
def flag : SideEvent → Bool
  | govVote _ _ aye _ _ => aye
  | assetRegister _ _ _ requiresStark => requiresStark
  | _ => false

end SideEvent

/-! ## What is read -/

theorem inverts_putText : Inverts text putText fun text => (asBytes text).length < 2 ^ 64 :=
  inverts_text

theorem inverts_selector :
    Inverts (sizedArray 4) (fun selector => putBytes selector.toList) fun _ => True :=
  inverts_sizedArray (by decide)

theorem inverts_id : Inverts (sizedArray 32) (fun id => putBytes id.toList) fun _ => True :=
  inverts_sizedArray (by decide)

theorem inverts_assetId : Inverts (sizedArray 16) (fun id => putBytes id.toList) fun _ => True :=
  inverts_sizedArray (by decide)

theorem inverts_interned (known : List String) : Inverts (interned known) putText fun name =>
    (asBytes name).length < 2 ^ 64 ∧ name ∈ known := by
  intro input name rest
  rw [interned, inverts_putText.reads_bind]
  simp only [reads_lift]
  constructor
  · rintro ⟨found, _, short, rfl, listed, rfl⟩
    have same : name = found := by simpa using List.find?_some listed
    exact ⟨⟨same ▸ short, List.mem_of_find?_eq_some listed⟩, by rw [same]⟩
  · rintro ⟨⟨short, listed⟩, rfl⟩
    refine ⟨name, rest, short, rfl, ?_, rfl⟩
    cases found : known.find? (· == name) with
    | none => exact absurd BEq.rfl (List.find?_eq_none.mp found name listed)
    | some other => rw [show other = name by simpa using List.find?_some found]

theorem inverts_ruleCode :
    Inverts ruleCode (fun rule => putU32 (Word.wrap 32 rule.val)) fun _ => True := by
  intro input rule rest
  rw [ruleCode, inverts_u32.reads_bind]
  constructor
  · rintro ⟨wide, _, -, rfl, reads⟩
    split at reads
    next narrow =>
      obtain ⟨rfl, rfl⟩ := reads_pure.mp reads
      refine ⟨trivial, ?_⟩
      dsimp only
      rw [Word.val_wrap, Nat.mod_eq_of_lt narrow, ← (Word.eq_wrap_iff.mpr rfl).1]
    next => exact absurd reads reads_failure
  · rintro ⟨-, rfl⟩
    have narrow := rule.bound
    have same : (Word.wrap 32 rule.val).val = rule.val := Nat.mod_eq_of_lt (by omega)
    refine ⟨Word.wrap 32 rule.val, rest, trivial, rfl, ?_⟩
    rw [same, if_pos narrow]
    exact reads_pure.mpr ⟨(Word.eq_wrap_iff.mpr rfl).1.symm, rfl⟩

/-- A byte that stands for a flag is zero, or a mark that is not. -/
theorem exists_mark (byte : UInt8) :
    ∃ mark : UInt8, mark ≠ 0 ∧ (if byte != 0 then mark else 0) = byte := by
  by_cases unset : byte = 0
  · exact ⟨1, by decide, by simp [unset]⟩
  · exact ⟨byte, unset, by simp [unset]⟩

variable {input : Bytes} {event : SideEvent}

theorem SideEvent.reads_decode {rest : Bytes} (reads : Reads (u8 >>= fields) input event rest) :
    event.Known ∧ ∃ mark : UInt8, mark ≠ 0 ∧ input = event.encodeWith mark ++ rest := by
  rw [inverts_u8.reads_bind] at reads
  obtain ⟨tag, middle, -, rfl, reads⟩ := reads
  unfold fields at reads
  split at reads
  case h_33 => exact absurd reads reads_failure
  all_goals try
    simp only [inverts_u8.reads_bind, inverts_u32.reads_bind, inverts_u64.reads_bind,
      inverts_u128.reads_bind, inverts_bytes.reads_bind, inverts_putText.reads_bind,
      inverts_id.reads_bind, inverts_assetId.reads_bind, inverts_selector.reads_bind,
      (inverts_interned _).reads_bind, inverts_ruleCode.reads_bind, reads_pure] at reads
  case h_2 =>
    obtain ⟨referendum, _, -, rfl, voter, _, -, rfl, byte, _, -, rfl, reads⟩ := reads
    obtain ⟨mark, isSet, shown⟩ := exists_mark byte
    exact ⟨by grind [Known], mark, isSet, by grind [encodeWith]⟩
  case h_17 =>
    obtain ⟨assetId, _, -, rfl, cap, _, -, rfl, epochCap, _, -, rfl, byte, _, -, rfl, reads⟩ := reads
    obtain ⟨mark, isSet, shown⟩ := exists_mark byte
    exact ⟨by grind [Known], mark, isSet, by grind [encodeWith]⟩
  all_goals exact ⟨by grind [Known], 1, by decide, by grind [encodeWith]⟩

theorem flag_mark {mark : UInt8} (isSet : mark ≠ 0) (value : Bool) :
    ((if value then mark else 0) != 0) = value := by
  cases value <;> simp [isSet]

theorem SideEvent.reads_encodeWith (known : event.Known) {mark : UInt8}
    (isSet : mark ≠ 0) (small : (event.encodeWith mark).length < 2 ^ 64) (rest : Bytes) :
    Reads (u8 >>= fields) (event.encodeWith mark ++ rest) event rest := by
  cases event <;> simp only [encodeWith, List.append_assoc] <;>
    refine inverts_u8.andThen trivial ?_ <;> rw [fields]
  all_goals
    simp only [encodeWith, putText, putBytes, List.length_append] at small
    repeat' with_reducible first
      | exact reads_pure.mpr ⟨rfl, rfl⟩
      | exact reads_pure.mpr ⟨by rw [flag_mark isSet], rfl⟩
      | refine inverts_u8.andThen trivial ?_
      | refine inverts_u32.andThen trivial ?_
      | refine inverts_u64.andThen trivial ?_
      | refine inverts_u128.andThen trivial ?_
      | refine inverts_selector.andThen trivial ?_
      | refine inverts_assetId.andThen trivial ?_
      | refine inverts_id.andThen trivial ?_
      | refine inverts_ruleCode.andThen trivial ?_
      | refine (inverts_interned _).andThen ⟨?_, ?_⟩ ?_
      | refine inverts_putText.andThen ?_ ?_
      | refine inverts_bytes.andThen ?_ ?_
  all_goals first | exact known | omega

/-- What the bytes of a side event are, in all spellings. -/
theorem SideEvent.decode_eq_some (small : input.length < 2 ^ 64) : decode input = some event ↔
      event.Known ∧ ∃ mark : UInt8, mark ≠ 0 ∧ input = event.encodeWith mark := by
  rw [decode, whole_iff_reads]
  constructor
  · intro reads
    simpa using reads_decode reads
  · rintro ⟨known, mark, isSet, rfl⟩
    simpa using reads_encodeWith known isSet small []

theorem reads_get {α : Type} {next : Bytes → Reader α} {rest : Bytes} {value : α} :
    Reads (get >>= next) input value rest ↔ Reads (next input) input value rest := Iff.rfl

/-- What the bytes of a block event are, in all spellings. -/
theorem BlockEvent.decode_eq_some {event : BlockEvent} (small : input.length < 2 ^ 64) :
    decode input = some event ↔
      (∃ rest, input = event.encode ++ rest) ∨ event.tx = "" ∧ input = event.stem := by
  rw [decode, show some event = pure event from rfl, run'_eq_pure]
  constructor
  · rintro ⟨rest, reads⟩
    simp only [read, inverts_putText.reads_bind, inverts_selector.reads_bind,
      inverts_bytes.reads_bind, reads_get] at reads
    obtain ⟨contract, _, -, rfl, selector, _, -, rfl, data, left, -, rfl, reads⟩ := reads
    split at reads
    · simp only [inverts_putText.reads_bind, reads_pure] at reads
      obtain ⟨tx, later, -, rfl, rfl, -⟩ := reads
      exact .inl ⟨later, by simp [encode, stem]⟩
    next empty =>
      obtain ⟨rfl, -⟩ := reads_pure.mp reads
      obtain rfl : left = [] := by simpa using empty
      exact .inr ⟨rfl, by simp [stem]⟩
  · obtain ⟨contract, selector, data, tx⟩ := event
    rintro (⟨rest, rfl⟩ | ⟨rfl, rfl⟩)
    · simp only [encode, stem, List.append_assoc]
      simp only [encode, stem, putText, putBytes, List.length_append] at small
      refine ⟨rest, inverts_putText.andThen (by omega) (inverts_selector.andThen trivial
        (inverts_bytes.andThen (by omega) (reads_get.mpr ?_)))⟩
      rw [if_pos (by simp [putText, putBytes, putU64, Word.length_leBytes])]
      exact inverts_putText.andThen (by omega) (reads_pure.mpr ⟨rfl, rfl⟩)
    · rw [← List.append_nil (stem _)]
      simp only [stem, List.append_assoc]
      simp only [stem, putText, putBytes, List.length_append] at small
      exact ⟨[], inverts_putText.andThen (by omega) (inverts_selector.andThen trivial
        (inverts_bytes.andThen (by omega) rfl))⟩

/-- Events are read back. Bytes that are read as a block event begin with its encoding, or are it
without an empty transaction; bytes that are read as a side event are its encoding but for the byte
of a flag that is set. Each reader inverts its encoder but for these cases. -/
theorem events_read_back (event : BlockEvent) (side : SideEvent) {input : Bytes}
    (small : input.length < 2 ^ 64) :
    (BlockEvent.decode input = some event ↔
      (∃ rest, input = event.encode ++ rest) ∨ event.tx = "" ∧ input = event.stem) ∧
    (SideEvent.decode input = some side ↔
      side.Known ∧ ∃ mark : UInt8, mark ≠ 0 ∧ input = side.encodeWith mark) ∧
    (∀ mark, side.flag = false → side.encodeWith mark = side.encode) := by
  refine ⟨BlockEvent.decode_eq_some small, SideEvent.decode_eq_some small, fun mark unset => ?_⟩
  cases side <;> first | rfl | (cases unset; rfl)

/-- An event of a contract with its data and transaction, and a proposal with its names. -/
def shownEvents : BlockEvent × SideEvent :=
  (⟨"vault", Vector.replicate 4 3, [1, 2, 3], "0a"⟩, .govPropose 7 "proposer" 2 "spend" 500)

/-- A record of each kind is read from its bytes. -/
theorem events_read_back_plain :
    BlockEvent.decode shownEvents.1.encode = some shownEvents.1 ∧
      SideEvent.decode shownEvents.2.encode = some shownEvents.2 :=
  ⟨(events_read_back _ shownEvents.2 (by decide)).1.mpr (.inl ⟨[], (List.append_nil _).symm⟩),
    (events_read_back shownEvents.1 _ (by decide)).2.1.mpr
      ⟨by simp [SideEvent.Known, shownEvents, actionNames], 1, by decide, rfl⟩⟩

/-- A block event with a byte after it, one without a transaction, and a vote with the byte two for
a flag. -/
theorem events_respelled :
    (∃ event : BlockEvent, BlockEvent.decode (event.encode ++ [0]) = some event) ∧
      (∃ event : BlockEvent, BlockEvent.decode event.stem = some event ∧ event.encode ≠ event.stem) ∧
      ∃ input event, SideEvent.decode input = some event ∧ event.encode ≠ input := by
  refine ⟨⟨⟨"", Vector.replicate 4 0, [], ""⟩,
    (BlockEvent.decode_eq_some (by decide)).mpr (.inl ⟨[0], rfl⟩)⟩,
    ⟨⟨"", Vector.replicate 4 0, [], ""⟩,
      (BlockEvent.decode_eq_some (by decide)).mpr (.inr ⟨rfl, rfl⟩), by decide⟩,
    ⟨SideEvent.encodeWith 2 (.govVote 0 "" true 0 0), .govVote 0 "" true 0 0,
      (SideEvent.decode_eq_some (by decide)).mpr ⟨trivial, 2, by decide, rfl⟩, by decide⟩⟩

end QuantovaChain.Events
