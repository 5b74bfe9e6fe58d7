import QuantovaChain.Ledger.Core
import QuantovaChain.Wire.Canonical

/-!
# Registrations of one-time keys

Validators register the root of their keys for the next epoch by notes in the blocks. A node records
the notes of every block it persists and promotes what it recorded when its committee enters the
next epoch. A node that restarts replays the blocks from the start of the epoch before the head. The
registrations of an epoch are replaced as a whole when the epoch begins, and nothing recorded is
left over then, so the replay ends with the registrations of a node that followed the chain from its
first block.
-/

namespace QuantovaChain.Devnet

open Ledger (registrationAddress)
open State (Bytes)
open Tx (Wrapper)
open Wire

/-! ## Stored blocks -/

/-- The stored bytes of the blocks by height. -/
abbrev StoredBlocks := U64 → Option Bytes

/-- The block of a height, if it is there and decodes. -/
def StoredBlocks.read (store : StoredBlocks) (height : U64) : Option ChainBlock := do
  (chainBlockFromBytes (← store height)).toOption

/-- Blocks that follow each other from a height on. -/
def Numbered : Nat → List ChainBlock → Prop
  | _, [] => True
  | height, block :: blocks => block.header.height.val = height ∧ Numbered (height + 1) blocks

/-- The store gives the blocks back. -/
def Holds (store : StoredBlocks) (blocks : List ChainBlock) : Prop :=
  ∀ block ∈ blocks, store.read block.header.height = some block

/-- A store of encoded blocks gives them back. -/
theorem holds_of_encoded {store : StoredBlocks} {blocks : List ChainBlock}
    (fit : ∀ block ∈ blocks, block.Fits)
    (stored : ∀ block ∈ blocks, store block.header.height = some (encodeChainBlock block)) :
    Holds store blocks := by
  intro block inside
  have decoded := chainBlockFromBytes_eq_ok.mpr ⟨fit block inside, rfl⟩
  rw [StoredBlocks.read, stored block inside, Option.bind_eq_bind, Option.bind_some, decoded]
  rfl

theorem numbered_append {height : Nat} {earlier later : List ChainBlock} :
    Numbered height (earlier ++ later) ↔
      Numbered height earlier ∧ Numbered (height + earlier.length) later := by
  induction earlier generalizing height with
  | nil => simp [Numbered]
  | cons block blocks hypothesis =>
    rw [List.cons_append, Numbered, Numbered, hypothesis, List.length_cons, and_assoc,
      Nat.add_assoc, Nat.add_comm 1]

section Model

variable [Sizes]

/-! ## The registrations of a node -/

/-- What a roster says of a validator that registrations depend on. -/
structure ValidatorRegistration where
  id : U64
  attestPk : Key

/-- What registrations depend on and no block changes: the length of an epoch, the first height, the
rules of the sampler and of attestations, and the roster of the genesis. -/
structure RegistrationRules where
  epochLen : U64
  minHeight : U64
  registrationOpen : (height epochLen : U64) → Bool
  epochRegistrationVerifies : Key → (id epoch : U64) → Root → Signature → Bool
  baseRoster : List ValidatorRegistration

/-- The roots registered for the epoch of the committee and for the next one, and who registered two
different roots. -/
structure Registry where
  epochRoots : Finmap fun _ : U64 => Root
  epochConflicted : Finset U64
  nextRoots : Finmap fun _ : U64 => Root
  nextConflicted : Finset U64
  nextFor : U64
  deriving DecidableEq

namespace RegistrationRules

def epochFor (rules : RegistrationRules) (height : U64) : U64 := height.div rules.epochLen

end RegistrationRules

variable (rules : RegistrationRules)

namespace Registry

/-- No registrations, in an epoch. -/
def clear (epoch : U64) : Registry := ⟨∅, ∅, ∅, ∅, epoch.satAdd 1⟩

/-- The note of a transaction, when it is for the next epoch, by a validator of the roster who has
not contradicted itself, and verifies. -/
def acceptedNote (next : U64) (conflicted : Finset U64) (wrapper : Wrapper) : Option RegisterNote := do
  guard (wrapper.body.call.target = registrationAddress)
  let note ← (decodeWhole decodeRegisterNote wrapper.body.call.args).toOption
  guard (note.epoch = next ∧ note.id ∉ conflicted)
  let reg ← rules.baseRoster.find? fun reg => reg.id = note.id
  guard (rules.epochRegistrationVerifies reg.attestPk note.id note.epoch note.root note.sig)
  return note

/-- A second root of one validator is a contradiction. -/
def recordNote (next : U64) (registry : Registry) (wrapper : Wrapper) : Registry :=
  match acceptedNote rules next registry.nextConflicted wrapper with
  | none => registry
  | some note =>
    match registry.nextRoots.lookup note.id with
    | none => { registry with nextRoots := registry.nextRoots.insert note.id note.root }
    | some existing =>
      if existing = note.root then registry
      else { registry with
        nextRoots := registry.nextRoots.erase note.id
        nextConflicted := insert note.id registry.nextConflicted }

/-- What is recorded is for one epoch only. -/
def turnTo (next : U64) (registry : Registry) : Registry :=
  if next ≠ registry.nextFor then
    { registry with nextRoots := ∅, nextConflicted := ∅, nextFor := next }
  else registry

def recordRegistrations (registry : Registry) (block : ChainBlock) : Registry :=
  if rules.registrationOpen block.header.height rules.epochLen = false then registry
  else
    let next := (rules.epochFor block.header.height).satAdd 1
    block.body.foldl (recordNote rules next) (registry.turnTo next)

def promoteRegistrations (registry : Registry) (epoch : U64) : Registry :=
  if registry.nextFor = epoch then
    { epochRoots := registry.nextRoots
      epochConflicted := registry.nextConflicted
      nextRoots := ∅
      nextConflicted := ∅
      nextFor := epoch.satAdd 1 }
  else clear epoch

end Registry

/-! ## Following the chain -/

/-- What a node keeps from block to block: the height it works on, the epoch of its committee and
the registrations. -/
structure Follower where
  height : U64
  epoch : U64
  registry : Registry
  deriving DecidableEq

namespace Follower

def refreshCommittee (node : Follower) : Follower :=
  let epoch := rules.epochFor node.height
  { node with
    epoch
    registry :=
      if epoch ≠ node.epoch then node.registry.promoteRegistrations epoch else node.registry }

/-- A node at the genesis, whose committee is refreshed for the first height. -/
def initGenesis : Follower :=
  refreshCommittee rules { height := rules.minHeight, epoch := 0, registry := .clear 0 }

def persist (node : Follower) (block : ChainBlock) : Follower :=
  { node with registry := node.registry.recordRegistrations rules block }

/-- A node persists a block and moves to the next height. There is none after the largest. -/
def finalize (node : Follower) (block : ChainBlock) : Option Follower :=
  do
    let height ← node.height.checkedAdd 1
    return refreshCommittee rules { node.persist rules block with height }

/-- A node that processes blocks one by one from the genesis. -/
def online (blocks : List ChainBlock) : Option Follower :=
  blocks.foldlM (finalize rules) (initGenesis rules)

end Follower

/-! ## Restarting from the block store -/

/-- The heights between two heights, both included. -/
def heightsBetween (first last : U64) : List U64 :=
  (List.range' first.val (last.val + 1 - first.val)).map (Word.clamp 64)

/-- The epoch of a height begins, if it has not begun. -/
def arrive (progress : Registry × U64) (height : U64) : Registry × U64 :=
  let epoch := rules.epochFor height
  if epoch ≠ progress.2 then (progress.1.promoteRegistrations epoch, epoch) else progress

/-- One height of the replay. Heights without a readable block are passed over. -/
def rebuildAt (store : StoredBlocks) (progress : Registry × U64) (height : U64) : Registry × U64 :=
  let arrived := arrive rules progress height
  match store.read height with
  | none => arrived
  | some block => (arrived.1.recordRegistrations rules block, arrived.2)

def rebuildEpochRegistrations (store : StoredBlocks) (head : U64) : Registry :=
  let fromEpoch := (rules.epochFor head).satSub 1
  let first := max (fromEpoch.satMul rules.epochLen) rules.minHeight
  ((heightsBetween first head).foldl (rebuildAt rules store) (.clear fromEpoch, fromEpoch)).1

/-- The committee is that of the head until the node stands at the height after it. -/
def reload (store : StoredBlocks) (head : U64) : Option Follower := do
  let height ← head.checkedAdd 1
  return Follower.refreshCommittee rules
    { height, epoch := rules.epochFor head, registry := rebuildEpochRegistrations rules store head }

/-! ## What the registrations of an epoch do not depend on -/

namespace Registry

/-- Other registrations of the epoch of the committee, with the same recorded for the next. -/
def withEpoch (registry : Registry) (roots : Finmap fun _ : U64 => Root)
    (conflicted : Finset U64) : Registry :=
  { registry with epochRoots := roots, epochConflicted := conflicted }

variable {rules} {roots : Finmap fun _ : U64 => Root} {conflicted : Finset U64}

theorem recordNote_withEpoch (next : U64) (registry : Registry) (wrapper : Wrapper) :
    (registry.withEpoch roots conflicted).recordNote rules next wrapper =
      (registry.recordNote rules next wrapper).withEpoch roots conflicted := by
  unfold recordNote withEpoch
  dsimp only
  cases acceptedNote rules next registry.nextConflicted wrapper with
  | none => rfl
  | some note =>
    dsimp only
    cases registry.nextRoots.lookup note.id with
    | none => rfl
    | some existing =>
      dsimp only
      split <;> rfl

theorem turnTo_withEpoch (next : U64) (registry : Registry) :
    (registry.withEpoch roots conflicted).turnTo next =
      (registry.turnTo next).withEpoch roots conflicted := by
  unfold turnTo withEpoch
  dsimp only
  split <;> rfl

theorem recordRegistrations_withEpoch (registry : Registry) (block : ChainBlock) :
    (registry.withEpoch roots conflicted).recordRegistrations rules block =
      (registry.recordRegistrations rules block).withEpoch roots conflicted := by
  have notes : ∀ (next : U64) (body : List Wrapper) (registry : Registry),
      body.foldl (recordNote rules next) (registry.withEpoch roots conflicted) =
        (body.foldl (recordNote rules next) registry).withEpoch roots conflicted := by
    intro next body
    induction body with
    | nil => exact fun _ => rfl
    | cons wrapper body hypothesis =>
      intro registry
      rw [List.foldl_cons, List.foldl_cons, recordNote_withEpoch, hypothesis]
  unfold recordRegistrations
  split
  · rfl
  · dsimp only
    rw [turnTo_withEpoch, notes]

theorem promoteRegistrations_withEpoch (registry : Registry) (epoch : U64) :
    (registry.withEpoch roots conflicted).promoteRegistrations epoch =
      registry.promoteRegistrations epoch := rfl

/-- After a promotion nothing is recorded. -/
theorem promoteRegistrations_eq (registry : Registry) (epoch : U64) :
    ∃ roots conflicted, registry.promoteRegistrations epoch =
      (clear epoch).withEpoch roots conflicted := by
  unfold promoteRegistrations
  split
  · exact ⟨_, _, rfl⟩
  · exact ⟨_, _, rfl⟩

theorem promoteRegistrations_clear (before epoch : U64) :
    (clear before).promoteRegistrations epoch = clear epoch := by
  unfold promoteRegistrations
  split <;> rfl

end Registry

/-! ## The replay -/

section Replay

variable {rules} {store : StoredBlocks}

/-- A block of the chain, seen from a node that arrives at its height. -/
def visit (rules : RegistrationRules) (progress : Registry × U64) (block : ChainBlock) :
    Registry × U64 :=
  let arrived := arrive rules progress block.header.height
  (arrived.1.recordRegistrations rules block, arrived.2)

theorem arrive_snd (progress : Registry × U64) (height : U64) :
    (arrive rules progress height).2 = rules.epochFor height := by
  unfold arrive
  dsimp only
  split
  · rfl
  · next same => exact (not_not.mp same).symm

theorem refreshCommittee_eq (node : Follower) :
    node.refreshCommittee rules =
      { height := node.height
        epoch := rules.epochFor node.height
        registry := (arrive rules (node.registry, node.epoch) node.height).1 } := by
  unfold Follower.refreshCommittee arrive
  dsimp only
  split <;> rfl

/-- From no registrations it does not matter which epoch came before. -/
theorem arrive_clear (before height : U64) :
    arrive rules (.clear before, before) height =
      (.clear (rules.epochFor height), rules.epochFor height) := by
  unfold arrive
  dsimp only
  split
  · rw [Registry.promoteRegistrations_clear]
  · next same => rw [not_not.mp same]

theorem visit_clear (before other : U64) (block : ChainBlock) :
    visit rules (.clear before, before) block = visit rules (.clear other, other) block := by
  rw [visit, visit, arrive_clear, arrive_clear]

theorem visit_snd (progress : Registry × U64) (block : ChainBlock) :
    (visit rules progress block).2 = rules.epochFor block.header.height :=
  arrive_snd progress block.header.height

/-- Both nodes have the same recorded for the next epoch and stand in the same epoch. -/
def Agree (first second : Registry × U64) : Prop :=
  ∃ roots conflicted, first = (second.1.withEpoch roots conflicted, second.2)

variable {blocks : List ChainBlock} {first second : Registry × U64} {height : Nat}

theorem Agree.visit (rules : RegistrationRules) (agree : Agree first second) (block : ChainBlock) :
    Agree (visit rules first block) (visit rules second block) := by
  obtain ⟨registry, epoch⟩ := second
  obtain ⟨roots, conflicted, rfl⟩ := agree
  unfold Devnet.visit arrive
  dsimp only
  split
  · rw [Registry.promoteRegistrations_withEpoch]
    exact ⟨_, _, rfl⟩
  · rw [Registry.recordRegistrations_withEpoch]
    exact ⟨_, _, rfl⟩

theorem Agree.foldl_visit (rules : RegistrationRules)
    (agree : Agree first second) (blocks : List ChainBlock) :
    Agree (blocks.foldl (Devnet.visit rules) first) (blocks.foldl (Devnet.visit rules) second) := by
  induction blocks generalizing first second with
  | nil => exact agree
  | cons block blocks hypothesis => exact hypothesis (agree.visit rules block)

/-- The first block of an epoch makes them the same. -/
theorem Agree.visit_turning (agree : Agree first second)
    {block : ChainBlock} (turns : rules.epochFor block.header.height ≠ second.2) :
    Devnet.visit rules first block = Devnet.visit rules second block := by
  obtain ⟨registry, epoch⟩ := second
  obtain ⟨roots, conflicted, rfl⟩ := agree
  unfold Devnet.visit arrive
  dsimp only at turns ⊢
  rw [if_pos turns, if_pos turns, Registry.promoteRegistrations_withEpoch]

/-- A node that enters an epoch agrees with one that starts in it. -/
theorem agree_of_turning {progress : Registry × U64} {block : ChainBlock}
    (turns : rules.epochFor block.header.height ≠ progress.2) (epoch : U64) :
    Agree (visit rules progress block) (visit rules (.clear epoch, epoch) block) := by
  obtain ⟨roots, conflicted, promoted⟩ :=
    progress.1.promoteRegistrations_eq (rules.epochFor block.header.height)
  rw [visit, visit, arrive_clear, arrive, if_pos turns, promoted]
  refine ⟨roots, conflicted, ?_⟩
  dsimp only
  rw [Registry.recordRegistrations_withEpoch]

/-- The replay of a stretch of the chain visits its blocks. -/
theorem foldl_rebuildAt (numbered : Numbered height blocks)
    (holds : Holds store blocks) (progress : Registry × U64) :
    ((List.range' height blocks.length).map (Word.clamp 64)).foldl (rebuildAt rules store) progress =
      blocks.foldl (visit rules) progress := by
  induction blocks generalizing height progress with
  | nil => rfl
  | cons block blocks hypothesis =>
    obtain ⟨rfl, following⟩ := numbered
    have here : Word.clamp 64 block.header.height.val = block.header.height := by
      have bound := block.header.height.bound
      rw [Word.ext_iff, Word.val_clamp]
      omega
    rw [List.length_cons, List.range'_succ, List.map_cons, List.foldl_cons, List.foldl_cons, here,
      hypothesis following (List.forall_mem_cons.mp holds).2]
    rw [rebuildAt, holds block List.mem_cons_self]
    rfl

theorem online_append (blocks : List ChainBlock) (block : ChainBlock) :
    Follower.online rules (blocks ++ [block]) =
      (Follower.online rules blocks).bind fun node => node.finalize rules block := by
  rw [Follower.online, List.foldlM_append, Option.bind_eq_bind]
  congr 1
  funext node
  rw [List.foldlM_cons, Option.bind_eq_bind]
  exact Option.bind_fun_some _

/-- A node that has processed blocks has visited them and arrived at the next height. -/
theorem online_eq {height : U64} (numbered : Numbered rules.minHeight.val blocks)
    (next : height.val = rules.minHeight.val + blocks.length) :
    Follower.online rules blocks = some
      { height
        epoch := rules.epochFor height
        registry := (arrive rules (blocks.foldl (visit rules) (.clear 0, 0)) height).1 } := by
  induction blocks using List.reverseRecOn generalizing height with
  | nil =>
    obtain rfl : height = rules.minHeight := Word.ext next
    rw [Follower.online, Follower.initGenesis, refreshCommittee_eq]
    rfl
  | append_singleton blocks block hypothesis =>
    obtain ⟨earlier, here, -⟩ := numbered_append.mp numbered
    rw [List.length_append, List.length_singleton] at next
    have before := hypothesis earlier here
    have moved : block.header.height.checkedAdd 1 = some height := by
      rw [Word.checkedAdd_eq_some, here, next]
      rfl
    rw [online_append, before, Option.bind_some, Follower.finalize, moved, Option.bind_eq_bind,
      Option.bind_some, refreshCommittee_eq, Option.pure_def]
    simp only [Follower.persist, List.foldl_append, List.foldl_cons, List.foldl_nil]
    rw [visit, arrive_snd]

/-- After blocks that follow each other the epoch is that of the last. -/
theorem foldl_visit_epoch (rules : RegistrationRules)
    (numbered : Numbered height blocks) (some : blocks ≠ []) (progress : Registry × U64) :
    (blocks.foldl (visit rules) progress).2.val =
      (height + blocks.length - 1) / rules.epochLen.val := by
  induction blocks using List.reverseRecOn with
  | nil => exact absurd rfl some
  | append_singleton blocks block _ =>
    obtain ⟨-, here, -⟩ := numbered_append.mp numbered
    rw [List.foldl_append, List.foldl_cons, List.foldl_nil, visit_snd, RegistrationRules.epochFor,
      Word.val_div, here, List.length_append, List.length_singleton]
    rfl

/-- A node that comes from before an epoch has, at the end of that epoch, forgotten what it came
with. -/
theorem foldl_visit_forgets {past early late : List ChainBlock} {first turning : ChainBlock}
    {epoch : U64}
    (numbered : Numbered height (past ++ (first :: early ++ turning :: late))) (some : past ≠ [])
    (begins : height + past.length = epoch.val * rules.epochLen.val)
    (lasts : early.length + 1 = rules.epochLen.val) (progress : Registry × U64) :
    (past ++ (first :: early ++ turning :: late)).foldl (visit rules) progress =
      (first :: early ++ turning :: late).foldl (visit rules) (.clear epoch, epoch) := by
  obtain ⟨before, after⟩ := numbered_append.mp numbered
  obtain ⟨within, turningHeight, -⟩ := numbered_append.mp after
  have firstHeight := within.1
  rw [begins] at within firstHeight turningHeight
  have positive : 0 < rules.epochLen.val := by omega
  have entering : rules.epochFor first.header.height ≠ (past.foldl (visit rules) progress).2 := by
    have left := foldl_visit_epoch rules before some progress
    have length := List.length_pos_iff.mpr some
    rw [begins] at left
    rw [ne_eq, Word.ext_iff, left, RegistrationRules.epochFor, Word.val_div, firstHeight,
      Nat.mul_div_cancel _ positive]
    have reached : (epoch.val * rules.epochLen.val - 1) / rules.epochLen.val < epoch.val := by
      rw [Nat.div_lt_iff_lt_mul positive]
      omega
    omega
  have leaving : rules.epochFor turning.header.height ≠
      ((first :: early).foldl (visit rules) (.clear epoch, epoch)).2 := by
    have left := foldl_visit_epoch rules within (List.cons_ne_nil _ _) (.clear epoch, epoch)
    have length : (first :: early).length = rules.epochLen.val := lasts
    rw [length] at left turningHeight
    rw [ne_eq, Word.ext_iff, left, RegistrationRules.epochFor, Word.val_div, turningHeight,
      Nat.add_div_right _ positive, Nat.mul_div_cancel _ positive]
    have kept : (epoch.val * rules.epochLen.val + rules.epochLen.val - 1) / rules.epochLen.val <
        epoch.val + 1 := by
      rw [Nat.div_lt_iff_lt_mul positive, Nat.add_mul, Nat.one_mul]
      omega
    omega
  have agree := (agree_of_turning entering epoch).foldl_visit rules early
  rw [List.foldl_cons] at leaving
  simp only [List.foldl_append, List.foldl_cons]
  rw [agree.visit_turning leaving]

/-- The heights of the replay are those of the last blocks of the chain: all of them, or those from
the start of the epoch before the head's. -/
theorem replayed_blocks (positive : 0 < rules.epochLen.val) {head : U64}
    (numbered : Numbered rules.minHeight.val blocks) (some : blocks ≠ [])
    (last : head.val + 1 = rules.minHeight.val + blocks.length) :
    let fromEpoch := (rules.epochFor head).satSub 1
    let first := max (fromEpoch.satMul rules.epochLen) rules.minHeight
    ∃ past recent, blocks = past ++ recent ∧ Numbered first.val recent ∧
      recent.length = head.val + 1 - first.val ∧
      (past = [] ∨ rules.minHeight.val + past.length = fromEpoch.val * rules.epochLen.val ∧
        rules.epochLen.val < recent.length) := by
  intro fromEpoch first
  have one : (1 : U64).val = 1 := rfl
  have epochs : fromEpoch.val = head.val / rules.epochLen.val - 1 := by
    rw [Word.val_satSub, RegistrationRules.epochFor, Word.val_div, one]
  have below : fromEpoch.val * rules.epochLen.val ≤ head.val := by
    rw [epochs]
    exact (Nat.mul_le_mul_right _ (Nat.sub_le _ _)).trans (Nat.div_mul_le_self _ _)
  have bound := head.bound
  have nonempty := List.length_pos_iff.mpr some
  have firstVal : first.val = max (fromEpoch.val * rules.epochLen.val) rules.minHeight.val := by
    rw [Word.val_max, Word.val_satMul]
    omega
  refine ⟨blocks.take (first.val - rules.minHeight.val),
    blocks.drop (first.val - rules.minHeight.val), (List.take_append_drop _ _).symm, ?_, ?_, ?_⟩
  · rw [← List.take_append_drop (first.val - rules.minHeight.val) blocks, numbered_append,
      List.length_take] at numbered
    convert numbered.2 using 1
    omega
  · rw [List.length_drop]
    omega
  · rw [List.take_eq_nil_iff, List.length_take, List.length_drop]
    by_cases whole : first.val = rules.minHeight.val
    · left
      left
      omega
    · right
      have turned : 1 ≤ head.val / rules.epochLen.val := by
        by_contra none
        have zero : fromEpoch.val = 0 := by omega
        rw [zero] at firstVal
        omega
      have reached : (fromEpoch.val + 1) * rules.epochLen.val ≤ head.val := by
        rw [epochs, Nat.sub_add_cancel turned]
        exact Nat.div_mul_le_self _ _
      rw [Nat.add_mul, Nat.one_mul] at reached
      omega

/-- The replay ends where a node that visited the whole chain ends. -/
theorem rebuildEpochRegistrations_eq (positive : 0 < rules.epochLen.val)
    {head : U64} (some : blocks ≠ [])
    (numbered : Numbered rules.minHeight.val blocks)
    (last : head.val + 1 = rules.minHeight.val + blocks.length) (holds : Holds store blocks) :
    rebuildEpochRegistrations rules store head =
      (blocks.foldl (visit rules) (.clear 0, 0)).1 := by
  obtain ⟨past, recent, rfl, following, length, cut⟩ := replayed_blocks positive numbered some last
  unfold rebuildEpochRegistrations heightsBetween
  dsimp only at following length ⊢
  rw [← length, foldl_rebuildAt following (List.forall_mem_append.mp holds).2]
  by_cases whole : past = []
  · subst whole
    cases recent with
    | nil => exact absurd rfl some
    | cons block recent => rw [List.nil_append, List.foldl_cons, List.foldl_cons, visit_clear]
  · obtain ⟨begins, ends⟩ := cut.resolve_left whole
    have earlyLength : (recent.take rules.epochLen.val).length = rules.epochLen.val :=
      List.length_take_of_le ends.le
    have lateLength : 0 < (recent.drop rules.epochLen.val).length := by
      rw [List.length_drop]
      omega
    have parted := List.take_append_drop rules.epochLen.val recent
    cases early : recent.take rules.epochLen.val with
    | nil =>
      rw [early] at earlyLength
      exact absurd earlyLength positive.ne
    | cons first rest =>
      cases late : recent.drop rules.epochLen.val with
      | nil =>
        rw [late] at lateLength
        exact absurd lateLength (Nat.lt_irrefl 0)
      | cons turning later =>
        rw [early] at earlyLength parted
        rw [late] at parted
        rw [← parted] at numbered ⊢
        rw [foldl_visit_forgets numbered whole begins earlyLength]

end Replay

/-- A node that restarts has the registrations of a node that processed the same blocks one by one:
after the replay those it had when it had persisted the head, and after the restart those it has at
the height after the head, with the same epoch of its committee. What blocks before the replayed
epochs left behind is forgotten when an epoch turns. -/
theorem registrations_survive_restart (rules : RegistrationRules)
    (positive : 0 < rules.epochLen.val) (store : StoredBlocks) (blocks : List ChainBlock)
    (head : ChainBlock) (numbered : Numbered rules.minHeight.val (blocks ++ [head]))
    (holds : Holds store (blocks ++ [head])) :
    (∃ node, Follower.online rules blocks = some node ∧ node.height = head.header.height ∧
      rebuildEpochRegistrations rules store head.header.height =
        (node.persist rules head).registry) ∧
      reload rules store head.header.height = Follower.online rules (blocks ++ [head]) := by
  obtain ⟨earlier, here, -⟩ := numbered_append.mp numbered
  have last : head.header.height.val + 1 = rules.minHeight.val + (blocks ++ [head]).length := by
    rw [here, List.length_append, List.length_singleton, Nat.add_assoc]
  have rebuilt := rebuildEpochRegistrations_eq positive (by simp) numbered last holds
  have visited : (blocks ++ [head]).foldl (visit rules) (.clear 0, 0) =
      visit rules (blocks.foldl (visit rules) (.clear 0, 0)) head := by
    rw [List.foldl_append, List.foldl_cons, List.foldl_nil]
  constructor
  · refine ⟨_, online_eq earlier here, rfl, ?_⟩
    rw [rebuilt, visited]
    rfl
  · rw [reload, rebuilt]
    cases moved : head.header.height.checkedAdd 1 with
    | none =>
      rw [online_append, online_eq earlier here, Option.bind_some, Follower.finalize, moved]
      rfl
    | some height =>
      rw [Word.checkedAdd_eq_some] at moved
      rw [online_eq numbered (moved.trans last), Option.bind_eq_bind, Option.bind_some,
        refreshCommittee_eq, visited, ← visit_snd (blocks.foldl (visit rules) (.clear 0, 0)) head]
      rfl

end Model

/-! ## A chain with registrations -/

/-- Epochs of one block, in which everybody may register. -/
def sampleRules : letI := leastSizes; RegistrationRules :=
  letI := leastSizes
  { epochLen := 1
    minHeight := 1
    registrationOpen := fun _ _ => true
    epochRegistrationVerifies := fun _ _ _ _ _ => true
    baseRoster := [{ id := 7, attestPk := Vector.replicate 1952 0 }] }

/-- The registration of a validator for the epoch after a height. -/
def sampleRegistration (height : U64) : Wrapper :=
  letI := leastSizes
  let note : RegisterNote :=
    { height
      id := 7
      epoch := height.satAdd 1
      root := { digest := Vector.replicate 32 0, slots := height }
      sig := Vector.replicate 3309 0 }
  ⟨⟨registrationAddress, 0, 0, 0, 0, 0, ⟨registrationAddress, encodeRegisterNote note⟩, none, 0,
    Tx.kindTransfer⟩, Tx.schemeLattice, []⟩

def sampleBlock (height : U64) : ChainBlock where
  header :=
    { height
      parentHash := Vector.replicate 32 0
      qRoot := Vector.replicate 32 0
      transactionRoot := Vector.replicate 32 0
      eventRoot := Vector.replicate 32 0
      beaconSeed := Vector.replicate 32 0
      proposer := ""
      time := 0
      extraData := [] }
  certificate := []
  body := [sampleRegistration height]

theorem sampleRegistration_fits (height : U64) : WrapperFits (sampleRegistration height) where
  sender := ⟨_, renderAddress_eq_ok.mpr ⟨rfl, rfl⟩⟩
  target := ⟨_, renderAddress_eq_ok.mpr ⟨rfl, rfl⟩⟩
  args := by
    simp only [sampleRegistration, encodeRegisterNote, Codec.putU64, Codec.putBytes,
      List.length_append, Word.length_leBytes, Vector.length_toList]
    decide
  scheme := rfl
  signature := Nat.two_pow_pos 64

theorem sampleBlock_fits (height : U64) : (sampleBlock height).Fits where
  header := ⟨Nat.zero_le _, Nat.zero_le _⟩
  certificate := Nat.two_pow_pos 64
  body := ⟨Nat.one_lt_two_pow (by decide),
    List.forall_mem_singleton.mpr (sampleRegistration_fits height)⟩

/-- A node that restarts at the third block, and replays the last two of three. -/
theorem registrations_survive_restart_third :
    letI := leastSizes
    let store : StoredBlocks := fun height => some (encodeChainBlock (sampleBlock height))
    Numbered 1 [sampleBlock 1, sampleBlock 2, sampleBlock 3] ∧
      Holds store [sampleBlock 1, sampleBlock 2, sampleBlock 3] ∧
      reload sampleRules store 3 =
        Follower.online sampleRules [sampleBlock 1, sampleBlock 2, sampleBlock 3] := by
  let := leastSizes
  intro store
  have numbered : Numbered 1 [sampleBlock 1, sampleBlock 2, sampleBlock 3] :=
    ⟨rfl, rfl, rfl, trivial⟩
  have holds : Holds store [sampleBlock 1, sampleBlock 2, sampleBlock 3] := by
    refine holds_of_encoded ?_ ?_
    · simp [sampleBlock_fits]
    · simp [store, sampleBlock]
  exact ⟨numbered, holds, (registrations_survive_restart sampleRules (by decide) store
    [sampleBlock 1, sampleBlock 2] (sampleBlock 3) numbered holds).2⟩

end QuantovaChain.Devnet
