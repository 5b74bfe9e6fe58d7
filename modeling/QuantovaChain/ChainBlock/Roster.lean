import Mathlib.Data.UInt
import QuantovaChain.Codec.Reader

/-!
# Validator rosters

A light client knows the validators of an epoch by a commitment to their roster. The commitment
hashes the entries in the order of their identifiers, each of them self-delimiting, and so binds
the epoch and the entries, but not the order in which they were given.
-/

namespace QuantovaChain.Chain

open State (Bytes Hash)
open Idfmt (ascii)
open Codec Codec.Reader Reading

def rosterDomain : Bytes := ascii "QUANTOVA/ROSTER/v1"

structure RosterEntry where
  id : U64
  stake : U64
  attestPk : Bytes
  rootDigest : Hash
  rootSlots : U64
  deriving DecidableEq, Repr

namespace RosterEntry

def encode (entry : RosterEntry) : Bytes :=
  putU64 entry.id ++ putU64 entry.stake ++ putBytes entry.attestPk ++
    putBytes entry.rootDigest.toList ++ putU64 entry.rootSlots

def decode : Reader RosterEntry := do
  let id ← u64
  let stake ← u64
  let attestPk ← bytes
  let rootDigest ← sizedArray 32
  let rootSlots ← u64
  return { id, stake, attestPk, rootDigest, rootSlots }

/-- An entry whose key's length fits its word. -/
def Fits (entry : RosterEntry) : Prop := entry.attestPk.length < 2 ^ 64
  deriving Decidable

theorem inverts_decode : Inverts decode encode Fits :=
  .ofFields (by simp [encode]) (by simp [Fits]) <|
    inverts_u64.field id fun _ =>
    inverts_u64.field stake fun _ =>
    inverts_bytes.field attestPk fun _ =>
    (inverts_sizedArray (by decide)).field rootDigest fun _ =>
    inverts_u64.field rootSlots fun _ =>
    inverts_record fun record => by cases record; simp [and_assoc]

end RosterEntry

open RosterEntry (inverts_decode)

def encodeRoster (entries : List RosterEntry) : Bytes := putList RosterEntry.encode entries

def maxRosterEntries : Nat := 4096

def readRoster : Reader (List RosterEntry) := do
  let count ← u64
  if count.val > maxRosterEntries then failure else Reader.many RosterEntry.decode count.val

def decodeRoster (input : Bytes) : Option (List RosterEntry) := whole readRoster input

/-- The entries in the order of their identifiers. The sort is stable. -/
def sortedById (entries : List RosterEntry) : List RosterEntry :=
  entries.mergeSort fun first second => first.id.val ≤ second.id.val

/-- What is hashed for a roster. -/
def rosterPreimage (epoch : U64) (entries : List RosterEntry) : Bytes :=
  putBytes rosterDomain ++ putU64 epoch ++ encodeRoster (sortedById entries)

def rosterCommitment (sha3 : Bytes → Hash) (epoch : U64) (entries : List RosterEntry) : Hash :=
  sha3 (rosterPreimage epoch entries)

/-- A roster whose length fits its word, as the keys of its entries fit theirs. -/
structure RosterFits (entries : List RosterEntry) : Prop where
  length : entries.length < 2 ^ 64
  entries : ∀ entry ∈ entries, entry.Fits

theorem inverts_readRoster : Inverts readRoster encodeRoster fun entries =>
    entries.length ≤ maxRosterEntries ∧ ∀ entry ∈ entries, entry.Fits := by
  have announced (count : U64) : Inverts
      (if count.val > maxRosterEntries then failure else Reader.many RosterEntry.decode count.val)
      (fun entries => entries.flatMap RosterEntry.encode) fun entries =>
      count = Word.wrap 64 entries.length ∧ entries.length < 2 ^ 64 ∧
        entries.length ≤ maxRosterEntries ∧ ∀ entry ∈ entries, entry.Fits := by
    intro input entries rest
    split
    next large =>
      refine iff_of_false reads_failure ?_
      rintro ⟨⟨counted, word, small, -⟩, -⟩
      exact absurd (Word.eq_wrap_iff.mp ⟨counted, word⟩ ▸ small) (Nat.not_le.mpr large)
    next small =>
      rw [inverts_counted inverts_decode count input entries rest]
      refine and_congr_left' (and_congr_right fun counted => and_congr_right fun word => ?_)
      rw [Word.eq_wrap_iff.mp ⟨counted, word⟩]
      exact (and_iff_right (Nat.not_lt.mp small)).symm
  refine (inverts_u64.headed announced).congr (fun entries => ?_) ?_
  · exact ⟨fun fits => ⟨trivial, Nat.lt_of_le_of_lt fits.1 (by decide), fits⟩, fun fits => fits.2.2⟩
  · rintro entries ⟨-, word, -⟩
    rw [encodeRoster, putList, Word.clamp_eq_wrap word]

theorem mem_sortedById {entries : List RosterEntry} {entry : RosterEntry} :
    entry ∈ sortedById entries ↔ entry ∈ entries := List.mem_mergeSort

/-- The order in which entries with distinct identifiers were given does not matter. -/
theorem sortedById_eq_iff {first second : List RosterEntry}
    (distinct : (first.map RosterEntry.id).Nodup) :
    sortedById first = sortedById second ↔ first.Perm second := by
  have sorted (entries : List RosterEntry) : (sortedById entries).Pairwise fun first second =>
      decide (first.id.val ≤ second.id.val) = true :=
    List.pairwise_mergeSort (by simpa using fun _ _ _ => Nat.le_trans)
      (by simpa using fun _ _ => Nat.le_total ..) entries
  have permuted (entries : List RosterEntry) : (sortedById entries).Perm entries :=
    List.mergeSort_perm ..
  constructor
  · intro same
    exact (permuted first).symm.trans (same ▸ permuted second)
  · intro same
    refine List.Perm.eq_of_pairwise ?_ (sorted first) (sorted second)
      ((permuted first).trans (same.trans (permuted second).symm))
    intro entry other member otherMember before after
    have ids : entry.id = other.id :=
      Word.ext (Nat.le_antisymm (of_decide_eq_true before) (of_decide_eq_true after))
    exact List.inj_on_of_nodup_map distinct (mem_sortedById.mp member)
      (same.mem_iff.mpr (mem_sortedById.mp otherMember)) ids

theorem RosterFits.sorted {entries : List RosterEntry} (fits : RosterFits entries) :
    RosterFits (sortedById entries) where
  length := (List.length_mergeSort entries).symm ▸ fits.length
  entries _ member := fits.entries _ (mem_sortedById.mp member)

theorem rosterPreimage_injective {firstEpoch secondEpoch : U64} {first second : List RosterEntry}
    (firstFits : RosterFits first) (secondFits : RosterFits second)
    (same : rosterPreimage firstEpoch first = rosterPreimage secondEpoch second) :
    firstEpoch = secondEpoch ∧ sortedById first = sortedById second := by
  simp only [rosterPreimage, List.append_assoc, List.append_cancel_left_eq] at same
  obtain ⟨epochs, same⟩ := inverts_u64.injective trivial trivial same
  exact ⟨epochs, (inverts_list inverts_decode).injective_whole
    ⟨firstFits.sorted.length, firstFits.sorted.entries⟩
    ⟨secondFits.sorted.length, secondFits.sorted.entries⟩ same⟩

/-- Commitments bind the epoch and the entries of a roster, and a roster is read back from its bytes
and from no others. The preimage of a commitment determines the epoch and the sorted entries. -/
theorem rosters_bound (sha3 : Bytes → Hash) :
    (∀ firstEpoch secondEpoch first second, RosterFits first → RosterFits second →
      (first.map RosterEntry.id).Nodup → (second.map RosterEntry.id).Nodup →
      Set.InjOn sha3 {rosterPreimage firstEpoch first, rosterPreimage secondEpoch second} →
      (rosterCommitment sha3 firstEpoch first = rosterCommitment sha3 secondEpoch second ↔
        firstEpoch = secondEpoch ∧ first.Perm second)) ∧
    (∀ entries, RosterFits entries → entries.length ≤ maxRosterEntries →
      decodeRoster (encodeRoster entries) = some entries) ∧
    ∀ input entries, decodeRoster input = some entries → encodeRoster entries = input := by
  refine ⟨?_, fun entries fits small =>
      (whole_eq_some inverts_readRoster).mpr ⟨⟨small, fits.entries⟩, rfl⟩,
    fun input entries decoded => ((whole_eq_some inverts_readRoster).mp decoded).2.symm⟩
  intro firstEpoch secondEpoch first second firstFits secondFits distinct _ injective
  rw [← sortedById_eq_iff distinct]
  constructor
  · intro same
    exact rosterPreimage_injective firstFits secondFits (injective (by simp) (by simp) same)
  · rintro ⟨rfl, same⟩
    rw [rosterCommitment, rosterCommitment, rosterPreimage, rosterPreimage, same]

def rosterEntryOf (id : U64) : RosterEntry :=
  { id, stake := 5, attestPk := [7], rootDigest := Vector.replicate 32 0, rootSlots := 8 }

/-- A hash by the sum of the bytes, which tells the epochs one and two apart. -/
def byteSum (input : Bytes) : Hash := Vector.replicate 32 input.sum

/-- A roster given in two orders has one commitment, in another epoch it has another, and it is read
back from its bytes. -/
theorem rosters_bound_two :
    rosterCommitment byteSum 1 [rosterEntryOf 2, rosterEntryOf 1] =
      rosterCommitment byteSum 1 [rosterEntryOf 1, rosterEntryOf 2] ∧
    rosterCommitment byteSum 1 [rosterEntryOf 2, rosterEntryOf 1] ≠
      rosterCommitment byteSum 2 [rosterEntryOf 2, rosterEntryOf 1] ∧
    decodeRoster (encodeRoster [rosterEntryOf 2, rosterEntryOf 1]) =
      some [rosterEntryOf 2, rosterEntryOf 1] := by
  obtain ⟨binds, reads, -⟩ := rosters_bound byteSum
  have fits (first second : U64) : RosterFits [rosterEntryOf first, rosterEntryOf second] :=
    ⟨by simp, by simp [RosterEntry.Fits, rosterEntryOf]⟩
  have sorted : rosterPreimage 1 [rosterEntryOf 2, rosterEntryOf 1] =
      rosterPreimage 1 [rosterEntryOf 1, rosterEntryOf 2] := by
    rw [rosterPreimage, rosterPreimage, (sortedById_eq_iff (by decide)).mpr (List.Perm.swap ..)]
  refine ⟨?_, fun same => ?_, reads _ (fits 2 1) (by decide)⟩
  · refine (binds 1 1 _ _ (fits 2 1) (fits 1 2) (by decide) (by decide) ?_).mpr
      ⟨rfl, List.Perm.swap ..⟩
    rw [sorted]
    simp
  · refine absurd ((binds 1 2 _ _ (fits 2 1) (fits 2 1) (by decide) (by decide) ?_).mp same).1
      (by decide)
    have apart : byteSum (rosterPreimage 1 [rosterEntryOf 2, rosterEntryOf 1]) ≠
        byteSum (rosterPreimage 2 [rosterEntryOf 2, rosterEntryOf 1]) := by
      intro equal
      have sums := congrArg (fun hash : Hash => hash[0]) equal
      simp only [byteSum, rosterPreimage, List.sum_append, Vector.getElem_replicate,
        UInt8.add_left_inj, UInt8.add_right_inj] at sums
      exact absurd sums (by decide)
    exact (Set.injOn_pair).mpr fun equal => absurd equal apart

end QuantovaChain.Chain
