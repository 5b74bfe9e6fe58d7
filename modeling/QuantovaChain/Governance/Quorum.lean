import Mathlib.Data.Finset.Card
import Mathlib.Data.List.Induction
import QuantovaChain.Governance

/-!
# Quorums of guardians

A set of guardians acts when enough of its members approve. More than half of them have to, so two
quorums of one set share a guardian. A member that stands in a set twice counts towards the size of
the set and not towards a quorum, so a well formed set can be unable to act.
-/

namespace QuantovaChain.Governance.GuardianSet

/-- The count takes an approver in turn: a member that it has not counted yet, and nobody else. -/
theorem distinctMembers_concat (set : GuardianSet) (approvers : List Id) (approver : Id) :
    set.distinctMembers (approvers ++ [approver]) =
      if approver ∈ set.members ∧ approver ∉ set.distinctMembers approvers then
        set.distinctMembers approvers ++ [approver]
      else set.distinctMembers approvers := by
  simp [distinctMembers, isMember]

/-- What the count runs over: the members among the approvers, each once. By induction along the
approvers from the left, since the count appends. -/
theorem distinctMembers_spec (set : GuardianSet) (approvers : List Id) :
    (set.distinctMembers approvers).Nodup ∧
      ∀ id, id ∈ set.distinctMembers approvers ↔ id ∈ set.members ∧ id ∈ approvers := by
  induction approvers using List.reverseRecOn with
  | nil => simp [distinctMembers]
  | append_singleton approvers approver hypothesis =>
    obtain ⟨distinct, members⟩ := hypothesis
    rw [distinctMembers_concat]
    split
    next counted =>
      refine ⟨List.nodup_append.mpr ⟨distinct, List.nodup_singleton _, ?_⟩, fun id => ?_⟩
      · grind
      · grind
    next ignored => grind

/-- The length of the counted list is the size of a set: counting in order and skipping repetitions
loses and adds nobody. -/
theorem card_distinctMembers (set : GuardianSet) (approvers : List Id) :
    (set.members.toFinset ∩ approvers.toFinset).card = (set.distinctMembers approvers).length := by
  obtain ⟨distinct, members⟩ := set.distinctMembers_spec approvers
  rw [← List.toFinset_card_of_nodup distinct]
  congr 1
  ext id
  simp [members]

variable {set : GuardianSet}

/-- A quorum by the size of a set. The number of approvers is cast to 32 bits before it is compared
with the threshold. -/
theorem authorizes_iff {approvers : List Id} :
    set.authorizes approvers = true ↔ set.wellFormed = true ∧
      set.threshold.val ≤ (set.members.toFinset ∩ approvers.toFinset).card % 2 ^ 32 := by
  simp [authorizes, card_distinctMembers]

/-- Two quorums of one set share a member: each is more than half of the list of members, hence of
the set of members, and two parts of a set that are together larger than it overlap. -/
theorem quorums_intersect {first second : List Id}
    (accepted : set.authorizes first = true) (agreed : set.authorizes second = true) :
    ∃ id ∈ set.members, id ∈ first ∧ id ∈ second := by
  obtain ⟨formed, enough⟩ := authorizes_iff.mp accepted
  obtain ⟨-, sufficient⟩ := authorizes_iff.mp agreed
  simp only [wellFormed, Bool.and_eq_true, decide_eq_true_eq] at formed
  have counted := Nat.mod_le (set.members.toFinset ∩ first.toFinset).card (2 ^ 32)
  have recounted := Nat.mod_le (set.members.toFinset ∩ second.toFinset).card (2 ^ 32)
  have members := set.members.toFinset_card_le
  have approve (approvers : List Id) :
      set.members.toFinset ∩ approvers.toFinset ⊆ set.members.toFinset := Finset.inter_subset_left
  obtain ⟨id, shared⟩ :=
    Finset.inter_nonempty_of_card_lt_card_add_card (approve first) (approve second) (by omega)
  simp only [Finset.mem_inter, List.mem_toFinset] at shared
  exact ⟨id, shared.1.1, shared.1.2, shared.2.2⟩

/-- All members of a well formed set are a quorum exactly when enough of them are distinct, with
their number cast to a word as the count is. -/
theorem members_authorize_iff (formed : set.wellFormed = true) :
    set.authorizes set.members = true ↔
      set.threshold.val ≤ set.members.toFinset.card % 2 ^ 32 := by
  rw [authorizes_iff, Finset.inter_self, and_iff_right formed]

end QuantovaChain.Governance.GuardianSet

