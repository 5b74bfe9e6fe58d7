import QuantovaChain.Tx

/-!
# The layers of a parallel block

Transfers that touch different addresses may run at once. The schedule puts each candidate one layer
after the last one that touched its sender or its target, so that the layers, run one after another,
meet every address in the order of the candidates.
-/

namespace QuantovaChain.Node

open Idfmt (Text)
open Tx (Wrapper)

/-- The addresses that a transfer reads and writes: its sender and its target. -/
def access (wrapper : Wrapper) : Text × Text := (wrapper.body.sender, wrapper.body.call.target)

/-- The layers so far, with the last layer of each address. -/
structure Schedule where
  addressLayer : Text → Option Nat
  layers : List (List Nat)

def Schedule.empty : Schedule := ⟨fun _ => none, []⟩

/-- The first layer after those of the sender and of the target. Layers are counted from one. -/
def Schedule.layerFor (schedule : Schedule) (wrapper : Wrapper) : Nat :=
  (max (schedule.addressLayer (access wrapper).1) (schedule.addressLayer (access wrapper).2)).getD 0 + 1

def Schedule.insert (schedule : Schedule) (wrapper : Wrapper) (layer : Nat) : Text → Option Nat :=
  Function.update (Function.update schedule.addressLayer (access wrapper).1 (some layer))
    (access wrapper).2 (some layer)

/-- Places the next candidate. An index past the last layer would panic. -/
def Schedule.place (schedule : Schedule) (wrapper : Wrapper) (index : Nat) : Option Schedule :=
  let layer := schedule.layerFor wrapper
  let layers :=
    if schedule.layers.length < layer then schedule.layers ++ [[]] else schedule.layers
  match layers[layer - 1]? with
  | none => none
  | some indices => some ⟨schedule.insert wrapper layer, layers.set (layer - 1) (indices ++ [index])⟩

def planLayers (candidates : List Wrapper) : Option (List (List Nat)) :=
  (candidates.zipIdx.foldlM
    (fun (schedule : Schedule) candidate => schedule.place candidate.1 candidate.2) .empty).map
    Schedule.layers

/-! ## What the layers hold -/

/-- An address is the sender or the target of a transfer. -/
def Accesses (wrapper : Wrapper) (address : Text) : Prop :=
  (access wrapper).1 = address ∨ (access wrapper).2 = address
  deriving Decidable

/-- Whether the candidate at an index accesses an address. -/
def touches (candidates : List Wrapper) (address : Text) (index : Nat) : Bool :=
  candidates[index]?.any (Accesses · address)

/-- The indices of a layer. -/
def layerAt (layers : List (List Nat)) (depth : Nat) : List Nat := layers[depth]?.getD []

theorem layerAt_of_lt {layers : List (List Nat)} {depth : Nat} (bound : depth < layers.length) :
    layerAt layers depth = layers[depth] := by
  rw [layerAt, List.getElem?_eq_getElem bound, Option.getD_some]

theorem layerAt_concat_nil (layers : List (List Nat)) (depth : Nat) :
    layerAt (layers ++ [[]]) depth = layerAt layers depth := by
  rw [layerAt, layerAt, List.getElem?_append]
  split
  · rfl
  next past =>
    rw [List.getElem?_eq_none (Nat.le_of_not_lt past)]
    cases depth - layers.length <;> rfl

theorem layerAt_set {layers : List (List Nat)} {position depth : Nat}
    (bound : position < layers.length) (indices : List Nat) :
    layerAt (layers.set position indices) depth =
      if depth = position then indices else layerAt layers depth := by
  rw [layerAt, List.getElem?_set]
  by_cases same : position = depth
  · subst same
    simp [bound]
  · simp [same, Ne.symm same, layerAt]

theorem touches_lt {candidates : List Wrapper} {address : Text} {index : Nat}
    (touched : touches candidates address index) : index < candidates.length := by
  by_contra outside
  rw [touches, List.getElem?_eq_none (Nat.le_of_not_lt outside)] at touched
  cases touched

theorem touches_concat {candidates : List Wrapper} {wrapper : Wrapper} {address : Text} {index : Nat} :
    touches (candidates ++ [wrapper]) address index ↔
      touches candidates address index ∨
        index = candidates.length ∧ Accesses wrapper address := by
  rcases Nat.lt_trichotomy index candidates.length with before | rfl | after
  · simp [touches, List.getElem?_append_left before, Nat.ne_of_lt before]
  · simp [touches]
  · simp [touches, List.getElem?_eq_none (Nat.le_of_lt after), Nat.ne_of_gt after,
      List.getElem?_append_right (Nat.le_of_lt after), Nat.sub_ne_zero_of_lt after]

theorem Schedule.insert_apply (schedule : Schedule) (wrapper : Wrapper) (layer : Nat) (address : Text) :
    schedule.insert wrapper layer address =
      if Accesses wrapper address then some layer else schedule.addressLayer address := by
  simp only [insert, Function.update_apply, Accesses, eq_comm (a := address)]
  by_cases first : (access wrapper).1 = address <;>
    by_cases second : (access wrapper).2 = address <;> simp [first, second]

/-- What holds of the schedule of the candidates so far, where `depth` is the layer of each index. -/
structure Laid (candidates : List Wrapper) (depth : Nat → Nat) (schedule : Schedule) : Prop where
  layers : ∀ level, layerAt schedule.layers level =
    (List.range candidates.length).filter (depth · = level)
  ordered : ∀ {address earlier later}, earlier < later → touches candidates address earlier →
    touches candidates address later → depth earlier < depth later
  known : ∀ {address index}, touches candidates address index →
    ∃ last, schedule.addressLayer address = some last ∧ depth index < last
  bounded : ∀ {address last}, schedule.addressLayer address = some last →
    last ≤ schedule.layers.length

/-- Every layer of an address of the next candidate comes before the candidate's layer. -/
theorem Schedule.layerFor_gt {schedule : Schedule} {wrapper : Wrapper} {address : Text} {last : Nat}
    (accessed : Accesses wrapper address)
    (found : schedule.addressLayer address = some last) : last < schedule.layerFor wrapper := by
  rw [layerFor]
  rcases accessed with rfl | rfl
  · rw [found]
    cases schedule.addressLayer (access wrapper).2 with
    | none => exact Nat.lt_succ_self last
    | some _ => exact Nat.lt_succ_of_le (Nat.le_max_left ..)
  · rw [found]
    cases schedule.addressLayer (access wrapper).1 with
    | none => exact Nat.lt_succ_self last
    | some _ => exact Nat.lt_succ_of_le (Nat.le_max_right ..)

section

variable {candidates : List Wrapper} {depth : Nat → Nat} {schedule : Schedule}

section

variable (laid : Laid candidates depth schedule)

include laid

theorem Laid.mem_layerAt {level index : Nat} :
    index ∈ layerAt schedule.layers level ↔ index < candidates.length ∧ depth index = level := by
  rw [laid.layers, List.mem_filter, List.mem_range, decide_eq_true_eq]

theorem Laid.layerFor_le (wrapper : Wrapper) :
    schedule.layerFor wrapper ≤ schedule.layers.length + 1 := by
  rw [Schedule.layerFor]
  cases first : schedule.addressLayer (access wrapper).1 <;>
    cases second : schedule.addressLayer (access wrapper).2 <;> simp
  · exact laid.bounded second
  · exact laid.bounded first
  · exact ⟨laid.bounded first, laid.bounded second⟩

/-- The next candidate joins one layer, at its end. The other layers stay. -/
theorem Laid.place_layers (wrapper : Wrapper) (index : Nat) :
    ∃ next, schedule.place wrapper index = some next ∧
      next.addressLayer = schedule.insert wrapper (schedule.layerFor wrapper) ∧
      schedule.layers.length ≤ next.layers.length ∧
      schedule.layerFor wrapper ≤ next.layers.length ∧
      ∀ level, layerAt next.layers level = layerAt schedule.layers level ++
        if schedule.layerFor wrapper - 1 = level then [index] else [] := by
  have bound := laid.layerFor_le wrapper
  obtain ⟨earlier, layer⟩ : ∃ earlier, schedule.layerFor wrapper = earlier + 1 := ⟨_, rfl⟩
  rw [layer] at bound
  obtain ⟨layers, grown, longer, inside, kept⟩ : ∃ layers,
      (if schedule.layers.length < earlier + 1 then schedule.layers ++ [[]] else schedule.layers) =
        layers ∧ schedule.layers.length ≤ layers.length ∧ earlier < layers.length ∧
      ∀ level, layerAt layers level = layerAt schedule.layers level := by
    refine ⟨_, rfl, ?_⟩
    split
    · exact ⟨by simp, by simpa using Nat.lt_of_succ_le bound, layerAt_concat_nil _⟩
    next holds => exact ⟨Nat.le_refl _, Nat.le_of_not_lt holds, fun _ => rfl⟩
  simp only [Schedule.place, layer, Nat.add_sub_cancel, grown, List.getElem?_eq_getElem inside]
  refine ⟨_, rfl, rfl, by simpa using longer, by rwa [List.length_set], fun level => ?_⟩
  rw [layerAt_set inside, ← layerAt_of_lt inside, kept, kept]
  by_cases same : earlier = level
  · rw [if_pos same.symm, if_pos same, same]
  · rw [if_neg (Ne.symm same), if_neg same, List.append_nil]

theorem Laid.place (wrapper : Wrapper) :
    ∃ next, schedule.place wrapper candidates.length = some next ∧
      Laid (candidates ++ [wrapper])
        (Function.update depth candidates.length (schedule.layerFor wrapper - 1)) next := by
  obtain ⟨next, placed, addressLayer, longer, reached, layers⟩ :=
    laid.place_layers wrapper candidates.length
  have kept {index : Nat} (before : index < candidates.length) : Function.update depth
      candidates.length (schedule.layerFor wrapper - 1) index = depth index :=
    Function.update_of_ne (Nat.ne_of_lt before) ..
  -- A candidate that shares an address with the new one lies in a lower layer.
  have below {address : Text} {index : Nat} (touched : touches candidates address index)
      (accessed : Accesses wrapper address) :
      depth index + 1 < schedule.layerFor wrapper := by
    obtain ⟨last, found, deeper⟩ := laid.known touched
    exact Nat.lt_of_le_of_lt deeper (Schedule.layerFor_gt accessed found)
  refine ⟨next, placed, fun level => ?_, ?_, ?_, ?_⟩
  · rw [layers, laid.layers, List.length_append, List.length_singleton, List.range_succ,
      List.filter_append]
    congr 1
    · refine List.filter_congr fun index member => ?_
      rw [kept (List.mem_range.mp member)]
    · rw [List.filter_singleton, Function.update_self]
      simp
  · intro address earlier later before touched touchedToo
    rcases touches_concat.mp touched with old | ⟨rfl, -⟩ <;>
      rcases touches_concat.mp touchedToo with older | ⟨rfl, accessed⟩
    · rw [kept (touches_lt old), kept (touches_lt older)]
      exact laid.ordered before old older
    · rw [kept (touches_lt old), Function.update_self]
      exact Nat.lt_sub_of_add_lt (below old accessed)
    · exact absurd (touches_lt older) (Nat.lt_asymm before)
    · exact absurd before (Nat.lt_irrefl _)
  · intro address index touched
    rw [addressLayer, Schedule.insert_apply]
    rcases touches_concat.mp touched with old | ⟨rfl, accessed⟩
    · rw [kept (touches_lt old)]
      split
      next accessed => exact ⟨_, rfl, Nat.lt_of_succ_lt (below old accessed)⟩
      · exact laid.known old
    · rw [if_pos accessed, Function.update_self]
      exact ⟨_, rfl, Nat.lt_succ_self _⟩
  · intro address last found
    rw [addressLayer, Schedule.insert_apply] at found
    split at found
    · exact Option.some.inj found ▸ reached
    · exact Nat.le_trans (laid.bounded found) longer

/-- The layers are run one after another. On each address, that is the order of the candidates. -/
theorem Laid.order (address : Text) :
    schedule.layers.flatten.filter (touches candidates address) =
      (List.range candidates.length).filter (touches candidates address) := by
  have counted := (List.pairwise_lt_range (n := candidates.length)).filter (touches candidates address)
  have rising : (schedule.layers.flatten.filter (touches candidates address)).Pairwise (· < ·) := by
    rw [List.pairwise_filter, List.pairwise_flatten]
    refine ⟨fun layer member => ?_, List.pairwise_iff_getElem.mpr ?_⟩
    · obtain ⟨level, bound, rfl⟩ := List.mem_iff_getElem.mp member
      rw [← layerAt_of_lt bound, laid.layers]
      exact (List.pairwise_lt_range.filter _).imp fun before _ _ => before
    · intro first second firstBound secondBound before index atFirst other atSecond touched touchedToo
      rw [← layerAt_of_lt, laid.mem_layerAt] at atFirst atSecond
      rcases Nat.lt_trichotomy index other with earlier | rfl | later
      · exact earlier
      · omega
      · have crossed := laid.ordered later touchedToo touched
        omega
  refine List.Perm.eq_of_pairwise (fun _ _ _ _ before after => absurd after (Nat.lt_asymm before))
    rising counted ((List.perm_ext_iff_of_nodup (rising.imp Nat.ne_of_lt)
      (counted.imp Nat.ne_of_lt)).mpr fun index => ?_)
  simp only [List.mem_filter, List.mem_range, and_congr_left_iff]
  intro touched
  refine ⟨fun _ => touches_lt touched, fun bound => ?_⟩
  have member := laid.mem_layerAt.mpr ⟨bound, rfl⟩
  rw [layerAt] at member
  cases layer : schedule.layers[depth index]? with
  | none => simp [layer] at member
  | some indices =>
    rw [layer] at member
    exact List.mem_flatten.mpr ⟨indices, List.mem_of_getElem? layer, member⟩

end

end

theorem planLayers_laid (candidates : List Wrapper) :
    ∃ (schedule : Schedule) (depth : Nat → Nat), planLayers candidates = some schedule.layers ∧
      Laid candidates depth schedule := by
  suffices ∃ schedule depth, candidates.zipIdx.foldlM
      (fun (schedule : Schedule) candidate => schedule.place candidate.1 candidate.2) .empty =
        some schedule ∧ Laid candidates depth schedule by
    obtain ⟨schedule, depth, runs, laid⟩ := this
    exact ⟨schedule, depth, by rw [planLayers, runs, Option.map_some], laid⟩
  induction candidates using List.reverseRecOn with
  | nil => exact ⟨_, fun _ => 0, rfl, fun _ => rfl, nofun, nofun, nofun⟩
  | append_singleton candidates wrapper hypothesis =>
    obtain ⟨schedule, depth, runs, laid⟩ := hypothesis
    obtain ⟨next, placed, laidNext⟩ := laid.place wrapper
    refine ⟨next, _, ?_, laidNext⟩
    rw [List.zipIdx_append, List.foldlM_append, runs]
    simpa using placed

/-- The schedule is a layering of the candidates. Every index has one layer, an index that shares an
address with an earlier one has a later layer, and no layer meets an address twice. Run in order,
the layers meet each address as the candidates do. By induction on the candidates, each is placed
behind all that share an address with it. -/
theorem planLayers_layering (candidates : List Wrapper) :
    ∃ layers, planLayers candidates = some layers ∧
      (∀ index < candidates.length, ∃! level, index ∈ layerAt layers level) ∧
      (∀ level, ∀ index ∈ layerAt layers level, index < candidates.length) ∧
      (∀ address earlier later, earlier < later → touches candidates address earlier →
        touches candidates address later → ∀ first second, earlier ∈ layerAt layers first →
        later ∈ layerAt layers second → first < second) ∧
      (∀ level, (layerAt layers level).Pairwise fun index other => index ≠ other ∧
        ∀ address, ¬ (touches candidates address index ∧ touches candidates address other)) ∧
      ∀ address, layers.flatten.filter (touches candidates address) =
        (List.range candidates.length).filter (touches candidates address) := by
  obtain ⟨schedule, depth, planned, laid⟩ := planLayers_laid candidates
  refine ⟨schedule.layers, planned, ?_⟩
  simp only [laid.mem_layerAt]
  refine ⟨fun index bound => ⟨_, ⟨bound, rfl⟩, fun _ found => found.2.symm⟩, fun _ _ found => found.1,
    ?_, fun level => ?_, laid.order⟩
  · rintro address earlier later before touched touchedToo first second ⟨-, rfl⟩ ⟨-, rfl⟩
    exact laid.ordered before touched touchedToo
  · have rising : (layerAt schedule.layers level).Pairwise (· < ·) := by
      rw [laid.layers]
      exact List.pairwise_lt_range.filter _
    refine rising.imp_of_mem fun atFirst atSecond before =>
      ⟨Nat.ne_of_lt before, fun address shared => ?_⟩
    have deeper := laid.ordered before shared.1 shared.2
    rw [laid.mem_layerAt] at atFirst atSecond
    omega

end QuantovaChain.Node
