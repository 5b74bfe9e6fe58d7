import Mathlib.Tactic.Common

/-!
# Trees over levels of any width

The nodes of a level are joined in pairs to make the next one. A level of odd width ends in a node
without a partner, which is joined alone. A path from a leaf has the partners on the way up, and
none where the node is alone; climbing along a path needs the width of the leaves to know where that
is.

A path that climbs to the top of a tree is the path of the tree, if the joins of the tree and those
of the climb do not collide.
-/

namespace QuantovaChain.LevelTree

/-- What is hashed to make a node. -/
inductive Join (H : Type)
  | pair (left right : H)
  | odd (only : H)
  deriving DecidableEq, Repr

variable {H : Type} (hash : Join H → H)

/-- The joins of a level. -/
def joins : List H → List (Join H)
  | [] => []
  | [only] => [.odd only]
  | left :: right :: rest => .pair left right :: joins rest

/-- The level above. -/
def above (level : List H) : List H := (joins level).map hash

theorem length_joins (level : List H) : (joins level).length = (level.length + 1) / 2 := by
  induction level using joins.induct with
  | case1 => simp [joins]
  | case2 only => simp [joins]
  | case3 left right rest hypothesis =>
    simp only [joins, List.length_cons, hypothesis]
    omega

theorem length_above (level : List H) : (above hash level).length = (level.length + 1) / 2 := by
  rw [above, List.length_map, length_joins]

/-- All levels, from the leaves to the top. -/
def levels (level : List H) : List (List H) :=
  if level.length ≤ 1 then [level] else level :: levels (above hash level)
termination_by level.length
decreasing_by
  rw [length_above]
  omega

/-- A node is alone at the end of a level of odd width. -/
abbrev Alone (index width : Nat) : Prop := width % 2 = 1 ∧ index = width - 1

/-- The join that a node takes part in, with its partner in hand unless it is alone. -/
def joinAt (node : H) (index width : Nat) (siblings : List H) : Option (Join H × List H) :=
  if Alone index width then some (.odd node, siblings)
  else
    match siblings with
    | [] => none
    | sibling :: rest =>
      some (if index % 2 = 0 then .pair node sibling else .pair sibling node, rest)

/-- Climbs to the top of a tree. What is left of the path comes with the top. -/
def climb (node : H) (index width : Nat) (siblings : List H) : Option (H × List H) :=
  if width ≤ 1 then some (node, siblings)
  else
    match joinAt node index width siblings with
    | none => none
    | some (join, rest) => climb (hash join) (index / 2) ((width + 1) / 2) rest
termination_by width
decreasing_by omega

/-- The joins on the way up. -/
def climbJoins (node : H) (index width : Nat) (siblings : List H) : List (Join H) :=
  if width ≤ 1 then []
  else
    match joinAt node index width siblings with
    | none => []
    | some (join, rest) => join :: climbJoins (hash join) (index / 2) ((width + 1) / 2) rest
termination_by width
decreasing_by omega

/-- All joins of a tree. -/
def treeJoins (level : List H) : List (Join H) :=
  if level.length ≤ 1 then [] else joins level ++ treeJoins (above hash level)
termination_by level.length
decreasing_by
  rw [length_above]
  omega

/-- The partner of a node, unless it is alone. -/
def partner (level : List H) (index : Nat) : List H :=
  if Alone index level.length then []
  else if index % 2 = 0 then level[index + 1]?.toList
  else level[index - 1]?.toList

/-- The path of a leaf. -/
def path (level : List H) (index : Nat) : List H :=
  if level.length ≤ 1 then []
  else partner level index ++ path (above hash level) (index / 2)
termination_by level.length
decreasing_by
  rw [length_above]
  omega

theorem length_partner_le (level : List H) (index : Nat) : (partner level index).length ≤ 1 := by
  unfold partner
  split
  · exact Nat.zero_le 1
  · split <;> exact Option.length_toList_le

/-- A path is no longer than its level is wide. -/
theorem length_path_le (level : List H) (index : Nat) :
    (path hash level index).length ≤ level.length := by
  fun_induction path hash level index with
  | case1 level index narrow => exact Nat.zero_le _
  | case2 level index wide hypothesis =>
    have one := length_partner_le level index
    rw [length_above] at hypothesis
    rw [List.length_append]
    omega

/-- The top of a tree. -/
def top (level : List H) : Option H :=
  if level.length ≤ 1 then level.head? else top (above hash level)
termination_by level.length
decreasing_by
  rw [length_above]
  omega

/-! ## One level -/

theorem getElem?_joins (level : List H) (place : Nat) :
    (joins level)[place]? = level[2 * place]?.map fun left =>
      match level[2 * place + 1]? with
      | some right => .pair left right
      | none => .odd left := by
  induction level using joins.induct generalizing place with
  | case1 => simp [joins]
  | case2 only => cases place <;> simp [joins]
  | case3 left right rest hypothesis =>
    cases place with
    | zero => simp [joins]
    | succ place =>
      rw [joins, List.getElem?_cons_succ, hypothesis place,
        show 2 * (place + 1) = 2 * place + 1 + 1 by omega, List.getElem?_cons_succ,
        List.getElem?_cons_succ, List.getElem?_cons_succ, List.getElem?_cons_succ]

section Level

variable {level : List H} {index : Nat} {node : H}

theorem joinAt_alone {width : Nat} (alone : Alone index width) (siblings : List H) :
    joinAt node index width siblings = some (.odd node, siblings) := by
  unfold joinAt
  rw [if_pos alone]

theorem joinAt_nil {width : Nat} (paired : ¬Alone index width) :
    joinAt node index width [] = none := by
  unfold joinAt
  rw [if_neg paired]

theorem joinAt_cons {width : Nat} (paired : ¬Alone index width) (sibling : H) (rest : List H) :
    joinAt node index width (sibling :: rest) =
      some (if index % 2 = 0 then .pair node sibling else .pair sibling node, rest) := by
  unfold joinAt
  rw [if_neg paired]

section

variable (there : level[index]? = some node)

include there

theorem join_alone (alone : Alone index level.length) :
    (joins level)[index / 2]? = some (.odd node) := by
  have last : level[2 * (index / 2) + 1]? = none := by
    rw [List.getElem?_eq_none_iff]
    omega
  rw [getElem?_joins, last, show 2 * (index / 2) = index by omega, there]
  rfl

/-- The join of a node that has a partner. -/
theorem join_partner (paired : ¬Alone index level.length) :
    ∃ other, partner level index = [other] ∧ (joins level)[index / 2]? =
      some (if index % 2 = 0 then .pair node other else .pair other node) := by
  have inside : index < level.length := (List.getElem?_eq_some_iff.mp there).1
  by_cases even : index % 2 = 0
  · have next : index + 1 < level.length := by omega
    refine ⟨level[index + 1], ?_, ?_⟩
    · rw [partner, if_neg paired, if_pos even, List.getElem?_eq_getElem next]
      rfl
    · rw [getElem?_joins, show 2 * (index / 2) = index by omega, there,
        List.getElem?_eq_getElem next, if_pos even]
      rfl
  · have before : index - 1 < level.length := by omega
    refine ⟨level[index - 1], ?_, ?_⟩
    · rw [partner, if_neg paired, if_neg even, List.getElem?_eq_getElem before]
      rfl
    · rw [getElem?_joins, show 2 * (index / 2) = index - 1 by omega,
        show index - 1 + 1 = index by omega, there, List.getElem?_eq_getElem before, if_neg even]
      rfl

/-- A node and its partner are joined to the node above. -/
theorem joinAt_partner :
    ∃ join, (joins level)[index / 2]? = some join ∧ ∀ rest,
      joinAt node index level.length (partner level index ++ rest) = some (join, rest) := by
  by_cases alone : Alone index level.length
  · refine ⟨_, join_alone there alone, fun rest => ?_⟩
    rw [joinAt_alone alone, partner, if_pos alone, List.nil_append]
  · obtain ⟨other, beside, joined⟩ := join_partner there alone
    refine ⟨_, joined, fun rest => ?_⟩
    rw [beside]
    exact joinAt_cons alone other rest

/-- What is joined to the node above is the node and its partner. -/
theorem joinAt_inj {node' : H} {siblings rest : List H} {join : Join H}
    (above : (joins level)[index / 2]? = some join)
    (joined : joinAt node' index level.length siblings = some (join, rest)) :
    node' = node ∧ siblings = partner level index ++ rest := by
  by_cases alone : Alone index level.length
  · rw [join_alone there alone, Option.some.injEq] at above
    rw [joinAt_alone alone, ← above, Option.some.injEq, Prod.mk.injEq, Join.odd.injEq] at joined
    rw [partner, if_pos alone]
    exact joined
  · obtain ⟨other, beside, expected⟩ := join_partner there alone
    rw [expected, Option.some.injEq] at above
    cases siblings with
    | nil =>
      rw [joinAt_nil alone] at joined
      cases joined
    | cons sibling others =>
      rw [joinAt_cons alone, ← above, Option.some.injEq, Prod.mk.injEq] at joined
      obtain ⟨same, rfl⟩ := joined
      rw [beside]
      split at same
      · rw [Join.pair.injEq] at same
        exact ⟨same.1, by rw [same.2]; rfl⟩
      · rw [Join.pair.injEq] at same
        exact ⟨same.2, by rw [same.1]; rfl⟩

end

end Level

/-! ## Whole trees -/

/-- A leaf climbs along its path to the top. -/
theorem climb_path (level : List H) {index : Nat} {node : H} (there : level[index]? = some node) :
    ∃ peak, top hash level = some peak ∧
      climb hash node index level.length (path hash level index) = some (peak, []) := by
  induction level using levels.induct hash generalizing index node with
  | case1 level narrow =>
    have inside : index < level.length := (List.getElem?_eq_some_iff.mp there).1
    obtain rfl : index = 0 := by omega
    refine ⟨node, ?_, ?_⟩
    · rw [top, if_pos narrow, List.head?_eq_getElem?, there]
    · rw [climb, if_pos narrow, path, if_pos narrow]
  | case2 level wide hypothesis =>
    obtain ⟨join, found, joined⟩ := joinAt_partner there
    have higher : (above hash level)[index / 2]? = some (hash join) := by
      rw [above, List.getElem?_map, found]
      rfl
    obtain ⟨peak, reached, climbed⟩ := hypothesis higher
    refine ⟨peak, ?_, ?_⟩
    · rw [top, if_neg wide]
      exact reached
    · rw [climb, if_neg wide, path, if_neg wide, joined]
      rw [length_above] at climbed
      exact climbed

/-- Whatever climbs to the top of a tree is a leaf of it along its path. -/
theorem climb_sound (level : List H) {index : Nat} {node peak : H} {siblings : List H}
    (inside : index < level.length) (reached : top hash level = some peak)
    (climbed : climb hash node index level.length siblings = some (peak, []))
    (apart : ∀ ours ∈ treeJoins hash level, ∀ theirs ∈ climbJoins hash node index level.length siblings,
      hash ours = hash theirs → ours = theirs) :
    level[index]? = some node ∧ siblings = path hash level index := by
  induction level using levels.induct hash generalizing index node siblings with
  | case1 level narrow =>
    obtain rfl : index = 0 := by omega
    rw [top, if_pos narrow, List.head?_eq_getElem?] at reached
    rw [climb, if_pos narrow, Option.some.injEq, Prod.mk.injEq] at climbed
    obtain ⟨rfl, rfl⟩ := climbed
    rw [path, if_pos narrow]
    exact ⟨reached, rfl⟩
  | case2 level wide hypothesis =>
    rw [top, if_neg wide] at reached
    rw [climb, if_neg wide] at climbed
    rw [treeJoins, if_neg wide, climbJoins, if_neg wide] at apart
    cases joined : joinAt node index level.length siblings with
    | none =>
      rw [joined] at climbed
      cases climbed
    | some step =>
      obtain ⟨join, rest⟩ := step
      rw [joined] at climbed apart
      have upper : index / 2 < (above hash level).length := by
        rw [length_above]
        omega
      rw [← length_above hash level] at climbed apart
      obtain ⟨same, along⟩ := hypothesis upper reached climbed fun ours inTree theirs inClimb =>
        apart ours (List.mem_append_right _ inTree) theirs (List.mem_cons_of_mem _ inClimb)
      rw [above, List.getElem?_map, Option.map_eq_some_iff] at same
      obtain ⟨ours, found, equal⟩ := same
      obtain rfl : ours = join := apart ours
        (List.mem_append_left _ (List.mem_of_getElem? found)) join List.mem_cons_self equal
      obtain ⟨leaf, beside⟩ := joinAt_inj (List.getElem?_eq_getElem inside) found joined
      rw [path, if_neg wide, ← along]
      exact ⟨by rw [leaf, List.getElem?_eq_getElem inside], beside⟩

/-! ## Trees with one top -/

theorem joins_inj {first second : List H} (same : joins first = joins second) : first = second := by
  induction first using joins.induct generalizing second with
  | case1 =>
    cases second using joins.induct with
    | case1 => rfl
    | case2 only => cases same
    | case3 left right rest _ => cases same
  | case2 only =>
    cases second using joins.induct with
    | case1 => cases same
    | case2 other =>
      cases same
      rfl
    | case3 left right rest _ => cases same
  | case3 left right rest hypothesis =>
    cases second using joins.induct with
    | case1 => cases same
    | case2 only => cases same
    | case3 left' right' rest' _ =>
      simp only [joins, List.cons.injEq, Join.pair.injEq] at same
      obtain ⟨⟨rfl, rfl⟩, later⟩ := same
      rw [hypothesis later]

theorem top_wide {level : List H} (wide : ¬level.length ≤ 1) :
    top hash level = top hash (above hash level) := by
  rw [top, if_neg wide]

theorem treeJoins_wide {level : List H} (wide : ¬level.length ≤ 1) :
    treeJoins hash level = joins level ++ treeJoins hash (above hash level) := by
  rw [treeJoins, if_neg wide]

/-- Trees of one width with one top have the same leaves, if their joins do not collide. -/
theorem top_inj {first second : List H} (width : first.length = second.length)
    (reached : top hash first = top hash second)
    (free : ∀ ours ∈ treeJoins hash first, ∀ theirs ∈ treeJoins hash second,
      hash ours = hash theirs → ours = theirs) : first = second := by
  induction first using treeJoins.induct hash generalizing second with
  | case1 level narrow =>
    have narrow' : second.length ≤ 1 := width ▸ narrow
    rw [top, if_pos narrow, top, if_pos narrow'] at reached
    match level, second with
    | [], [] => rfl
    | [only], [other] =>
      cases reached
      rfl
  | case2 level wide hypothesis =>
    have wide' : ¬second.length ≤ 1 := width ▸ wide
    rw [top_wide hash wide, top_wide hash wide'] at reached
    rw [treeJoins_wide hash wide, treeJoins_wide hash wide'] at free
    have levels : above hash level = above hash second := by
      refine hypothesis ?_ reached ?_
      · rw [length_above, length_above, width]
      · intro ours inOurs theirs inTheirs
        exact free ours (List.mem_append_right _ inOurs) theirs (List.mem_append_right _ inTheirs)
    apply joins_inj
    apply List.ext_getElem
    · rw [length_joins, length_joins, width]
    · intro place inFirst inSecond
      refine free _ (List.mem_append_left _ (List.getElem_mem inFirst)) _
        (List.mem_append_left _ (List.getElem_mem inSecond)) ?_
      have hashed := congrArg (fun level => level[place]?) levels
      simpa only [above, List.getElem?_map, List.getElem?_eq_getElem inFirst,
        List.getElem?_eq_getElem inSecond, Option.map_some, Option.some.injEq] using hashed

end QuantovaChain.LevelTree
