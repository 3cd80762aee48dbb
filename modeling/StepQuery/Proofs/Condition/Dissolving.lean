import StepQuery.Proofs.Condition.Nesting

/-!
Trees of groups taken to conditions and back to the editor.  A nested group without operator is a
single comparison, and a condition does not tell it from one that the group around it lists itself: it
comes back behind those, in the order of the groups.  Everything else comes back where it was.
-/

namespace StepQuery.Group

/-- Whether a group has no operator. -/
def isBare : Group → Bool
  | .node operator _ _ => operator == ""

/-- The comparisons that a group lists itself. -/
def listed : Group → List (Option Comparison)
  | .node _ comparisons _ => comparisons

/-- The groups nested in a group, at every level. -/
def nested : Group → List Group
  | .node _ _ groups => nodesOf groups

mutual

/-- A group that has taken over what the groups without operator nested in it list, and whose other
groups, at every level, have done the same. -/
def dissolved : Group → Group
  | .node operator comparisons groups =>
    .node operator (comparisons ++ (groups.filter isBare).flatMap listed) (dissolvedAll groups)

def dissolvedAll : List Group → List Group
  | [] => []
  | group :: rest =>
    if group.isBare then dissolvedAll rest else dissolved group :: dissolvedAll rest

end

theorem dissolvedAll_eq (groups : List Group) :
    dissolvedAll groups = (groups.filter fun group => !group.isBare).map dissolved := by
  induction groups with
  | nil => rw [dissolvedAll, List.filter_nil, List.map_nil]
  | cons group rest inductionHypothesis =>
    rw [dissolvedAll, inductionHypothesis, List.filter_cons]
    cases group.isBare <;> rfl

/-- Dissolving changes every list that holds a group without operator, if only its length. -/
theorem dissolvedAll_eq_self_iff {groups : List Group} :
    dissolvedAll groups = groups ↔
      ∀ group ∈ groups, group.isBare = false ∧ group.dissolved = group := by
  rw [dissolvedAll_eq]
  constructor
  · intro same
    have whole : (groups.filter fun group => !group.isBare) = groups := by
      apply List.filter_sublist.eq_of_length
      rw [← List.length_map (f := dissolved), same]
    rw [whole] at same
    have each := List.map_eq_map_iff.mp (same.trans (List.map_id groups).symm)
    intro group within
    have kept := List.filter_eq_self.mp whole group within
    exact ⟨by simpa using kept, each group within⟩
  · intro kept
    have whole : (groups.filter fun group => !group.isBare) = groups :=
      List.filter_eq_self.mpr fun group within => by simp [(kept group within).1]
    rw [whole]
    exact (List.map_eq_map_iff.mpr fun group within => (kept group within).2).trans
      (List.map_id groups)

theorem nodes_eq (group : Group) : group.nodes = group :: group.nested := by
  cases group
  rw [nodes, nested]

/-- A tree stays as it is exactly where none of its nested groups lacks an operator. -/
theorem dissolved_eq_self_iff (group : Group) :
    group.dissolved = group ↔ ∀ inner ∈ group.nested, inner.isBare = false := by
  induction group using Group.induction with
  | node operator comparisons groups inductionHypothesis =>
    have each : dissolvedAll groups = groups ↔
        ∀ inner ∈ nodesOf groups, inner.isBare = false := by
      rw [dissolvedAll_eq_self_iff, nodesOf_eq, List.forall_mem_flatMap]
      refine forall₂_congr fun group within => ?_
      rw [inductionHypothesis group within, nodes_eq, List.forall_mem_cons]
    rw [nested, ← each, dissolved, node.injEq]
    refine ⟨fun same => same.2.2, fun same => ⟨rfl, ?_, same⟩⟩
    have operated : groups.filter isBare = [] :=
      List.filter_eq_nil_iff.mpr fun group within => by
        simp [(dissolvedAll_eq_self_iff.mp same group within).1]
    rw [operated, List.flatMap_nil, List.append_nil]

/-- A group without operator is read as the comparison it lists, every other one as a combination. -/
theorem isBare_cases {group : Group} {condition : Condition}
    (read : group.toCondition = .ok condition) :
    group.isBare = false ∧ condition.isSimple = false ∨
      group.isBare ∧ ∃ comparison, group.listed = [some comparison] ∧
        condition = .simple comparison := by
  obtain ⟨operator, comparisons, groups⟩ := group
  obtain ⟨compared, nested, rfl, -, shape⟩ := toCondition_eq_ok.mp read
  rcases shape with ⟨rfl, rfl⟩ | ⟨rfl, rfl⟩ | ⟨rfl, only, -⟩
  · exact .inl ⟨rfl, rfl⟩
  · exact .inl ⟨rfl, rfl⟩
  · obtain ⟨comparison, rfl, rfl⟩ := List.map_eq_singleton_iff.mp only
    exact .inr ⟨rfl, comparison, rfl, rfl⟩

theorem groupsOf_simple_append (comparisons : List Comparison) (others : List Condition) :
    groupsOf (comparisons.map .simple ++ others) = groupsOf others := by
  induction comparisons with
  | nil => rfl
  | cons comparison rest inductionHypothesis =>
    rw [List.map_cons, List.cons_append, groupsOf, inductionHypothesis]

theorem groupsOf_cons {condition : Condition} (combined : condition.isSimple = false)
    (others : List Condition) :
    groupsOf (condition :: others) = ofCondition condition :: groupsOf others := by
  rw [groupsOf]
  rintro comparison rfl
  cases combined

theorem comparison?_eq_none {condition : Condition} (combined : condition.isSimple = false) :
    comparison? condition = none := by
  cases condition with
  | simple comparison => cases combined
  | absent | all | any => rfl

/-- The conditions that nested groups are read as fall apart again into the comparisons of those
without operator and the groups of the others. -/
theorem groupsOf_eq_dissolvedAll {groups : List Group} {conditions : List Condition}
    (each : List.Forall₂ (fun group condition => ofCondition condition = group.dissolved ∧
      group.toCondition = .ok condition) groups conditions) :
    (conditions.filterMap comparison?).map some = (groups.filter isBare).flatMap listed ∧
      groupsOf conditions = dissolvedAll groups := by
  induction each with
  | nil => exact ⟨rfl, by rw [groupsOf, dissolvedAll]⟩
  | @cons group condition groups conditions first _ inductionHypothesis =>
    obtain ⟨loose, grouped⟩ := inductionHypothesis
    obtain ⟨returned, read⟩ := first
    rcases isBare_cases read with ⟨operated, combined⟩ | ⟨bare, comparison, lists, rfl⟩
    · rw [groupsOf_cons combined, returned, grouped, dissolvedAll,
        List.filterMap_cons_none (comparison?_eq_none combined), loose]
      simp [operated]
    · rw [groupsOf, grouped, dissolvedAll]
      simp [comparison?, bare, lists, loose]

/-- What a tree is read as comes back as the tree dissolved. -/
theorem ofCondition_eq_dissolved (group : Group) {condition : Condition}
    (read : group.toCondition = .ok condition) : ofCondition condition = group.dissolved := by
  induction group using Group.induction generalizing condition with
  | node operator comparisons groups inductionHypothesis =>
    obtain ⟨compared, conditions, rfl, each, shape⟩ := toCondition_eq_ok.mp read
    obtain ⟨loose, grouped⟩ := groupsOf_eq_dissolvedAll <|
      ((List.forall₂_and_left _ _).mpr ⟨inductionHypothesis, each⟩).imp
        fun group condition ⟨returns, accepted⟩ => ⟨returns accepted, accepted⟩
    have simple : (compared.map Condition.simple).filterMap comparison? = compared := by
      simp [List.filterMap_map, Function.comp_def, comparison?]
    rw [dissolved]
    -- Only nested groups dissolve: without operator, the tree itself stays the group that it is.
    rcases shape with ⟨rfl, rfl⟩ | ⟨rfl, rfl⟩ | ⟨rfl, only, rfl⟩
    · rw [ofCondition, List.filterMap_append, List.map_append, simple, loose,
        groupsOf_simple_append, grouped]
    · rw [ofCondition, List.filterMap_append, List.map_append, simple, loose,
        groupsOf_simple_append, grouped]
    · obtain ⟨comparison, rfl, rfl⟩ := List.map_eq_singleton_iff.mp only
      obtain rfl := List.forall₂_nil_right_iff.mp each
      rfl

theorem eq_of_isBare {group : Group} (sound : ¬group.IsMalformed) (bare : group.isBare) :
    ∃ comparison, group = .node "" [some comparison] [] := by
  obtain ⟨operator, comparisons, groups⟩ := group
  rw [isBare, beq_iff_eq] at bare
  subst bare
  obtain ⟨compared, rfl, _, single⟩ := not_isMalformed_iff.mp sound
  obtain ⟨⟨comparison, rfl⟩, rfl⟩ := single rfl
  exact ⟨comparison, rfl⟩

/-- An accepted tree comes back from its condition with every nested group without operator, at every
level, dissolved into the group around it, and so as it was exactly where there is no such group.  A
group that is dissolved is a single comparison. -/
theorem ofCondition_toCondition_dissolved (group : Group) (condition : Condition)
    (read : group.toCondition = .ok condition) :
    ofCondition condition = group.dissolved ∧
      (∀ inner ∈ group.nested, inner.isBare →
        ∃ comparison, inner = .node "" [some comparison] []) ∧
      (ofCondition condition = group ↔ ∀ inner ∈ group.nested, inner.isBare = false) := by
  have returned := ofCondition_eq_dissolved group read
  have sound := (exists_toCondition_iff group).mp ⟨condition, read⟩
  rw [nodes_eq, List.forall_mem_cons] at sound
  exact ⟨returned, fun inner within bare => eq_of_isBare (sound.2 inner within) bare,
    returned ▸ dissolved_eq_self_iff group⟩

/-- Groups without operator on two levels, between others and behind a comparison. -/
def scattered : Group :=
  .node "and" [some ⟨"age", "ge", .int 18⟩]
    [.node "" [some ⟨"city", "eq", .text "Paris"⟩] [],
      .node "or" [] [.node "" [some ⟨"age", "lt", .int 65⟩] [], .node "and" [] []],
      .node "" [some ⟨"name", "notnull", .null⟩] []]

theorem ofCondition_toCondition_scattered :
    scattered.toCondition = .ok (.all [.simple ⟨"age", "ge", .int 18⟩,
        .simple ⟨"city", "eq", .text "Paris"⟩, .any [.simple ⟨"age", "lt", .int 65⟩, .all []],
        .simple ⟨"name", "notnull", .null⟩]) ∧
      ofCondition (.all [.simple ⟨"age", "ge", .int 18⟩, .simple ⟨"city", "eq", .text "Paris"⟩,
          .any [.simple ⟨"age", "lt", .int 65⟩, .all []], .simple ⟨"name", "notnull", .null⟩]) =
        .node "and" [some ⟨"age", "ge", .int 18⟩, some ⟨"city", "eq", .text "Paris"⟩,
            some ⟨"name", "notnull", .null⟩]
          [.node "or" [some ⟨"age", "lt", .int 65⟩] [.node "and" [] []]] ∧
      scattered ≠ scattered.dissolved := by
  have read : scattered.toCondition = .ok (.all [.simple ⟨"age", "ge", .int 18⟩,
      .simple ⟨"city", "eq", .text "Paris"⟩, .any [.simple ⟨"age", "lt", .int 65⟩, .all []],
      .simple ⟨"name", "notnull", .null⟩]) := rfl
  obtain ⟨returned, _, unchanged⟩ := ofCondition_toCondition_dissolved scattered _ read
  refine ⟨read, returned, fun same => ?_⟩
  have operated := unchanged.mp (returned.trans same.symm)
  exact absurd (operated _ (List.mem_cons_self ..)) (by decide)

end StepQuery.Group
