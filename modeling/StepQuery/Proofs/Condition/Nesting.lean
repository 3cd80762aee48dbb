import Mathlib.Data.List.Forall2
import StepQuery.Proofs.Condition.Editing

/-!
Trees of groups that are conditions.  A tree is refused exactly where one of its groups, at any level,
is malformed in itself, whatever the groups around it look like, and always for being malformed.  A
tree that is accepted is as deep as the combinations of its condition are nested.
-/

namespace StepQuery

namespace Condition

mutual

/-- How many combinations of a condition are nested in each other at most. -/
def nesting : Condition → Nat
  | .absent | .simple _ => 0
  | .all children | .any children => 1 + nestingOf children

def nestingOf : List Condition → Nat
  | [] => 0
  | child :: rest => max (nesting child) (nestingOf rest)

end

/-- Comparisons listed before other conditions nest nothing. -/
theorem nestingOf_simple_append (comparisons : List Comparison) (others : List Condition) :
    nestingOf (comparisons.map .simple ++ others) = nestingOf others := by
  induction comparisons with
  | nil => rfl
  | cons comparison rest inductionHypothesis =>
    rw [List.map_cons, List.cons_append, nestingOf, nesting, inductionHypothesis, Nat.zero_max]

end Condition

namespace Group

mutual

/-- A group and the groups nested in it, at every level. -/
def nodes : Group → List Group
  | .node operator comparisons groups => .node operator comparisons groups :: nodesOf groups

def nodesOf : List Group → List Group
  | [] => []
  | group :: rest => nodes group ++ nodesOf rest

end

/-- What makes a group no condition, the groups nested in it left aside. -/
def IsMalformed : Group → Prop
  | .node operator comparisons groups =>
    none ∈ comparisons ∨ operator ∉ ["and", "or", ""] ∨
      operator = "" ∧ ¬(comparisons.length = 1 ∧ groups = [])

mutual

/-- What passes from the groups nested in a group to the group itself is true of all groups. -/
@[elab_as_elim]
theorem induction {motive : Group → Prop}
    (node : ∀ operator comparisons groups, (∀ group ∈ groups, motive group) →
      motive (.node operator comparisons groups)) : (group : Group) → motive group
  | .node operator comparisons groups =>
    node operator comparisons groups (forall_of_induction node groups)

theorem forall_of_induction {motive : Group → Prop}
    (node : ∀ operator comparisons groups, (∀ group ∈ groups, motive group) →
      motive (.node operator comparisons groups)) : (groups : List Group) →
    ∀ group ∈ groups, motive group
  | [] => nofun
  | group :: rest =>
    List.forall_mem_cons.mpr ⟨induction node group, forall_of_induction node rest⟩

end

theorem nodesOf_eq (groups : List Group) : nodesOf groups = groups.flatMap nodes := by
  induction groups with
  | nil => rw [nodesOf, List.flatMap_nil]
  | cons group rest inductionHypothesis =>
    rw [nodesOf, List.flatMap_cons, inductionHypothesis]

section Acceptance

variable {operator : String} {comparisons : List (Option Comparison)} {groups : List Group}
  {condition : Condition}

theorem leaves_eq_ok {conditions : List Condition} :
    leaves comparisons = .ok conditions ↔
      ∃ compared : List Comparison, comparisons = compared.map some ∧
        conditions = compared.map .simple := by
  constructor
  · intro read
    induction comparisons generalizing conditions with
    | nil =>
      cases read
      exact ⟨[], rfl, rfl⟩
    | cons first rest inductionHypothesis =>
      cases first with
      | none => cases read
      | some comparison =>
        obtain ⟨others, later, same⟩ := Attempt.bind_eq_ok.mp read
        cases same
        obtain ⟨compared, rfl, rfl⟩ := inductionHypothesis later
        exact ⟨comparison :: compared, rfl, rfl⟩
  · rintro ⟨compared, rfl, rfl⟩
    exact leaves_some compared

/-- Nested groups are read one by one; where a group stands does not matter. -/
theorem conditionsOf_eq_ok {index : Nat} {conditions : List Condition} :
    conditionsOf index groups = .ok conditions ↔
      List.Forall₂ (fun group condition => group.toCondition = .ok condition) groups conditions := by
  induction groups generalizing index conditions with
  | nil =>
    rw [conditionsOf, List.forall₂_nil_left_iff, Except.ok.injEq, eq_comm]
  | cons group rest inductionHypothesis =>
    rw [conditionsOf, List.forall₂_cons_left_iff, Attempt.bind_eq_ok]
    simp only [Attempt.inside_eq_ok, Attempt.bind_eq_ok, inductionHypothesis]
    constructor
    · rintro ⟨first, read, others, later, same⟩
      cases same
      exact ⟨first, others, read, later, rfl⟩
    · rintro ⟨first, others, read, later, rfl⟩
      exact ⟨first, read, others, later, rfl⟩

theorem combine_eq_ok {simple nested : List Condition} :
    combine operator simple nested = .ok condition ↔
      operator = "and" ∧ condition = .all (simple ++ nested) ∨
      operator = "or" ∧ condition = .any (simple ++ nested) ∨
      operator = "" ∧ simple = [condition] ∧ nested = [] := by
  unfold combine
  simp only [beq_iff_eq]
  split_ifs with conjunction disjunction bare
  · simp [conjunction, eq_comm (a := condition)]
  · simp [disjunction, eq_comm (a := condition)]
  · subst bare
    split <;> simp_all
  · simp [conjunction, disjunction, bare]

/-- A tree is accepted where it lists no missing comparison, its nested groups are accepted and its
operator combines them; or else it has no operator and is the one comparison that it lists. -/
theorem toCondition_eq_ok :
    toCondition (.node operator comparisons groups) = .ok condition ↔
      ∃ (compared : List Comparison) (nested : List Condition), comparisons = compared.map some ∧
        List.Forall₂ (fun group condition => group.toCondition = .ok condition) groups nested ∧
        (operator = "and" ∧ condition = .all (compared.map .simple ++ nested) ∨
          operator = "or" ∧ condition = .any (compared.map .simple ++ nested) ∨
          operator = "" ∧ compared.map .simple = [condition] ∧ nested = []) := by
  rw [toCondition]
  simp only [Attempt.bind_eq_ok, leaves_eq_ok, conditionsOf_eq_ok, combine_eq_ok]
  constructor
  · rintro ⟨_, ⟨compared, rfl, rfl⟩, nested, each, shape⟩
    exact ⟨compared, nested, rfl, each, shape⟩
  · rintro ⟨compared, nested, rfl, each, shape⟩
    exact ⟨_, ⟨compared, rfl, rfl⟩, nested, each, shape⟩

end Acceptance

theorem exists_eq_map_some {comparisons : List (Option Comparison)} (listed : none ∉ comparisons) :
    ∃ compared : List Comparison, comparisons = compared.map some := by
  induction comparisons with
  | nil => exact ⟨[], rfl⟩
  | cons first rest inductionHypothesis =>
    obtain ⟨comparison, rfl⟩ :=
      Option.ne_none_iff_exists'.mp (List.ne_of_not_mem_cons listed).symm
    obtain ⟨compared, rfl⟩ := inductionHypothesis (List.not_mem_of_not_mem_cons listed)
    exact ⟨comparison :: compared, rfl⟩

/-- A group that is well formed in itself lists comparisons, under a known operator or just a single
one. -/
theorem not_isMalformed_iff {operator : String} {comparisons : List (Option Comparison)}
    {groups : List Group} :
    ¬(node operator comparisons groups).IsMalformed ↔
      ∃ compared : List Comparison, comparisons = compared.map some ∧
        operator ∈ ["and", "or", ""] ∧
        (operator = "" → (∃ only, compared = [only]) ∧ groups = []) := by
  rw [IsMalformed]
  push Not
  constructor
  · rintro ⟨present, known, single⟩
    obtain ⟨compared, rfl⟩ := exists_eq_map_some present
    rw [List.length_map, List.length_eq_one_iff] at single
    exact ⟨compared, rfl, known, single⟩
  · rintro ⟨compared, rfl, known, single⟩
    rw [List.length_map, List.length_eq_one_iff]
    exact ⟨by simp, known, single⟩

theorem exists_forall₂_iff {groups : List Group} :
    (∃ conditions, List.Forall₂ (fun group condition => group.toCondition = .ok condition) groups
        conditions) ↔
      ∀ group ∈ groups, ∃ condition, group.toCondition = .ok condition := by
  induction groups with
  | nil => simp
  | cons group rest inductionHypothesis =>
    rw [List.forall_mem_cons, ← inductionHypothesis]
    constructor
    · rintro ⟨_, _ | ⟨read, later⟩⟩
      exact ⟨⟨_, read⟩, _, later⟩
    · rintro ⟨⟨first, read⟩, others, later⟩
      exact ⟨first :: others, .cons read later⟩

/-- A group that is well formed in itself is accepted where the groups nested in it are. -/
theorem exists_toCondition_node_iff {operator : String} {comparisons : List (Option Comparison)}
    {groups : List Group} :
    (∃ condition, (node operator comparisons groups).toCondition = .ok condition) ↔
      ¬(node operator comparisons groups).IsMalformed ∧
        ∀ group ∈ groups, ∃ condition, group.toCondition = .ok condition := by
  rw [← exists_forall₂_iff, not_isMalformed_iff]
  simp only [toCondition_eq_ok]
  constructor
  · rintro ⟨condition, compared, nested, rfl, each, shape⟩
    refine ⟨⟨compared, rfl, ?_⟩, nested, each⟩
    rcases shape with ⟨rfl, _⟩ | ⟨rfl, _⟩ | ⟨rfl, only, rfl⟩
    · exact ⟨by decide, nofun⟩
    · exact ⟨by decide, nofun⟩
    · obtain ⟨comparison, rfl, _⟩ := List.map_eq_singleton_iff.mp only
      exact ⟨by decide, fun _ => ⟨⟨comparison, rfl⟩, List.forall₂_nil_right_iff.mp each⟩⟩
  · rintro ⟨⟨compared, rfl, known, single⟩, nested, each⟩
    simp only [List.mem_cons, List.not_mem_nil, or_false] at known
    rcases known with rfl | rfl | rfl
    · exact ⟨_, compared, nested, rfl, each, .inl ⟨rfl, rfl⟩⟩
    · exact ⟨_, compared, nested, rfl, each, .inr (.inl ⟨rfl, rfl⟩)⟩
    · obtain ⟨⟨only, rfl⟩, rfl⟩ := single rfl
      exact ⟨.simple only, [only], nested, rfl, each,
        .inr (.inr ⟨rfl, rfl, List.forall₂_nil_left_iff.mp each⟩)⟩

/-- A tree is accepted exactly where none of its groups is malformed. -/
theorem exists_toCondition_iff (group : Group) :
    (∃ condition, group.toCondition = .ok condition) ↔
      ∀ node ∈ group.nodes, ¬node.IsMalformed := by
  induction group using Group.induction with
  | node operator comparisons groups inductionHypothesis =>
    rw [exists_toCondition_node_iff, nodes, List.forall_mem_cons, nodesOf_eq]
    refine and_congr_right fun _ => ?_
    simp only [List.mem_flatMap]
    constructor
    · rintro accepted node ⟨group, within, inside⟩
      exact (inductionHypothesis group within).mp (accepted group within) node inside
    · intro sound group within
      exact (inductionHypothesis group within).mpr fun node inside => sound node ⟨group, within, inside⟩

section Refusal

theorem refusesAs_leaves (comparisons : List (Option Comparison)) :
    Attempt.RefusesAs .malformedTree (leaves comparisons) := by
  induction comparisons with
  | nil => exact Attempt.refusesAs_ok
  | cons first rest inductionHypothesis =>
    cases first with
    | none => exact Attempt.refusesAs_fail rfl
    | some comparison =>
      exact Attempt.refusesAs_bind inductionHypothesis fun _ => Attempt.refusesAs_ok

theorem refusesAs_conditionsOf {groups : List Group}
    (each : ∀ group ∈ groups, Attempt.RefusesAs .malformedTree group.toCondition) (index : Nat) :
    Attempt.RefusesAs .malformedTree (conditionsOf index groups) := by
  induction groups generalizing index with
  | nil => exact Attempt.refusesAs_ok
  | cons group rest inductionHypothesis =>
    obtain ⟨first, others⟩ := List.forall_mem_cons.mp each
    rw [conditionsOf]
    refine Attempt.refusesAs_bind (Attempt.refusesAs_inside rfl first) fun _ => ?_
    exact Attempt.refusesAs_bind (inductionHypothesis others _) fun _ => Attempt.refusesAs_ok

theorem refusesAs_combine (operator : String) (simple groups : List Condition) :
    Attempt.RefusesAs .malformedTree (combine operator simple groups) := by
  unfold combine
  split_ifs
  · exact Attempt.refusesAs_ok
  · exact Attempt.refusesAs_ok
  · split
    · exact Attempt.refusesAs_ok
    · exact Attempt.refusesAs_fail rfl
  · exact Attempt.refusesAs_fail rfl

/-- A tree is refused for being malformed and for nothing else. -/
theorem refusesAs_toCondition (group : Group) :
    Attempt.RefusesAs .malformedTree group.toCondition := by
  induction group using Group.induction with
  | node operator comparisons groups inductionHypothesis =>
    rw [toCondition]
    refine Attempt.refusesAs_bind (refusesAs_leaves comparisons) fun simple => ?_
    refine Attempt.refusesAs_bind (refusesAs_conditionsOf inductionHypothesis 0) fun nested => ?_
    exact refusesAs_combine operator simple nested

end Refusal

section Depth

theorem depthOf_eq_nestingOf {groups : List Group} {conditions : List Condition}
    (each : List.Forall₂ (fun group condition => group.depth = condition.nesting) groups conditions) :
    depthOf groups = Condition.nestingOf conditions := by
  induction each with
  | nil => rw [depthOf, Condition.nestingOf]
  | cons same _ inductionHypothesis =>
    rw [depthOf, Condition.nestingOf, same, inductionHypothesis]

/-- A group without operator counts for nothing, and rightly so where it is a single comparison. -/
theorem depth_eq_nesting (group : Group) {condition : Condition}
    (read : group.toCondition = .ok condition) : group.depth = condition.nesting := by
  induction group using Group.induction generalizing condition with
  | node operator comparisons groups inductionHypothesis =>
    obtain ⟨compared, nested, rfl, each, shape⟩ := toCondition_eq_ok.mp read
    have deep : depthOf groups = Condition.nestingOf nested := by
      apply depthOf_eq_nestingOf
      exact ((List.forall₂_and_left _ _).mpr ⟨inductionHypothesis, each⟩).imp
        fun group condition ⟨same, read⟩ => same read
    rcases shape with ⟨rfl, rfl⟩ | ⟨rfl, rfl⟩ | ⟨rfl, only, rfl⟩
    · rw [depth, Condition.nesting, Condition.nestingOf_simple_append, deep]
      rfl
    · rw [depth, Condition.nesting, Condition.nestingOf_simple_append, deep]
      rfl
    · obtain ⟨comparison, rfl, rfl⟩ := List.map_eq_singleton_iff.mp only
      rfl

theorem validate_fails_iff (group : Group) :
    (∃ failure, group.validate = .error failure) ↔ deepest < group.depth := by
  unfold validate
  split <;> simp_all [Attempt.fail]

theorem refusesAs_validate (group : Group) : Attempt.RefusesAs .treeTooDeep group.validate := by
  unfold validate
  split
  · exact Attempt.refusesAs_fail rfl
  · exact Attempt.refusesAs_ok

end Depth

/-- A tree is refused exactly where one of its groups, at any level, lists a missing comparison, has an
operator that is none, or has none without being a single comparison; and it is refused as malformed.
An accepted tree is as deep as the combinations of its condition are nested, so that it does not fit in
the editor, and is refused as too deep, exactly where they are nested deeper than the editor shows. -/
theorem toCondition_fails_iff_malformed (group : Group) :
    ((∃ failure, group.toCondition = .error failure) ↔ ∃ node ∈ group.nodes, node.IsMalformed) ∧
      (∀ failure, group.toCondition = .error failure → failure.kinds = [.malformedTree]) ∧
      ∀ condition, group.toCondition = .ok condition →
        group.depth = condition.nesting ∧
          ((∃ failure, group.validate = .error failure) ↔ deepest < condition.nesting) ∧
          ∀ failure, group.validate = .error failure → failure.kinds = [.treeTooDeep] := by
  refine ⟨?_, refusesAs_toCondition group, fun condition read => ?_⟩
  · rw [Attempt.exists_error_iff, exists_toCondition_iff]
    push Not
    rfl
  · have deep := depth_eq_nesting group read
    exact ⟨deep, deep ▸ validate_fails_iff group, refusesAs_validate group⟩

/-- A group that is no condition, inside one that combines well, inside one with an unknown operator. -/
def spoiled : Group :=
  .node "xor" [some ⟨"age", "ge", .int 18⟩]
    [.node "and" [] [], .node "or" [some ⟨"city", "eq", .text "Paris"⟩] [.node "" [] []]]

/-- Three combinations in each other, the innermost behind a group without operator. -/
def towering : Group :=
  .node "and" [some ⟨"age", "ge", .int 18⟩]
    [.node "or" [] [.node "" [some ⟨"city", "eq", .text "Paris"⟩] [], .node "and" [] []]]

theorem toCondition_fails_iff_malformed_spoiled :
    (spoiled.toCondition = .error (.refusal [.group 1, .group 0] (.operatorless 0 0)) ∧
      (∃ node ∈ spoiled.nodes, node.IsMalformed) ∧
      (Failure.refusal [.group 1, .group 0] (.operatorless 0 0)).kinds = [.malformedTree]) ∧
    ∃ condition failure, towering.toCondition = .ok condition ∧ condition.nesting = 3 ∧
      towering.validate = .error failure ∧ failure.kinds = [.treeTooDeep] := by
  obtain ⟨refused, malformed, _⟩ := toCondition_fails_iff_malformed spoiled
  have broken : spoiled.toCondition =
      .error (.refusal [.group 1, .group 0] (.operatorless 0 0)) := rfl
  obtain ⟨_, _, accepted⟩ := toCondition_fails_iff_malformed towering
  have read : towering.toCondition = .ok (.all [.simple ⟨"age", "ge", .int 18⟩,
      .any [.simple ⟨"city", "eq", .text "Paris"⟩, .all []]]) := rfl
  obtain ⟨_, fails, kind⟩ := accepted _ read
  obtain ⟨failure, high⟩ := fails.mpr (by decide)
  exact ⟨⟨broken, refused.mp ⟨_, broken⟩, malformed _ broken⟩, _, failure, read, by decide, high,
    kind failure high⟩

end Group

end StepQuery
