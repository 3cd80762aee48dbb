import Mathlib.Data.List.Perm.Basic
import StepQuery.Condition.Tree
import StepQuery.Proofs.Attempt

/-!
Conditions taken to the editor and back.  The editor lists the comparisons of a group before its nested
groups, so what comes back is the condition with the children of every combination moved: simple ones
first, each kind in the order it had.  Such a move keeps the truth value and the comparisons, and moves
nothing where the simple children stood first already.
-/

namespace StepQuery

namespace Condition

def isSimple : Condition → Bool
  | .simple _ => true
  | _ => false

/-- The simple conditions of a list and then the others, each in the order they had. -/
def simpleFirst (children : List Condition) : List Condition :=
  children.filter isSimple ++ children.filter fun child => !child.isSimple

mutual

/-- A condition with the simple children of every combination, at every level, moved to the front. -/
def arranged : Condition → Condition
  | .absent => .absent
  | .simple comparison => .simple comparison
  | .all children => .all (simpleFirst (arrangedAll children))
  | .any children => .any (simpleFirst (arrangedAll children))

def arrangedAll : List Condition → List Condition
  | [] => []
  | child :: rest => arranged child :: arrangedAll rest

end

mutual

/-- Every combination, at every level, lists its simple children before the others. -/
def ListsSimpleFirst : Condition → Prop
  | .absent | .simple _ => True
  | .all children | .any children =>
    children.Pairwise (fun first second => second.isSimple → first.isSimple) ∧
      AllListSimpleFirst children

def AllListSimpleFirst : List Condition → Prop
  | [] => True
  | child :: rest => ListsSimpleFirst child ∧ AllListSimpleFirst rest

end

mutual

/-- No condition is missing at any level. -/
def isWhole : Condition → Bool
  | .absent => false
  | .simple _ => true
  | .all children | .any children => areWhole children

def areWhole : List Condition → Bool
  | [] => true
  | child :: rest => isWhole child && areWhole rest

end

mutual

/-- The truth value of a condition, given that of its comparisons. -/
def truth (valuation : Comparison → Bool) : Condition → Bool
  | .absent => false
  | .simple comparison => valuation comparison
  | .all children => (truths valuation children).all id
  | .any children => (truths valuation children).any id

def truths (valuation : Comparison → Bool) : List Condition → List Bool
  | [] => []
  | child :: rest => truth valuation child :: truths valuation rest

end

section Lists

theorem arrangedAll_eq (children : List Condition) : arrangedAll children = children.map arranged := by
  induction children with
  | nil => rw [arrangedAll, List.map_nil]
  | cons child rest inductionHypothesis => rw [arrangedAll, List.map_cons, inductionHypothesis]

theorem truths_eq (valuation : Comparison → Bool) (children : List Condition) :
    truths valuation children = children.map (truth valuation) := by
  induction children with
  | nil => rw [truths, List.map_nil]
  | cons child rest inductionHypothesis => rw [truths, List.map_cons, inductionHypothesis]

theorem comparisonsOf_eq (children : List Condition) :
    comparisonsOf children = children.flatMap comparisons := by
  induction children with
  | nil => rw [comparisonsOf, List.flatMap_nil]
  | cons child rest inductionHypothesis =>
    rw [comparisonsOf, List.flatMap_cons, inductionHypothesis]

theorem simpleFirst_perm (children : List Condition) : (simpleFirst children).Perm children :=
  List.filter_append_perm isSimple children

/-- What is listed with the simple ones first stands as it would be moved. -/
theorem simpleFirst_eq_self {children : List Condition}
    (listed : children.Pairwise fun first second => second.isSimple → first.isSimple) :
    simpleFirst children = children := by
  induction children with
  | nil => rfl
  | cons child rest inductionHypothesis =>
    obtain ⟨first, later⟩ := List.pairwise_cons.mp listed
    have moved := inductionHypothesis later
    unfold simpleFirst at moved ⊢
    by_cases simple : child.isSimple = true
    · simpa [simple] using moved
    · -- Nothing simple follows, so both kinds are found where they stand.
      have none : rest.filter isSimple = [] :=
        List.filter_eq_nil_iff.mpr fun other within found => simple (first other within found)
      rw [none, List.nil_append] at moved
      simp [simple, none, moved]

theorem pairwise_simpleFirst (children : List Condition) :
    (simpleFirst children).Pairwise fun first second => second.isSimple → first.isSimple := by
  have simple : ∀ child ∈ children.filter isSimple, child.isSimple = true :=
    fun child within => (List.mem_filter.mp within).2
  have nested : ∀ child ∈ children.filter fun child => !child.isSimple, ¬child.isSimple = true :=
    fun child within => by simpa using (List.mem_filter.mp within).2
  refine List.pairwise_append.mpr ⟨?_, ?_, ?_⟩
  · exact List.pairwise_of_forall_mem_list fun first within _ _ _ => simple first within
  · exact List.pairwise_of_forall_mem_list fun _ _ second within found =>
      absurd found (nested second within)
  · exact fun first within _ _ _ => simple first within

end Lists

@[simp]
theorem isSimple_arranged (condition : Condition) : condition.arranged.isSimple = condition.isSimple := by
  cases condition <;> simp [arranged, isSimple]

/-- Moving children moves nothing exactly where every child stays as it is and the simple ones stand
first. -/
theorem simpleFirst_arrangedAll_eq_self {children : List Condition} :
    simpleFirst (arrangedAll children) = children ↔
      children.Pairwise (fun first second => second.isSimple → first.isSimple) ∧
        arrangedAll children = children := by
  constructor
  · intro same
    have listed : children.Pairwise fun first second => second.isSimple → first.isSimple :=
      same ▸ pairwise_simpleFirst (arrangedAll children)
    have arrangedListed :
        (arrangedAll children).Pairwise fun first second => second.isSimple → first.isSimple := by
      rw [arrangedAll_eq, List.pairwise_map]
      simpa only [isSimple_arranged] using listed
    exact ⟨listed, (simpleFirst_eq_self arrangedListed).symm.trans same⟩
  · rintro ⟨listed, same⟩
    rw [same, simpleFirst_eq_self listed]

mutual

theorem arranged_eq_self_iff : (condition : Condition) →
    (condition.arranged = condition ↔ condition.ListsSimpleFirst)
  | .absent | .simple _ => by simp [arranged, ListsSimpleFirst]
  | .all children | .any children => by
    simp only [arranged, ListsSimpleFirst, all.injEq, any.injEq, simpleFirst_arrangedAll_eq_self,
      arrangedAll_eq_self_iff children]

theorem arrangedAll_eq_self_iff : (children : List Condition) →
    (arrangedAll children = children ↔ AllListSimpleFirst children)
  | [] => by simp [arrangedAll, AllListSimpleFirst]
  | child :: rest => by
    rw [arrangedAll, AllListSimpleFirst, List.cons.injEq, arranged_eq_self_iff child,
      arrangedAll_eq_self_iff rest]

end

mutual

theorem truth_arranged (valuation : Comparison → Bool) : (condition : Condition) →
    condition.arranged.truth valuation = condition.truth valuation
  | .absent | .simple _ => by rw [arranged]
  | .all children => by
    rw [arranged, truth, truth, ← truths_arrangedAll valuation children, truths_eq, truths_eq]
    exact ((simpleFirst_perm _).map _).all_eq
  | .any children => by
    rw [arranged, truth, truth, ← truths_arrangedAll valuation children, truths_eq, truths_eq]
    exact ((simpleFirst_perm _).map _).any_eq

theorem truths_arrangedAll (valuation : Comparison → Bool) : (children : List Condition) →
    truths valuation (arrangedAll children) = truths valuation children
  | [] => by rw [arrangedAll]
  | child :: rest => by
    rw [arrangedAll, truths, truths, truth_arranged valuation child,
      truths_arrangedAll valuation rest]

end

mutual

theorem comparisons_arranged : (condition : Condition) →
    condition.arranged.comparisons.Perm condition.comparisons
  | .absent | .simple _ => by rw [arranged]
  | .all children | .any children => by
    rw [arranged, comparisons, comparisons]
    refine .trans ?_ (comparisonsOf_arrangedAll children)
    rw [comparisonsOf_eq, comparisonsOf_eq]
    exact (simpleFirst_perm _).flatMap_right _

theorem comparisonsOf_arrangedAll : (children : List Condition) →
    (comparisonsOf (arrangedAll children)).Perm (comparisonsOf children)
  | [] => by rw [arrangedAll]
  | child :: rest => by
    rw [arrangedAll, comparisonsOf, comparisonsOf]
    exact (comparisons_arranged child).append (comparisonsOf_arrangedAll rest)

end

end Condition

namespace Group

open Condition (arranged arrangedAll simpleFirst isSimple isWhole areWhole)

theorem leaves_some (comparisons : List Comparison) :
    leaves (comparisons.map some) = .ok (comparisons.map .simple) := by
  induction comparisons with
  | nil => rfl
  | cons comparison rest inductionHypothesis =>
    rw [List.map_cons, leaves, inductionHypothesis]
    rfl

/-- The comparisons of a group are its simple children. -/
theorem map_simple_comparisons (children : List Condition) :
    (children.filterMap comparison?).map Condition.simple =
      (arrangedAll children).filter isSimple := by
  induction children with
  | nil => rw [arrangedAll]; rfl
  | cons child rest inductionHypothesis =>
    rw [arrangedAll]
    cases child <;>
      simp [List.filterMap_cons, List.filter_cons, comparison?, arranged, isSimple,
        inductionHypothesis]

mutual

theorem toCondition_ofCondition : (condition : Condition) → condition.isWhole →
    (ofCondition condition).toCondition = .ok condition.arranged
  | .absent, whole => by cases whole
  | .simple comparison, _ => by
    rw [ofCondition, toCondition, arranged, conditionsOf]
    rfl
  | .all children, whole => by
    rw [isWhole] at whole
    rw [ofCondition, toCondition, leaves_some, conditionsOf_groupsOf 0 children whole,
      map_simple_comparisons, arranged, simpleFirst]
    rfl
  | .any children, whole => by
    rw [isWhole] at whole
    rw [ofCondition, toCondition, leaves_some, conditionsOf_groupsOf 0 children whole,
      map_simple_comparisons, arranged, simpleFirst]
    rfl

theorem conditionsOf_groupsOf : (index : Nat) → (children : List Condition) → areWhole children →
    conditionsOf index (groupsOf children) =
      .ok ((arrangedAll children).filter fun child => !child.isSimple)
  | _, [], _ => by rw [groupsOf, conditionsOf, arrangedAll]; rfl
  | index, child :: rest, whole => by
    rw [areWhole, Bool.and_eq_true] at whole
    have first := toCondition_ofCondition child whole.1
    cases child with
    | simple comparison =>
      rw [groupsOf, conditionsOf_groupsOf index rest whole.2, arrangedAll]
      simp [arranged, isSimple]
    | absent => cases whole.1
    | all children =>
      rw [groupsOf, conditionsOf, first, conditionsOf_groupsOf (index + 1) rest whole.2, arrangedAll]
      · simp [arranged, isSimple]
      · exact nofun
    | any children =>
      rw [groupsOf, conditionsOf, first, conditionsOf_groupsOf (index + 1) rest whole.2, arrangedAll]
      · simp [arranged, isSimple]
      · exact nofun

end

/-- A condition comes back from the editor with its simple children moved to the front: the same where
they stood there already, and in any case with the same truth value and the same comparisons. -/
theorem toCondition_ofCondition_arranged (condition : Condition) (whole : condition.isWhole) :
    (ofCondition condition).toCondition = .ok condition.arranged ∧
      (condition.arranged = condition ↔ condition.ListsSimpleFirst) ∧
      (∀ valuation, condition.arranged.truth valuation = condition.truth valuation) ∧
      condition.arranged.comparisons.Perm condition.comparisons :=
  ⟨toCondition_ofCondition condition whole, condition.arranged_eq_self_iff,
    fun valuation => condition.truth_arranged valuation, condition.comparisons_arranged⟩

/-- A condition with simple children behind combinations on two levels, and with empty combinations. -/
def shuffled : Condition :=
  .all [.any [.all [], .simple ⟨"age", "ge", .int 18⟩], .simple ⟨"city", "eq", .text "Paris"⟩,
    .any [], .simple ⟨"age", "ge", .int 18⟩]

theorem toCondition_ofCondition_shuffled :
    shuffled.isWhole ∧
      (ofCondition shuffled).toCondition = .ok (.all [.simple ⟨"city", "eq", .text "Paris"⟩,
        .simple ⟨"age", "ge", .int 18⟩, .any [.simple ⟨"age", "ge", .int 18⟩, .all []], .any []]) ∧
      ¬shuffled.ListsSimpleFirst := by
  have whole : shuffled.isWhole := rfl
  obtain ⟨returned, unchanged, _, _⟩ := toCondition_ofCondition_arranged shuffled whole
  have moved : shuffled.arranged = .all [.simple ⟨"city", "eq", .text "Paris"⟩,
      .simple ⟨"age", "ge", .int 18⟩, .any [.simple ⟨"age", "ge", .int 18⟩, .all []], .any []] := rfl
  refine ⟨whole, moved ▸ returned, fun listed => ?_⟩
  have same := unchanged.mpr listed
  rw [moved] at same
  cases same

end Group

end StepQuery
