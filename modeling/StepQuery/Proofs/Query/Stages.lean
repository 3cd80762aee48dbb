import StepQuery.Proofs.Attempt
import StepQuery.Query.OfPipeline

/-!
What the stages of a step can be.  The stages of an operation read no other collection; whatever
stages a step gives, the conjunctions they match on are made of documents.
-/

namespace StepQuery

namespace Term

/-- Whether a term is a document. -/
def isDocument : Term → Bool
  | .document _ => true
  | _ => false

def isArray : Term → Bool
  | .array _ => true
  | _ => false

end Term

namespace Stage

/-- A match document that is a conjunction demands documents only. -/
def Conjoins : List (String × Term) → Prop
  | [("$and", .array parts)] => ∀ part ∈ parts, part.isDocument
  | _ => True

/-- A stage whose match document, if it has one, demands documents only. -/
def Regular : Stage → Prop
  | .matching condition => Conjoins condition
  | _ => True

/-- A regular stage that looks at no other collection. -/
def Plain : Stage → Prop
  | .lookup .. => False
  | stage => stage.Regular

/-- A stage of the kind its document calls for: what is written by hand is no match on a document. -/
def Proper : Stage → Prop
  | .custom fields => ∀ condition, fields ≠ [("$match", .document condition)]
  | _ => True

theorem Plain.regular {stage : Stage} (plain : stage.Plain) : stage.Regular := by
  cases stage with
  | lookup => trivial
  | _ => exact plain

section Kinds

variable (fields : List (String × Term))

@[simp]
theorem plain_matching : Plain (.matching fields) ↔ Conjoins fields := Iff.rfl

@[simp]
theorem plain_addFields : Plain (.addFields fields) := trivial

@[simp]
theorem plain_project : Plain (.project fields) := trivial

@[simp]
theorem plain_group : Plain (.group fields) := trivial

@[simp]
theorem plain_sort (keys : List (String × Int)) : Plain (.sort keys) := trivial

@[simp]
theorem plain_unwind (argument : Term) : Plain (.unwind argument) := trivial

@[simp]
theorem plain_replaceRoot (root : Term) : Plain (.replaceRoot root) := trivial

@[simp]
theorem plain_custom : Plain (.custom fields) := trivial

@[simp]
theorem proper_matching : Proper (.matching fields) := trivial

@[simp]
theorem proper_addFields : Proper (.addFields fields) := trivial

@[simp]
theorem proper_project : Proper (.project fields) := trivial

@[simp]
theorem proper_group : Proper (.group fields) := trivial

@[simp]
theorem proper_sort (keys : List (String × Int)) : Proper (.sort keys) := trivial

@[simp]
theorem proper_unwind (argument : Term) : Proper (.unwind argument) := trivial

@[simp]
theorem proper_replaceRoot (root : Term) : Proper (.replaceRoot root) := trivial

end Kinds

/-- Stages that are read from documents are proper. -/
theorem proper_ofFields (fields : List (String × Term)) : (ofFields fields).Proper := by
  unfold ofFields
  split
  next => trivial
  next fields other => exact other

theorem conjoins_single {name : String} {term : Term} (single : term.isArray = false) :
    Conjoins [(name, term)] := by
  unfold Conjoins
  split
  next same =>
    cases same
    cases single
  next => trivial

theorem isDocument_of_conjuncts {condition : List (String × Term)} (conjoins : Conjoins condition) :
    ∀ part ∈ conjuncts condition, part.isDocument := by
  unfold conjuncts
  split
  next => exact conjoins
  next => simp [Term.isDocument]

/-- Any other stage ends a run of match stages. -/
theorem simplifyFrom_cons {stage : Stage} (other : ¬∃ condition, stage = .matching condition)
    (run : List Term) (rest : List Stage) :
    simplifyFrom run (stage :: rest) = merged run ++ stage :: simplifyFrom [] rest := by
  rw [simplifyFrom]
  exact fun condition same => other ⟨condition, same⟩

end Stage

namespace Condition

theorem isArray_of_comparisonMatch {comparison : Comparison} {document : List (String × Term)}
    (returned : comparisonMatch comparison = .ok document) :
    ∃ term, document = [(comparison.column, term)] ∧ term.isArray = false := by
  unfold comparisonMatch at returned
  dsimp only at returned
  split at returned
  case h_6 =>
    split at returned
    · cases returned
    · split at returned <;> cases returned
      exact ⟨_, rfl, rfl⟩
  all_goals
    cases returned
    exact ⟨_, rfl, rfl⟩

theorem isDocument_of_toMatches {children : List Condition} {parts : List Term}
    (returned : toMatches children = .ok parts) : ∀ part ∈ parts, part.isDocument := by
  induction children generalizing parts with
  | nil =>
    rw [toMatches] at returned
    cases returned
    simp
  | cons child rest inductionHypothesis =>
    rw [toMatches] at returned
    obtain ⟨first, _, returned⟩ := Attempt.bind_eq_ok.mp returned
    obtain ⟨others, later, returned⟩ := Attempt.bind_eq_ok.mp returned
    cases returned
    exact List.forall_mem_cons.mpr ⟨rfl, inductionHypothesis later⟩

/-- The document of a condition is a conjunction only where the condition is one. -/
theorem conjoins_of_toMatch {condition : Condition} {document : List (String × Term)}
    (returned : condition.toMatch = .ok document) : Stage.Conjoins document := by
  cases condition with
  | absent => cases returned
  | simple comparison =>
    rw [toMatch] at returned
    obtain ⟨term, rfl, single⟩ := isArray_of_comparisonMatch returned
    exact Stage.conjoins_single single
  | all children =>
    rw [toMatch] at returned
    obtain ⟨parts, matched, returned⟩ := Attempt.bind_eq_ok.mp returned
    cases returned
    exact isDocument_of_toMatches matched
  | any children =>
    rw [toMatch] at returned
    obtain ⟨parts, matched, returned⟩ := Attempt.bind_eq_ok.mp returned
    cases returned
    trivial

end Condition

namespace Staging

theorem proper_customStage (fields : List (String × Value)) : (customStage fields).Proper := by
  intro condition same
  obtain ⟨field, _, constant⟩ := List.map_eq_singleton_iff.mp same
  simp at constant

theorem crafted_customStages {index : Nat} {items : List Value} {stages : List Stage}
    (returned : customStages index items = .ok stages) : ∀ stage ∈ stages, stage.Plain ∧ stage.Proper := by
  fun_induction customStages index items generalizing stages with
  | case1 =>
    cases returned
    simp
  | case2 index fields rest inductionHypothesis =>
    obtain ⟨others, later, returned⟩ := Attempt.bind_eq_ok.mp returned
    cases returned
    exact List.forall_mem_cons.mpr
      ⟨⟨Stage.plain_custom _, proper_customStage fields⟩, inductionHypothesis later⟩
  | case3 => cases returned

theorem crafted_customQuery {query : Value} {stages : List Stage}
    (returned : custom query = .ok stages) : ∀ stage ∈ stages, stage.Plain ∧ stage.Proper := by
  unfold custom at returned
  split at returned
  next fields =>
    cases returned
    exact List.forall_mem_singleton.mpr ⟨Stage.plain_custom _, proper_customStage fields⟩
  next items => exact crafted_customStages returned
  next => cases returned

section Granted

variable {backend : Backend} {stages : List Stage}

theorem require_eq_ok {feature : Feature} {what : String} {granted : Unit} :
    backend.require feature what = .ok granted ↔ backend.supports feature = true := by
  unfold Backend.require
  split <;> simp_all

/-- New columns are given for all parts of a date or for none. -/
theorem dateExtract_eq_ok {column : String} {parts newColumns : List String} :
    dateExtract column parts newColumns = .ok stages ↔
      (newColumns = [] ∨ newColumns.length = parts.length) ∧
        ∃ fields, dateFields column parts newColumns = .ok fields ∧
          [.addFields (Fields.ofList fields)] = stages := by
  unfold dateExtract
  split
  next unequal =>
    have refused : ¬(newColumns = [] ∨ newColumns.length = parts.length) := by
      simpa using unequal
    simp [Attempt.fail_ne_ok, refused]
  next equal =>
    have given : newColumns = [] ∨ newColumns.length = parts.length := by
      simpa [Decidable.or_iff_not_imp_left] using equal
    simp only [Attempt.bind_eq_ok, Attempt.pure_eq_ok, Except.ok.injEq, given, true_and]

theorem toDate_eq_ok {column format : String} :
    toDate backend column format = .ok stages ↔
      (format = "" ∨ backend.supports .dateFormat = true) ∧
        setColumn column (Term.apply "$dateFromString" (Term.fields
          (("dateString", Term.column column) ::
            if format = "" then [] else [("format", Term.text format)]))) = stages := by
  by_cases plain : format = ""
  · simp [toDate, plain, Attempt.pure_eq_ok]
  · simp only [toDate, beq_iff_eq, plain, if_false, false_or, Attempt.bind_eq_ok, require_eq_ok,
      exists_const, Attempt.pure_eq_ok, Except.ok.injEq, List.singleton_append]

theorem substring_eq_ok {column newColumn : String} {first last : Int} :
    substring column first last newColumn = .ok stages ↔
      (first ≠ 0 ∧ last ≠ 0) ∧
        setColumn (if newColumn = "" then column ++ "_SUBSTR" else newColumn)
          (Term.call "$substrCP" [Term.column column,
            substringStart (Term.apply "$strLenCP" (Term.column column)) first,
            substringCount (Term.apply "$strLenCP" (Term.column column)) first last]) = stages := by
  unfold substring
  split
  next zero =>
    have refused : ¬(first ≠ 0 ∧ last ≠ 0) := by
      simpa [Decidable.or_iff_not_imp_left] using zero
    simp only [Attempt.fail_ne_ok, refused, false_and]
  next nonzero =>
    have given : first ≠ 0 ∧ last ≠ 0 := by simpa using nonzero
    simp [given]

theorem cumSum_eq_ok {pairs : List (String × String)} {reference : String} {groups : ColumnList} :
    cumSum pairs reference groups = .ok stages ↔
      pairs ≠ [] ∧
        [.sort [(reference, 1)],
          gather groups (pairs.map fun pair =>
            (collectedName pair.1, Term.apply "$push" (Term.column pair.1))),
          .unwind (Term.fields [("path", Term.column temporary.rows),
            ("includeArrayIndex", Term.text temporary.index)]),
          .replaceRoot (Term.call "$mergeObjects"
            [Term.column temporary.rows, .document (Fields.ofList (pairs.map cumulated))])] =
          stages := by
  unfold cumSum
  split <;> simp_all

theorem convert_eq_ok {columns : ColumnList} {dataType : String} :
    convert backend columns dataType = .ok stages ↔
      backend.supports .convert = true ∧ ∃ target, convertType? dataType = some target ∧
        [.addFields (forColumns columns fun column => Term.apply "$convert"
          (Term.fields [("input", Term.column column), ("to", Term.text target)]))] = stages := by
  simp only [convert, Attempt.bind_eq_ok, require_eq_ok]
  cases convertType? dataType <;> simp [Attempt.pure_eq_ok]

end Granted

theorem crafted_aggregate {on : ColumnList} {aggregations : List Aggregation} {keepRows : Bool}
    {stages : List Stage} (returned : aggregate on aggregations keepRows = .ok stages) :
    ∀ stage ∈ stages, stage.Plain ∧ stage.Proper := by
  obtain ⟨columns, _, returned⟩ := Attempt.bind_eq_ok.mp returned
  dsimp only at returned
  split at returned <;> cases returned <;> simp [ungroup]

/-- The stages of an operation look at no other collection, and match on plain conjunctions. -/
theorem crafted_operationStages {backend : Backend} {operation : Operation} {stages : List Stage}
    (returned : operationStages backend operation = .ok stages) :
    ∀ stage ∈ stages, stage.Plain ∧ stage.Proper := by
  cases operation with
  | filter condition =>
    obtain ⟨document, matched, returned⟩ := Attempt.bind_eq_ok.mp returned
    cases returned
    simpa using Condition.conjoins_of_toMatch matched
  | custom query => exact crafted_customQuery returned
  | aggregate on aggregations keepRows => exact crafted_aggregate returned
  | formula newColumn expression =>
    obtain ⟨term, _, returned⟩ := Attempt.bind_eq_ok.mp returned
    cases returned
    simp [setColumn]
  | top groups rankOn order limit =>
    obtain ⟨number, _, returned⟩ := Attempt.bind_eq_ok.mp returned
    cases returned
    simp [top, gather]
  | ifThenElse newColumn held =>
    obtain ⟨term, _, returned⟩ := Attempt.bind_eq_ok.mp returned
    cases returned
    simp [setColumn]
  | dateExtract column parts newColumns =>
    obtain ⟨_, fields, _, rfl⟩ := dateExtract_eq_ok.mp returned
    simp
  | toDate column format =>
    obtain ⟨_, rfl⟩ := toDate_eq_ok.mp returned
    simp [setColumn]
  | substring column first last newColumn =>
    obtain ⟨_, rfl⟩ := substring_eq_ok.mp returned
    simp [setColumn]
  | trim columns =>
    obtain ⟨_, _, returned⟩ := Attempt.bind_eq_ok.mp returned
    cases returned
    simp
  | cumSum pairs reference groups =>
    obtain ⟨_, rfl⟩ := cumSum_eq_ok.mp returned
    simp [gather]
  | convert columns dataType =>
    obtain ⟨_, _, _, rfl⟩ := convert_eq_ok.mp returned
    simp
  | replace column pairs =>
    cases returned
    unfold replace
    split <;> simp [setColumn]
  | argmax column groups =>
    cases returned
    simp [extremum, gather, ungroup, Stage.Conjoins]
  | argmin column groups =>
    cases returned
    simp [extremum, gather, ungroup, Stage.Conjoins]
  | _ =>
    cases returned
    simp [setColumn, rename, uniqueGroups, percentage, gather, ungroup]

theorem plain_operationStages {backend : Backend} {operation : Operation} {stages : List Stage}
    (returned : operationStages backend operation = .ok stages) :
    ∀ stage ∈ stages, stage.Plain :=
  fun stage member => (crafted_operationStages returned stage member).1

theorem crafted_joinUnwind {type : String} {unwind : Stage} (found : joinUnwind type = .ok unwind) :
    unwind.Plain ∧ unwind.Proper := by
  unfold joinUnwind at found
  split at found <;> cases found <;> exact ⟨trivial, trivial⟩

/-- What is attached or merged is no match stage, and what is matched is no conjunction. -/
theorem crafted_append (queries : List Query) :
    ∀ stage ∈ append queries, stage.Regular ∧ stage.Proper := by
  suffices lookups : ∀ index, ∀ stage ∈ appendLookups index queries, stage.Regular ∧ stage.Proper from
    List.forall_mem_cons.mpr ⟨⟨trivial, trivial⟩, List.forall_mem_append.mpr
      ⟨lookups 0, by simp [Stage.Regular]⟩⟩
  induction queries with
  | nil => exact fun _ => nofun
  | cons query rest inductionHypothesis =>
    exact fun index => List.forall_mem_cons.mpr
      ⟨⟨trivial, trivial⟩, inductionHypothesis (index + 1)⟩

theorem crafted_join {type : String} {pairs : List (String × String)} {other : Query}
    {stages : List Stage} (returned : join type pairs other = .ok stages) :
    ∀ stage ∈ stages, stage.Regular ∧ stage.Proper := by
  obtain ⟨unwind, found, returned⟩ := Attempt.bind_eq_ok.mp returned
  cases returned
  exact List.forall_mem_cons.mpr ⟨⟨trivial, trivial⟩, List.forall_mem_cons.mpr
    ⟨(crafted_joinUnwind found).imp_left Stage.Plain.regular, by simp [Stage.Regular]⟩⟩

/-- The stages of any step match on conjunctions of documents, and where they match they are match
stages. -/
theorem crafted_stepStages {target : Target} {step : Step} {stages : List Stage}
    (returned : stepStages target step = .ok stages) :
    ∀ stage ∈ stages, stage.Regular ∧ stage.Proper := by
  cases step with
  | domain name => cases returned
  | append sources =>
    cases sources with
    | none =>
      rw [stepStages] at returned
      cases returned
      exact crafted_append []
    | some sources =>
      rw [stepStages] at returned
      obtain ⟨queries, _, returned⟩ := Attempt.bind_eq_ok.mp returned
      cases returned
      exact crafted_append queries
  | join right type on =>
    rw [stepStages] at returned
    split at returned
    next => cases returned
    next =>
      obtain ⟨other, _, returned⟩ := Attempt.bind_eq_ok.mp returned
      exact crafted_join returned
  | transform operation =>
    rw [stepStages] at returned
    exact fun stage member =>
      (crafted_operationStages returned stage member).imp_left Stage.Plain.regular

end Staging

end StepQuery
