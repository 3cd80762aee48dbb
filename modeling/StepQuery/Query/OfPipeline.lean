import StepQuery.Query.Operation
import StepQuery.Query.Simplify

/-!
The queries of pipelines.  The first step names the collection and no other step may; the
pipelines of an append or a join become lookups.
-/

namespace StepQuery

structure Target where
  backend : Backend
  simplifies : Bool

namespace Staging

def inlineField : String := "_vqbPipelineInline"

def unionField : String := "_vqbPipelinesUnion"

def joinField : String := "_vqbJoinKey"

/-- The field that holds the rows of the appended pipeline with a number. -/
def appendedField (index : Nat) : String :=
  "_vqbPipelineToAppend_" ++ Decimal.integerText index

/-- The variable that holds the left side of the pair with a number. -/
def joinVariable (index : Nat) : String := "vqb_" ++ Decimal.integerText index

def appendLookups : (index : Nat) → List Query → List Stage
  | _, [] => []
  | index, query :: rest =>
    .lookup query.domain none query.stages (appendedField index) :: appendLookups (index + 1) rest

/-- The rows at hand followed by the rows of the appended queries. -/
def append (queries : List Query) : List Stage :=
  let arrays := Term.column inlineField ::
    (List.range queries.length).map fun index => Term.column (appendedField index)
  .group (Fields.ofList [("_id", Term.null), (inlineField, pushedRows)]) ::
    appendLookups 0 queries ++
    [.project [(unionField, Term.call "$concatArrays" arrays)],
      .unwind (Term.column unionField),
      .replaceRoot (Term.column unionField)]

/-- The pairs of a join with their variables. -/
def joinPairs (pairs : List (String × String)) : List (String × String × String) :=
  pairs.zipIdx.map fun (pair, index) => (joinVariable index, pair.1, pair.2)

/-- How the rows found by a join are put beside the row at hand. -/
def joinUnwind (type : String) : Attempt Stage :=
  match type with
  | "inner" => .ok (.unwind (Term.column joinField))
  | "left" | "left outer" =>
    .ok (.unwind (Term.fields [("path", Term.column joinField),
      ("preserveNullAndEmptyArrays", .constant (.bool true))]))
  | _ => Attempt.fail (.unknownJoin type)

/-- Every row merged with the rows of the other query that agree with it on all pairs. -/
def join (type : String) (pairs : List (String × String)) (query : Query) :
    Attempt (List Stage) := do
  let bound := joinPairs pairs
  let equalities := bound.map fun (name, _, right) =>
    Term.call "$eq" [Term.column right, Term.text ("$$" ++ name)]
  let bindings := Fields.ofList (bound.map fun (name, left, _) =>
    (name, Term.column left))
  let matched := Stage.matching [("$expr", Term.call "$and" equalities)]
  let unwind ← joinUnwind type
  return [.lookup query.domain (some bindings) (query.stages ++ [matched]) joinField, unwind,
    .replaceRoot (Term.call "$mergeObjects" [Term.column joinField, Term.root]),
    .project [(joinField, Term.int 0)]]

mutual

def query (target : Target) : List Step → Attempt Query
  | [] => Attempt.fail .emptyPipeline
  | .domain name :: rest => do
    let stages ← stepsStages target 1 rest
    return ⟨name, if target.simplifies then Stage.simplify stages else stages⟩
  | first :: _ => Attempt.fail (.missingDomain first.name)

def stepsStages (target : Target) : (index : Nat) → List Step → Attempt (List Stage)
  | _, [] => .ok []
  | index, first :: rest => do
    let found ← Attempt.inside (.stepOf index first.name) (stepStages target first)
    let others ← stepsStages target (index + 1) rest
    return found ++ others

def stepStages (target : Target) : Step → Attempt (List Stage)
  | .domain name => Attempt.fail (.misplacedDomain name)
  | .append none => .ok (append [])
  | .append (some sources) => do return append (← sourceQueries target 0 sources)
  | .join right type on =>
    match on.getD [] with
    | [] => Attempt.fail .joinWithoutPairs
    | pairs => do
      let other ← Attempt.inside .rightPipeline (sourceQuery target right)
      join type pairs other
  | .transform operation => operationStages target.backend operation

def sourceQueries (target : Target) : (index : Nat) → List Reference → Attempt (List Query)
  | _, [] => .ok []
  | index, first :: rest => do
    let found ← Attempt.inside (.appended index) (sourceQuery target first)
    let others ← sourceQueries target (index + 1) rest
    return found :: others

/-- The query of a reference; a name that is left is a collection. -/
def sourceQuery (target : Target) : Reference → Attempt Query
  | .named name => .ok ⟨name, []⟩
  | .inline steps => query target steps

end

end Staging

namespace Pipeline

/-- The query of a pipeline for a named backend; an empty name means the usual one. -/
def toQuery (pipeline : Pipeline) (backend : String) (simplifies : Bool) : Attempt Query :=
  match if backend == "" then some Backend.usual else Backend.ofName? backend with
  | some known => Staging.query ⟨known, simplifies⟩ pipeline
  | none => Attempt.fail (.unknownBackend backend)

end Pipeline

end StepQuery
