import StepQuery.Query.Term

/-!
The stages of a query.  Each stage takes the rows of the one before; a lookup runs stages of its own
on another collection.
-/

namespace StepQuery

inductive Stage where
  /-- Keep the rows that satisfy a document. -/
  | matching (condition : List (String × Term))
  | addFields (fields : List (String × Term))
  | project (fields : List (String × Term))
  /-- Gather rows; the fields say by what and what becomes of them. -/
  | group (fields : List (String × Term))
  | sort (keys : List (String × Int))
  | unwind (argument : Term)
  | replaceRoot (root : Term)
  /-- Attach the rows that stages give on another collection.  The bindings are values of the row
  that the stages may use. -/
  | lookup (source : String) (bindings : Option (List (String × Term))) (stages : List Stage)
      (target : String)
  | custom (fields : List (String × Term))

/-- A compiled pipeline: a collection and the stages to run on it. -/
structure Query where
  domain : String
  stages : List Stage

namespace Stage

/-- The stage that a document is: matching on a document, or one written by hand. -/
def ofFields : List (String × Term) → Stage
  | [("$match", .document condition)] => .matching condition
  | fields => .custom fields

mutual

def toTerm : Stage → Term
  | .matching condition => Term.apply "$match" (.document condition)
  | .addFields fields => Term.apply "$addFields" (.document fields)
  | .project fields => Term.apply "$project" (.document fields)
  | .group fields => Term.apply "$group" (.document fields)
  | .sort keys =>
    Term.apply "$sort" (.ordered (keys.map fun key => (key.1, Term.int key.2)))
  | .unwind argument => Term.apply "$unwind" argument
  | .replaceRoot root => Term.apply "$replaceRoot" (Term.apply "newRoot" root)
  | .lookup source bindings stages target =>
    let fields := [("from", Term.text source), ("pipeline", .array (toTerms stages)),
      ("as", Term.text target)]
    Term.apply "$lookup" (Term.fields (match bindings with
      | some bindings => ("let", .document bindings) :: fields
      | none => fields))
  | .custom fields => .document fields

def toTerms : List Stage → List Term
  | [] => []
  | stage :: rest => toTerm stage :: toTerms rest

end

end Stage

namespace Query

def toTerm (query : Query) : Term :=
  Term.fields [("domain", Term.text query.domain), ("pipeline", .array (Stage.toTerms query.stages))]

end Query

end StepQuery
