import StepQuery.Query.Stage

/-!
Merging adjacent match stages.  A run of them becomes one stage that demands all of their documents;
a document that is nothing but a nonempty conjunction gives its parts.
-/

namespace StepQuery.Stage

/-- What a match document contributes to a conjunction. -/
def conjuncts : List (String × Term) → List Term
  | [("$and", .array (first :: rest))] => first :: rest
  | condition => [.document condition]

/-- The one stage for a run of conjuncts, none for an empty run. -/
def merged : List Term → List Stage
  | [] => []
  | [.document condition] => [.matching condition]
  | [single] => [.custom [("$match", single)]]
  | several => [.matching [("$and", .array several)]]

/-- Merge the match stages of a list, `run` being the conjuncts met since the last other stage. -/
def simplifyFrom : (run : List Term) → List Stage → List Stage
  | run, [] => merged run
  | run, .matching condition :: rest => simplifyFrom (run ++ conjuncts condition) rest
  | run, stage :: rest => merged run ++ stage :: simplifyFrom [] rest

def simplify (stages : List Stage) : List Stage := simplifyFrom [] stages

end StepQuery.Stage
