import StepQuery.Value

/-!
The terms that queries are made of.  A constant is a value put there by the user and is kept apart
from the arrays and documents that the query itself is built with.
-/

namespace StepQuery

inductive Term where
  | constant (value : Value)
  | array (items : List Term)
  | document (fields : List (String × Term))
  /-- A document whose fields keep their order and repetition. -/
  | ordered (fields : List (String × Term))
deriving Inhabited

namespace Term

def null : Term := .constant .null

def text (value : String) : Term := .constant (.text value)

def int (value : Int) : Term := .constant (.int (Int64.ofInt value))

/-- A document of the given fields; of a repeated one the last counts. -/
def fields (entries : List (String × Term)) : Term := .document (Fields.ofList entries)

def apply (operator : String) (argument : Term) : Term := .document [(operator, argument)]

def call (operator : String) (arguments : List Term) : Term := apply operator (.array arguments)

def path (column : String) : String := "$" ++ column

def column (name : String) : Term := text (path name)

def root : Term := text "$$ROOT"

/-- A value that stays itself: a text that begins like a path is protected. -/
def literal (value : Value) : Term :=
  match value with
  | .text content =>
    if content.toList.head? == some '$' then apply "$literal" (.constant value)
    else .constant value
  | _ => .constant value

def cond (test consequent alternative : Term) : Term :=
  call "$cond" [test, consequent, alternative]

def branch (test result : Term) : Term := fields [("case", test), ("then", result)]

/-- The result of the first case whose test holds. -/
def switch (branches : List Term) (otherwise : Term) : Term :=
  apply "$switch" (fields [("branches", .array branches), ("default", otherwise)])

end Term

end StepQuery
