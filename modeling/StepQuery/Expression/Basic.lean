import StepQuery.Value

/-!
The expressions of templates.  Operators and named functions are alike: both are looked up among the
signatures of a function.  Quantifiers and collections over a range bind a variable.
-/

namespace StepQuery

namespace Expression

inductive Function where
  | add
  | subtract
  | multiply
  | divide
  | remainder
  | negate
  | equal
  | unequal
  | less
  | lessEqual
  | greater
  | greaterEqual
  | member
  | index
  | complement
  | size
  | startsWith
  | endsWith
  | contains
  | isMatch
  | toInt
  | toUint
  | toDouble
  | toBool
  | toText
  | toBytes
  | toDyn
  | typeOf
deriving DecidableEq, Repr

namespace Function

def named : List (String × Function) :=
  [("size", .size), ("startsWith", .startsWith), ("endsWith", .endsWith), ("contains", .contains),
    ("matches", .isMatch), ("int", .toInt), ("uint", .toUint), ("double", .toDouble),
    ("bool", .toBool), ("string", .toText), ("bytes", .toBytes), ("dyn", .toDyn),
    ("type", .typeOf)]

def ofName? (name : String) : Option Function :=
  (named.find? fun entry => entry.1 == name).map (·.2)

end Function

inductive Quantifier where
  | all
  | exists
  | one
deriving DecidableEq, Repr

inductive Constant where
  | null
  | bool (value : Bool)
  | int (value : Int64)
  | uint (value : UInt64)
  | double (value : Float)
  | text (value : String)
  | bytes (value : List UInt8)

end Expression

open Expression in
inductive Expression where
  | constant (value : Constant)
  | name (name : String)
  | select (operand : Expression) (field : String)
  /-- Whether the operand has the field. -/
  | has (operand : Expression) (field : String)
  | both (left right : Expression)
  | either (left right : Expression)
  | choose (test consequent alternative : Expression)
  /-- A function applied to its arguments; the first one stands before the name when the call is
  `onReceiver`. -/
  | apply (function : Function) (onReceiver : Bool) (arguments : List Expression)
  | list (items : List Expression)
  | map (entries : List (Expression × Expression))
  | quantified (quantifier : Quantifier) (range : Expression) (bound : String)
      (test : Expression)
  /-- The items of a range that pass the test. -/
  | filtered (range : Expression) (bound : String) (test : Expression)
  /-- What the items of a range become. -/
  | mapped (range : Expression) (bound : String) (item : Expression)
  /-- What the items of a range that pass the test become. -/
  | selected (range : Expression) (bound : String) (test item : Expression)

end StepQuery
