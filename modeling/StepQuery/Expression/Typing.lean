import StepQuery.Expression.Basic

/-!
Static types of expressions.  Variables are dynamic, so most mistakes show only when an expression is
evaluated; what can be told from constants alone is refused beforehand, also in a branch that is
never taken.  Functions have several signatures, and type variables stand for what is not known yet.
-/

namespace StepQuery.Expression

inductive Ty where
  | dyn
  | null
  | bool
  | int
  | uint
  | double
  | text
  | bytes
  | list (item : Ty)
  | map (key value : Ty)
  | kind
  | free (index : Nat)
deriving DecidableEq, Repr

namespace Ty

/-- Whether the first type is the second with parts made dynamic or left open. -/
def isMoreGeneral : Ty → Ty → Bool
  | .dyn, _ => true
  | .free _, _ => true
  | _, .dyn => false
  | _, .free _ => false
  | .list first, .list second => isMoreGeneral first second
  | .map key value, .map otherKey otherValue =>
    isMoreGeneral key otherKey && isMoreGeneral value otherValue
  | first, second => first == second

def moreGeneral (first second : Ty) : Ty := if isMoreGeneral first second then first else second

end Ty

/-- What is known about type variables: those from `next` on are unused. -/
structure Bindings where
  next : Nat
  bound : List (Nat × Ty)

namespace Bindings

def lookup (bindings : Bindings) (index : Nat) : Option Ty :=
  (bindings.bound.find? fun entry => entry.1 == index).map (·.2)

def bind (bindings : Bindings) (index : Nat) (type : Ty) : Bindings :=
  { bindings with bound := (index, type) :: bindings.bound }

/-- Whether a variable does not occur in a type. -/
def isFreeOf (bindings : Bindings) : (fuel : Nat) → (index : Nat) → Ty → Bool
  | 0, _, _ => false
  | fuel + 1, index, type =>
    match type with
    | .free other =>
      other != index &&
        (match bindings.lookup other with
        | some held => isFreeOf bindings fuel index held
        | none => true)
    | .list item => isFreeOf bindings fuel index item
    | .map key value => isFreeOf bindings fuel index key && isFreeOf bindings fuel index value
    | _ => true

/-- Replace the variables that are known. -/
def resolve (bindings : Bindings) : (fuel : Nat) → Ty → Ty
  | 0, type => type
  | fuel + 1, type =>
    match type with
    | .free index =>
      match bindings.lookup index with
      | some held => resolve bindings fuel held
      | none => .free index
    | .list item => .list (resolve bindings fuel item)
    | .map key value => .map (resolve bindings fuel key) (resolve bindings fuel value)
    | other => other

mutual

/-- What has to be known for a value of the first type to be taken where the second is wanted. -/
def assign : (fuel : Nat) → Bindings → (given wanted : Ty) → Option Bindings
  | 0, _, _, _ => none
  | fuel + 1, bindings, given, wanted =>
    match given, wanted with
    | _, .free index =>
      match assignVariable fuel bindings given index with
      | some found => some found
      | none =>
        match given, bindings.lookup index with
        | .free other, none => assignVariable fuel bindings (.free index) other
        | .dyn, none => some bindings
        | _, _ => none
    | .free index, _ => assignVariable fuel bindings wanted index
    | .dyn, _ => some bindings
    | _, .dyn => some bindings
    | .list item, .list wantedItem => assign fuel bindings item wantedItem
    | .map key value, .map wantedKey wantedValue => do
      let bindings ← assign fuel bindings key wantedKey
      assign fuel bindings value wantedValue
    | first, second => if first == second then some bindings else none

/-- Let a variable stand for a type, or for the more general of it and what it stands for. -/
def assignVariable : (fuel : Nat) → Bindings → Ty → (index : Nat) → Option Bindings
  | 0, _, _, _ => none
  | fuel + 1, bindings, type, index =>
    if type == .free index then some bindings
    else
      match bindings.lookup index with
      | some held =>
        if type == held then some bindings
        else do
          let bindings ← assign fuel bindings type held
          let general := Ty.moreGeneral type held
          return if bindings.isFreeOf fuel index general then bindings.bind index general
            else bindings
      | none =>
        if bindings.isFreeOf fuel index type then some (bindings.bind index type) else none

end

def assignAll (fuel : Nat) : Bindings → List Ty → List Ty → Option Bindings
  | bindings, [], [] => some bindings
  | bindings, given :: others, wanted :: rest => do
    let bindings ← assign fuel bindings given wanted
    assignAll fuel bindings others rest
  | _, _, _ => none

end Bindings

/-- The types of the arguments and of the result; the variables 0 and 1 stand for any type. -/
structure Signature where
  arguments : List Ty
  result : Ty

namespace Signature

def any : Ty := .free 0

def other : Ty := .free 1

/-- Operators on two values of one type. -/
def homogeneous (types : List Ty) : List Signature := types.map fun type => ⟨[type, type], type⟩

def comparison : List Signature :=
  [Ty.bool, .int, .uint, .double, .text, .bytes].map fun type => ⟨[type, type], .bool⟩

def conversion (result : Ty) (types : List Ty) : List Signature :=
  types.map fun type => ⟨[type], result⟩

def sizes : List Signature :=
  conversion .int [.text, .bytes, .list any, .map any other]

end Signature

open Signature in
/-- The signatures of a function, called plainly or on a receiver. -/
def signatures (function : Function) (onReceiver : Bool) : List Signature :=
  match function, onReceiver with
  | .add, false =>
    homogeneous [.int, .uint, .double, .text, .bytes] ++ [⟨[.list any, .list any], .list any⟩]
  | .subtract, false => homogeneous [.int, .uint, .double]
  | .multiply, false => homogeneous [.int, .uint, .double]
  | .divide, false => homogeneous [.int, .uint, .double]
  | .remainder, false => homogeneous [.int, .uint]
  | .negate, false => [⟨[.int], .int⟩, ⟨[.double], .double⟩]
  | .equal, false => [⟨[any, any], .bool⟩]
  | .unequal, false => [⟨[any, any], .bool⟩]
  | .less, false => comparison
  | .lessEqual, false => comparison
  | .greater, false => comparison
  | .greaterEqual, false => comparison
  | .member, false => [⟨[any, .list any], .bool⟩, ⟨[any, .map any other], .bool⟩]
  | .index, false => [⟨[.list any, .int], any⟩, ⟨[.map any other, any], other⟩]
  | .complement, false => [⟨[.bool], .bool⟩]
  | .size, _ => sizes
  | .startsWith, true => [⟨[.text, .text], .bool⟩]
  | .endsWith, true => [⟨[.text, .text], .bool⟩]
  | .contains, true => [⟨[.text, .text], .bool⟩]
  | .isMatch, _ => [⟨[.text, .text], .bool⟩]
  | .toInt, false => conversion .int [.int, .double, .text, .uint]
  | .toUint, false => conversion .uint [.uint, .double, .int, .text]
  | .toDouble, false => conversion .double [.double, .int, .text, .uint]
  | .toBool, false => conversion .bool [.bool, .text]
  | .toText, false => conversion .text [.text, .bool, .bytes, .double, .int, .uint]
  | .toBytes, false => conversion .bytes [.bytes, .text]
  | .toDyn, false => conversion .dyn [any]
  | .typeOf, false => conversion .kind [any]
  | _, _ => []

/-- The names of types, which stand for themselves. -/
def typeNames : List String :=
  ["bool", "bytes", "double", "int", "list", "map", "null_type", "string", "type", "uint"]

/-- A computation of types: what is known grows, and a mismatch ends it. -/
abbrev Typing := StateT Bindings Option

namespace Typing

def fresh : Typing Ty := do
  let bindings ← get
  set { bindings with next := bindings.next + 1 }
  return .free bindings.next

def expect (fuel : Nat) (given wanted : Ty) : Typing Unit := do
  match Bindings.assign fuel (← get) given wanted with
  | some bindings => set bindings
  | none => failure

/-- The variables of a signature under names of their own. -/
def instantiate (first : Nat) : Ty → Ty
  | .free index => .free (first + index)
  | .list item => .list (instantiate first item)
  | .map key value => .map (instantiate first key) (instantiate first value)
  | type => type

/-- The result of all signatures that take the arguments: their common result, or any. -/
def overloads (fuel : Nat) (arguments : List Ty) : List Signature → Option Ty → Typing (Option Ty)
  | [], found => return found
  | signature :: rest, found => do
    let bindings ← get
    let first := bindings.next
    let opened := { bindings with next := first + 2 }
    match Bindings.assignAll fuel opened arguments (signature.arguments.map (instantiate first)) with
    | none => overloads fuel arguments rest found
    | some bindings => do
      set bindings
      let result := bindings.resolve fuel (instantiate first signature.result)
      let combined := match found with
        | none => result
        | some known => if known == .dyn || known == result then known else .dyn
      overloads fuel arguments rest (some combined)

def call (fuel : Nat) (arguments : List Ty) (candidates : List Signature) : Typing Ty := do
  match ← overloads fuel arguments candidates none with
  | some result => return result
  | none => failure

/-- The type of a collection that holds both: the more general one, or any. -/
def join (fuel : Nat) (known : Option Ty) (type : Ty) : Typing Ty := do
  match known with
  | none => return type
  | some previous =>
    match Bindings.assign fuel (← get) previous type with
    | some bindings => do
      set bindings
      return Ty.moreGeneral previous type
    | none => return .dyn

/-- The type of what a range runs through. -/
def itemOf (fuel : Nat) (range : Ty) : Typing Ty := do
  match (← get).resolve fuel range with
  | .list item => return item
  | .map key _ => return key
  | .dyn => return .dyn
  | .free index => do
    expect fuel .dyn (.free index)
    return .dyn
  | _ => failure

def fieldOf (fuel : Nat) (operand : Ty) : Typing Ty := do
  match (← get).resolve fuel operand with
  | .map _ value => return value
  | .dyn => return .dyn
  | .free index => do
    expect fuel .dyn (.free index)
    return .dyn
  | _ => failure

def constant : Constant → Ty
  | .null => .null
  | .bool _ => .bool
  | .int _ => .int
  | .uint _ => .uint
  | .double _ => .double
  | .text _ => .text
  | .bytes _ => .bytes

def variableType (names : List (String × Ty)) (word : String) : Typing Ty :=
  match names.find? fun entry => entry.1 == word with
  | some entry => return entry.2
  | none => if typeNames.contains word then return .kind else failure

mutual

/-- The type of an expression under the types of the names in it. -/
def infer (fuel : Nat) : (names : List (String × Ty)) → Expression → Typing Ty
  | _, .constant held => return constant held
  | names, .name word => variableType names word
  | names, .select operand _ => do fieldOf fuel (← infer fuel names operand)
  | names, .has operand _ => do
    let _ ← fieldOf fuel (← infer fuel names operand)
    return .bool
  | names, .both left right => do
    let left ← infer fuel names left
    let right ← infer fuel names right
    call fuel [left, right] [⟨[.bool, .bool], .bool⟩]
  | names, .either left right => do
    let left ← infer fuel names left
    let right ← infer fuel names right
    call fuel [left, right] [⟨[.bool, .bool], .bool⟩]
  | names, .choose test consequent alternative => do
    let test ← infer fuel names test
    let consequent ← infer fuel names consequent
    let alternative ← infer fuel names alternative
    call fuel [test, consequent, alternative]
      [⟨[.bool, Signature.any, Signature.any], Signature.any⟩]
  | names, .apply function onReceiver arguments => do
    let types ← inferAll fuel names arguments
    call fuel types (signatures function onReceiver)
  | names, .list items => do
    match ← inferJoined fuel names items none with
    | some item => return .list item
    | none => return .list (← fresh)
  | names, .map entries => do
    match ← inferEntries fuel names entries none with
    | some (key, held) => return .map key held
    | none => return .map (← fresh) (← fresh)
  | names, .quantified _ range bound test => do
    let item ← itemOf fuel (← infer fuel names range)
    expect fuel (← infer fuel ((bound, item) :: names) test) .bool
    return .bool
  | names, .filtered range bound test => do
    let item ← itemOf fuel (← infer fuel names range)
    expect fuel (← infer fuel ((bound, item) :: names) test) .bool
    return .list item
  | names, .mapped range bound held => do
    let item ← itemOf fuel (← infer fuel names range)
    return .list (← infer fuel ((bound, item) :: names) held)
  | names, .selected range bound test held => do
    let item ← itemOf fuel (← infer fuel names range)
    expect fuel (← infer fuel ((bound, item) :: names) test) .bool
    return .list (← infer fuel ((bound, item) :: names) held)

def inferAll (fuel : Nat) (names : List (String × Ty)) : List Expression → Typing (List Ty)
  | [] => return []
  | first :: rest => do
    let found ← infer fuel names first
    let others ← inferAll fuel names rest
    return found :: others

def inferJoined (fuel : Nat) (names : List (String × Ty)) :
    List Expression → Option Ty → Typing (Option Ty)
  | [], known => return known
  | first :: rest, known => do
    let found ← infer fuel names first
    let joined ← join fuel known found
    inferJoined fuel names rest (some joined)

def inferEntries (fuel : Nat) (names : List (String × Ty)) :
    List (Expression × Expression) → Option (Ty × Ty) → Typing (Option (Ty × Ty))
  | [], known => return known
  | (key, held) :: rest, known => do
    let keyType ← infer fuel names key
    let keyJoined ← join fuel (known.map (·.1)) keyType
    let heldType ← infer fuel names held
    let heldJoined ← join fuel (known.map (·.2)) heldType
    inferEntries fuel names rest (some (keyJoined, heldJoined))

end

end Typing

/-- Whether an expression has a type when the given names are variables. -/
def isWellTyped (fuel : Nat) (names : List String) (expression : Expression) : Bool :=
  ((Typing.infer fuel (names.map fun word => (word, Ty.dyn)) expression).run ⟨0, []⟩).isSome

end StepQuery.Expression
