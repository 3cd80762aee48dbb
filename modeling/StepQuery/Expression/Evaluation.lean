import StepQuery.Expression.Reader
import StepQuery.Expression.Typing
import StepQuery.Expression.Datum
import StepQuery.Pattern.Reader

/-!
Evaluating expressions.  An expression without value is a failure that only `&&`, `||` and the
quantifiers over them can absorb: one decisive operand settles them whatever the others do.
-/

namespace StepQuery.Expression

def Constant.toDatum : Constant → Datum
  | .null => .null
  | .bool value => .bool value
  | .int value => .int value
  | .uint value => .uint value
  | .double value => .double value
  | .text value => .text value
  | .bytes value => .bytes value

/-- The truth of a value that has one. -/
def truth? : Option Datum → Option Bool
  | some (.bool value) => some value
  | _ => none

/-- Settle a question by several truths: one that equals `decisive` settles it alone, otherwise every
one of them has to be known. -/
def settle (decisive : Bool) (truths : List (Option Bool)) : Option Bool :=
  if truths.contains (some decisive) then some decisive
  else if truths.contains none then none
  else some (!decisive)

/-- What a range runs through: the items of a list or the keys of a map. -/
def runThrough? : Datum → Option (List Datum)
  | .list items => some items
  | .map entries => some (entries.map (·.1))
  | _ => none

def textTest (test : List Char → List Char → Bool) : List Datum → Option Datum
  | [.text first, .text second] => some (.bool (test first.toList second.toList))
  | _ => none

def occursIn (part : List Char) : List Char → Bool
  | [] => part.isEmpty
  | first :: rest => part.isPrefixOf (first :: rest) || occursIn part rest

/-- Whether an order is one that a comparison accepts. -/
def comparison (accepts : Ordering → Bool) : List Datum → Option Datum
  | [first, second] => (Datum.order? first second).map fun order => .bool (accepts order)
  | _ => none

def binary (operation : Datum → Datum → Option Datum) : List Datum → Option Datum
  | [first, second] => operation first second
  | _ => none

def unary (operation : Datum → Option Datum) : List Datum → Option Datum
  | [operand] => operation operand
  | _ => none

def applyFunction : Function → List Datum → Option Datum
  | .add => binary Datum.add?
  | .subtract => binary Datum.subtract?
  | .multiply => binary Datum.multiply?
  | .divide => binary Datum.divide?
  | .remainder => binary Datum.remainder?
  | .negate => unary Datum.negate?
  | .equal => binary fun first second => some (.bool (Datum.isEqual first second))
  | .unequal => binary fun first second => some (.bool (!Datum.isEqual first second))
  | .less => comparison (· == .lt)
  | .lessEqual => comparison (· != .gt)
  | .greater => comparison (· == .gt)
  | .greaterEqual => comparison (· != .lt)
  | .member => binary fun first second => (Datum.isMember? first second).map .bool
  | .index => binary Datum.index?
  | .complement => unary fun operand => (truth? (some operand)).map fun held => .bool (!held)
  | .size => unary fun operand => (Datum.size? operand).map fun n => .int (Int64.ofInt n)
  | .startsWith => textTest fun text part => part.isPrefixOf text
  | .endsWith => textTest fun text part => part.isSuffixOf text
  | .contains => textTest fun text part => occursIn part text
  | .isMatch => binary fun first second =>
    match first, second with
    | .text content, .text written =>
      (Pattern.parse? written).map fun pattern => .bool (pattern.matchesIn content)
    | _, _ => none
  | .toInt => unary Datum.toInt?
  | .toUint => unary Datum.toUint?
  | .toDouble => unary Datum.toDouble?
  | .toBool => unary Datum.toBool?
  | .toText => unary Datum.toText?
  | .toBytes => unary Datum.toBytes?
  | .toDyn => unary some
  | .typeOf => unary fun operand => some (.type operand.typeName)

/-- The items that pass their tests, every test known. -/
def passing : List (Option Bool × Option Datum) → Option (List Datum)
  | [] => some []
  | (some true, some item) :: rest => (passing rest).map (item :: ·)
  | (some false, _) :: rest => passing rest
  | _ => none

/-- All items, none of them missing. -/
def present : List (Option Datum) → Option (List Datum)
  | [] => some []
  | some item :: rest => (present rest).map (item :: ·)
  | none :: _ => none

def count (truths : List (Option Bool)) : Option Nat :=
  if truths.contains none then none else some (truths.count (some true))

/-- Write an entry of a map; an entry of the same key is replaced. -/
def setEntry (key held : Datum) : List (Datum × Datum) → List (Datum × Datum)
  | [] => [(key, held)]
  | (other, value) :: rest =>
    if Datum.isKey other key then (key, held) :: rest else (other, value) :: setEntry key held rest

def canBeKey : Datum → Bool
  | .bytes _ => false
  | _ => true

/-- What the names in an expression stand for, the innermost first. -/
abbrev Environment := List (String × Datum)

def lookupName (environment : Environment) (word : String) : Option Datum :=
  match environment.find? fun entry => entry.1 == word with
  | some entry => some entry.2
  | none => if typeNames.contains word then some (.type word) else none

mutual

def eval : Environment → Expression → Option Datum
  | _, .constant held => some held.toDatum
  | environment, .name word => lookupName environment word
  | environment, .select operand field => do
    Datum.select? (← eval environment operand) field
  | environment, .has operand field => do
    return .bool (← Datum.has? (← eval environment operand) field)
  | environment, .both left right =>
    (settle false [truth? (eval environment left), truth? (eval environment right)]).map .bool
  | environment, .either left right =>
    (settle true [truth? (eval environment left), truth? (eval environment right)]).map .bool
  | environment, .choose test consequent alternative => do
    if ← truth? (eval environment test) then eval environment consequent
    else eval environment alternative
  | environment, .apply function _ arguments => do
    applyFunction function (← evalAll environment arguments)
  | environment, .list items => do return .list (← evalAll environment items)
  | environment, .map entries => do return .map (← evalEntries environment entries [])
  | environment, .quantified quantifier range bound test => do
    let items ← runThrough? (← eval environment range)
    let truths := items.map fun item => truth? (eval ((bound, item) :: environment) test)
    match quantifier with
    | .all => return .bool (← settle false truths)
    | .exists => return .bool (← settle true truths)
    | .one => return .bool ((← count truths) == 1)
  | environment, .filtered range bound test => do
    let items ← runThrough? (← eval environment range)
    return .list (← passing (items.map fun item =>
      (truth? (eval ((bound, item) :: environment) test), some item)))
  | environment, .mapped range bound held => do
    let items ← runThrough? (← eval environment range)
    return .list (← present (items.map fun item => eval ((bound, item) :: environment) held))
  | environment, .selected range bound test held => do
    let items ← runThrough? (← eval environment range)
    return .list (← passing (items.map fun item =>
      (truth? (eval ((bound, item) :: environment) test),
        eval ((bound, item) :: environment) held)))

def evalAll : Environment → List Expression → Option (List Datum)
  | _, [] => some []
  | environment, first :: rest => do
    let found ← eval environment first
    let others ← evalAll environment rest
    return found :: others

def evalEntries : Environment → List (Expression × Expression) → List (Datum × Datum) →
    Option (List (Datum × Datum))
  | _, [], known => some known
  | environment, (key, held) :: rest, known => do
    let key ← eval environment key
    let held ← eval environment held
    if canBeKey key then evalEntries environment rest (setEntry key held known) else none

end

/-- Whether a variable can be mentioned: its name is an identifier and not a reserved word. -/
def isDeclarable (word : String) : Bool :=
  (match word.toList with
  | [] => false
  | first :: rest => Token.beginsName first && rest.all Token.continuesName) &&
    !reserved.contains word

/-- The value of a written expression under variables.  A variable with the name of a type leaves
every expression without value. -/
def evaluate? (values : Fields Value) (text : List Char) : Option Value := do
  let declared := values.filter fun entry => isDeclarable entry.1
  let names := declared.map (·.1)
  let expression ← parse? text
  if names.any typeNames.contains || !isWellTyped (4 * text.length + 16) names expression then none
  else
    let environment := declared.map fun entry => (entry.1, Datum.ofValue entry.2)
    (← eval environment expression).toValue?

end StepQuery.Expression
