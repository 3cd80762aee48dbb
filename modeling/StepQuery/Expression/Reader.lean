import StepQuery.Expression.Token

/-!
Reading expressions.  From the loosest to the tightest: the conditional, or, and, the relations, sums,
products, signs, and the members of a value.  The depth of the recursion is bounded by a multiple of
the number of tokens.
-/

namespace StepQuery.Expression

/-- Words that cannot name anything. -/
def reserved : List String :=
  ["true", "false", "null", "in", "as", "break", "const", "continue", "else", "for", "function",
    "if", "import", "let", "loop", "package", "namespace", "return", "var", "void", "while"]

def relation? : Token → Option Function
  | .sign "<" => some .less
  | .sign "<=" => some .lessEqual
  | .sign ">" => some .greater
  | .sign ">=" => some .greaterEqual
  | .sign "==" => some .equal
  | .sign "!=" => some .unequal
  | .name "in" => some .member
  | _ => none

def sum? : Token → Option Function
  | .sign "+" => some .add
  | .sign "-" => some .subtract
  | _ => none

def product? : Token → Option Function
  | .sign "*" => some .multiply
  | .sign "/" => some .divide
  | .sign "%" => some .remainder
  | _ => none

/-- A whole number with its sign, if it fits. -/
def intConstant? (negative : Bool) (value : Nat) : Option Expression :=
  if negative then
    if value ≤ twoTo 63 then some (.constant (.int (Int64.ofInt (-(value : Int))))) else none
  else if value < twoTo 63 then some (.constant (.int (Int64.ofInt value))) else none

/-- The name of an expression that is nothing else. -/
def boundName? : Expression → Option String
  | .name word => some word
  | _ => none

/-- A call after a receiver: a quantifier, a collection or a function. -/
def receiverCall? (receiver : Expression) (word : String) (arguments : List Expression) :
    Option Expression :=
  match word, arguments with
  | "all", [first, test] => do return .quantified .all receiver (← boundName? first) test
  | "exists", [first, test] => do return .quantified .exists receiver (← boundName? first) test
  | "exists_one", [first, test] => do return .quantified .one receiver (← boundName? first) test
  | "existsOne", [first, test] => do return .quantified .one receiver (← boundName? first) test
  | "filter", [first, test] => do return .filtered receiver (← boundName? first) test
  | "map", [first, item] => do return .mapped receiver (← boundName? first) item
  | "map", [first, test, item] => do return .selected receiver (← boundName? first) test item
  | _, _ => do return .apply (← Function.ofName? word) true (receiver :: arguments)

def plainCall? (word : String) (arguments : List Expression) : Option Expression :=
  match word, arguments with
  | "has", [.select operand field] => some (.has operand field)
  | "has", _ => none
  | _, _ => do return .apply (← Function.ofName? word) false arguments

/-- The signs of one kind at the head of the tokens, counted. -/
def countSigns (sign : String) : List Token → Nat × List Token
  | .sign found :: rest =>
    if found == sign then
      let (count, rest) := countSigns sign rest
      (count + 1, rest)
    else (0, .sign found :: rest)
  | tokens => (0, tokens)

mutual

def conditional : (depth : Nat) → List Token → Option (Expression × List Token)
  | 0, _ => none
  | depth + 1, tokens => do
    let (test, rest) ← disjunction depth tokens
    match rest with
    | .sign "?" :: rest =>
      let (consequent, rest) ← disjunction depth rest
      match rest with
      | .sign ":" :: rest =>
        let (alternative, rest) ← conditional depth rest
        return (.choose test consequent alternative, rest)
      | _ => none
    | _ => return (test, rest)

def disjunction : (depth : Nat) → List Token → Option (Expression × List Token)
  | 0, _ => none
  | depth + 1, tokens => do
    let (left, rest) ← conjunction depth tokens
    disjunctionRest depth left rest

def disjunctionRest : (depth : Nat) → Expression → List Token →
    Option (Expression × List Token)
  | 0, _, _ => none
  | depth + 1, left, tokens =>
    match tokens with
    | .sign "||" :: rest => do
      let (right, rest) ← conjunction depth rest
      disjunctionRest depth (.either left right) rest
    | _ => some (left, tokens)

def conjunction : (depth : Nat) → List Token → Option (Expression × List Token)
  | 0, _ => none
  | depth + 1, tokens => do
    let (left, rest) ← relation depth tokens
    conjunctionRest depth left rest

def conjunctionRest : (depth : Nat) → Expression → List Token →
    Option (Expression × List Token)
  | 0, _, _ => none
  | depth + 1, left, tokens =>
    match tokens with
    | .sign "&&" :: rest => do
      let (right, rest) ← relation depth rest
      conjunctionRest depth (.both left right) rest
    | _ => some (left, tokens)

def relation : (depth : Nat) → List Token → Option (Expression × List Token)
  | 0, _ => none
  | depth + 1, tokens => do
    let (left, rest) ← sum depth tokens
    relationRest depth left rest

def relationRest : (depth : Nat) → Expression → List Token → Option (Expression × List Token)
  | 0, _, _ => none
  | depth + 1, left, tokens =>
    match tokens with
    | token :: rest =>
      match relation? token with
      | some function => do
        let (right, rest) ← sum depth rest
        relationRest depth (.apply function false [left, right]) rest
      | none => some (left, tokens)
    | [] => some (left, tokens)

def sum : (depth : Nat) → List Token → Option (Expression × List Token)
  | 0, _ => none
  | depth + 1, tokens => do
    let (left, rest) ← product depth tokens
    sumRest depth left rest

def sumRest : (depth : Nat) → Expression → List Token → Option (Expression × List Token)
  | 0, _, _ => none
  | depth + 1, left, tokens =>
    match tokens with
    | token :: rest =>
      match sum? token with
      | some function => do
        let (right, rest) ← product depth rest
        sumRest depth (.apply function false [left, right]) rest
      | none => some (left, tokens)
    | [] => some (left, tokens)

def product : (depth : Nat) → List Token → Option (Expression × List Token)
  | 0, _ => none
  | depth + 1, tokens => do
    let (left, rest) ← signed depth tokens
    productRest depth left rest

def productRest : (depth : Nat) → Expression → List Token → Option (Expression × List Token)
  | 0, _, _ => none
  | depth + 1, left, tokens =>
    match tokens with
    | token :: rest =>
      match product? token with
      | some function => do
        let (right, rest) ← signed depth rest
        productRest depth (.apply function false [left, right]) rest
      | none => some (left, tokens)
    | [] => some (left, tokens)

/-- Signs before a value.  Two of a kind cancel, and one minus before a number belongs to it. -/
def signed : (depth : Nat) → List Token → Option (Expression × List Token)
  | 0, _ => none
  | depth + 1, tokens =>
    match tokens with
    | .sign "!" :: _ => do
      let (count, rest) := countSigns "!" tokens
      let (operand, rest) ← value depth rest
      if count % 2 == 0 then return (operand, rest)
      else return (.apply .complement false [operand], rest)
    | .sign "-" :: .int number :: rest => do
      members depth (← intConstant? true number) rest
    | .sign "-" :: .double number :: rest => members depth (.constant (.double (-number))) rest
    | .sign "-" :: _ => do
      let (count, rest) := countSigns "-" tokens
      let (operand, rest) ← value depth rest
      if count % 2 == 0 then return (operand, rest)
      else return (.apply .negate false [operand], rest)
    | _ => value depth tokens

/-- A value with the members that are taken of it. -/
def value : (depth : Nat) → List Token → Option (Expression × List Token)
  | 0, _ => none
  | depth + 1, tokens => do
    let (first, rest) ← primary depth tokens
    members depth first rest

def members : (depth : Nat) → Expression → List Token → Option (Expression × List Token)
  | 0, _, _ => none
  | depth + 1, operand, tokens =>
    match tokens with
    | .sign "." :: .name word :: .sign "(" :: rest =>
      if ["true", "false", "null", "in"].contains word then none
      else do
        let (found, rest) ← arguments depth true ")" rest
        members depth (← receiverCall? operand word found) rest
    | .sign "." :: .name word :: rest =>
      if ["true", "false", "null", "in"].contains word then none
      else members depth (.select operand word) rest
    | .sign "[" :: rest => do
      let (position, rest) ← conditional depth rest
      match rest with
      | .sign "]" :: rest => members depth (.apply .index false [operand, position]) rest
      | _ => none
    | _ => some (operand, tokens)

/-- Expressions between commas up to a closing sign. -/
def arguments : (depth : Nat) → (first : Bool) → (closing : String) → List Token →
    Option (List Expression × List Token)
  | 0, _, _, _ => none
  | depth + 1, first, closing, tokens =>
    match tokens with
    | .sign sign :: rest =>
      if sign == closing && first then some ([], rest) else nextArgument depth closing tokens
    | _ => nextArgument depth closing tokens

def nextArgument : (depth : Nat) → (closing : String) → List Token →
    Option (List Expression × List Token)
  | 0, _, _ => none
  | depth + 1, closing, tokens => do
    let (found, rest) ← conditional depth tokens
    match rest with
    | .sign sign :: rest =>
      if sign == closing then return ([found], rest)
      else if sign == "," then
        -- A list may end in a comma, the arguments of a call may not.
        match rest with
        | .sign last :: after =>
          if last == closing && closing == "]" then return ([found], after)
          else
            let (others, rest) ← nextArgument depth closing rest
            return (found :: others, rest)
        | _ =>
          let (others, rest) ← nextArgument depth closing rest
          return (found :: others, rest)
      else none
    | _ => none

/-- The entries of a map up to the closing brace. -/
def entries : (depth : Nat) → (first : Bool) → List Token →
    Option (List (Expression × Expression) × List Token)
  | 0, _, _ => none
  | depth + 1, first, tokens =>
    match tokens with
    | .sign "\x7d" :: rest => some ([], rest)
    | .sign "," :: .sign "\x7d" :: rest => if first then some ([], rest) else none
    | _ => do
      let (key, rest) ← conditional depth tokens
      match rest with
      | .sign ":" :: rest =>
        let (held, rest) ← conditional depth rest
        match rest with
        | .sign "\x7d" :: rest => return ([(key, held)], rest)
        | .sign "," :: rest =>
          let (others, rest) ← entries depth false rest
          return ((key, held) :: others, rest)
        | _ => none
      | _ => none

def primary : (depth : Nat) → List Token → Option (Expression × List Token)
  | 0, _ => none
  | depth + 1, tokens =>
    match tokens with
    | .sign "." :: .name word :: rest => named depth word rest
    | .name "true" :: rest => some (.constant (.bool true), rest)
    | .name "false" :: rest => some (.constant (.bool false), rest)
    | .name "null" :: rest => some (.constant .null, rest)
    | .name word :: rest => named depth word rest
    | .int number :: rest => do return (← intConstant? false number, rest)
    | .uint number :: rest =>
      if number < twoTo 64 then some (.constant (.uint (UInt64.ofNat number)), rest) else none
    | .double number :: rest => some (.constant (.double number), rest)
    | .text found :: rest => some (.constant (.text found), rest)
    | .bytes found :: rest => some (.constant (.bytes found), rest)
    | .sign "(" :: rest => do
      let (inner, rest) ← conditional depth rest
      match rest with
      | .sign ")" :: rest => return (inner, rest)
      | _ => none
    | .sign "[" :: .sign "," :: .sign "]" :: rest => some (.list [], rest)
    | .sign "[" :: rest => do
      let (items, rest) ← arguments depth true "]" rest
      return (.list items, rest)
    | .sign "\x7b" :: rest => do
      let (found, rest) ← entries depth true rest
      return (.map found, rest)
    | _ => none

/-- A name that is called or stands for a variable. -/
def named : (depth : Nat) → String → List Token → Option (Expression × List Token)
  | 0, _, _ => none
  | depth + 1, word, tokens =>
    if reserved.contains word then none
    else
      match tokens with
      | .sign "(" :: rest => do
        let (found, rest) ← arguments depth true ")" rest
        return (← plainCall? word found, rest)
      | _ => some (.name word, tokens)

end

def parse? (text : List Char) : Option Expression := do
  let tokens ← Token.ofText? text
  let (found, rest) ← conditional (16 * tokens.length + 16) tokens
  if rest.isEmpty then return found else none

end StepQuery.Expression
