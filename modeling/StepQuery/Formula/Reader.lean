import StepQuery.Formula.Token
import StepQuery.Failure

/-!
Reading formulas.  A sum is made of products, a product of signed operands; operators of one level
associate to the left.

    sum     = product { ("+" | "-") product }
    product = signed { ("*" | "/" | "%") signed }
    signed  = "-" signed | operand
    operand = number | text | column | "(" sum ")"

The depth of the recursion is bounded by four calls a token.
-/

namespace StepQuery.Formula

/-- The offset of the next token, or the end of the text. -/
def here (finish : Nat) : List Token → Nat
  | [] => finish
  | token :: _ => token.span.offset

def syntaxError {α : Type} (problem : String) (offset : Nat) : Attempt α :=
  Attempt.fail (.formulaSyntax problem (offset + 1))

def unexpected {α : Type} (token : Token) : Attempt α :=
  syntaxError ("unexpected character '" ++ String.ofList [token.first] ++ "'") token.span.offset

def isSum (operator : Operator) : Bool := operator == .add || operator == .subtract

/-- The operation of two formulas, which spans both. -/
def combine (operator : Operator) (left right : Formula) : Formula :=
  .binary (Span.between left.span.offset right.span.finish) operator left right

/-- The negation of an operand whose sign stands at an offset.  A negated number is a number. -/
def negation (start : Nat) (operand : Formula) : Formula :=
  let span := Span.between start operand.span.finish
  match operand with
  | .number _ literal => .number span literal.negate
  | _ => .negate span operand

mutual

def sum (finish : Nat) : (depth : Nat) → List Token → Attempt (Formula × List Token)
  | 0, _ => Attempt.fail .emptyFormula
  | depth + 1, tokens => do
    let (left, rest) ← product finish depth tokens
    sumRest finish depth left rest

def sumRest (finish : Nat) : (depth : Nat) → Formula → List Token →
    Attempt (Formula × List Token)
  | 0, _, _ => Attempt.fail .emptyFormula
  | depth + 1, left, tokens =>
    match tokens with
    | ⟨.operator operator, _, _⟩ :: rest =>
      if isSum operator then do
        let (right, rest) ← product finish depth rest
        sumRest finish depth (combine operator left right) rest
      else .ok (left, tokens)
    | _ => .ok (left, tokens)

def product (finish : Nat) : (depth : Nat) → List Token → Attempt (Formula × List Token)
  | 0, _ => Attempt.fail .emptyFormula
  | depth + 1, tokens => do
    let (left, rest) ← signed finish depth tokens
    productRest finish depth left rest

def productRest (finish : Nat) : (depth : Nat) → Formula → List Token →
    Attempt (Formula × List Token)
  | 0, _, _ => Attempt.fail .emptyFormula
  | depth + 1, left, tokens =>
    match tokens with
    | ⟨.operator operator, _, _⟩ :: rest =>
      if isSum operator then .ok (left, tokens)
      else do
        let (right, rest) ← signed finish depth rest
        productRest finish depth (combine operator left right) rest
    | _ => .ok (left, tokens)

def signed (finish : Nat) : (depth : Nat) → List Token → Attempt (Formula × List Token)
  | 0, _ => Attempt.fail .emptyFormula
  | depth + 1, tokens =>
    match tokens with
    | ⟨.operator .subtract, _, span⟩ :: rest => do
      let (operand, rest) ← signed finish depth rest
      return (negation span.offset operand, rest)
    | _ => operand finish depth tokens

def operand (finish : Nat) : (depth : Nat) → List Token → Attempt (Formula × List Token)
  | 0, _ => Attempt.fail .emptyFormula
  | depth + 1, tokens =>
    match tokens with
    | [] => syntaxError "unexpected end of formula" finish
    | token :: rest =>
      match token.word with
      | .number literal => .ok (.number token.span literal, rest)
      | .text value => .ok (.text token.span value, rest)
      | .column name => .ok (.column token.span name, rest)
      | .opening => do
        let (inner, rest) ← sum finish depth rest
        match rest with
        | ⟨.closing, _, _⟩ :: rest => .ok (inner, rest)
        | _ => syntaxError "expected ')'" (here finish rest)
      | .fault problem position => Attempt.fail (.formulaSyntax problem position)
      | .operator _ | .closing | .stray => unexpected token

end

def parse (text : String) : Attempt Formula := do
  let characters := text.toList
  match Token.scan 0 0 characters with
  | [] => Attempt.fail .emptyFormula
  | tokens =>
    let (formula, rest) ← sum characters.length (4 * tokens.length + 4) tokens
    match rest with
    | [] => return formula
    | token :: _ => unexpected token

end StepQuery.Formula
