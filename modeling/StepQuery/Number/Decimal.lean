import StepQuery.Number.Power
import StepQuery.Text.Class

/-!
Decimal numbers of any size: a whole coefficient times a power of ten.  A text is read with at most
one point, which may stand anywhere and only counts the digits after it, and an optional exponent.
-/

namespace StepQuery

/-- The number `coefficient * 10 ^ exponent`. -/
structure Decimal where
  coefficient : Int
  exponent : Int
deriving DecidableEq, Repr, Inhabited

namespace Decimal

/-- The value of a run of ASCII digits, most significant first. -/
def digitsValue (digits : List Char) : Nat :=
  digits.foldl (fun total digit => 10 * total + (digit.toNat - 48)) 0

def digits (n : Nat) : List Char := Nat.toDigits 10 n

/-- A whole number written with its digits alone. -/
def integerText (n : Int) : String :=
  String.ofList (if n < 0 then '-' :: digits n.natAbs else digits n.natAbs)

/-- A run of one or more ASCII digits. -/
def natural? (text : List Char) : Option Nat :=
  if text.isEmpty then none
  else if text.all Text.isAsciiDigit then some (digitsValue text)
  else none

/-- A run of digits after an optional sign. -/
def integer? : List Char → Option Int
  | '-' :: rest => (natural? rest).map fun n => -(n : Int)
  | '+' :: rest => (natural? rest).map fun n => (n : Int)
  | text => (natural? text).map fun n => (n : Int)

def exponentInRange (exponent : Int) : Bool := -2147483648 ≤ exponent && exponent ≤ 2147483647

def isExponentMark (character : Char) : Bool := character == 'e' || character == 'E'

/-- The coefficient part: one point at most, the digits after it lower the exponent. -/
def mantissa? (text : List Char) : Option Decimal :=
  let whole := text.takeWhile (· != '.')
  match text.dropWhile (· != '.') with
  | [] => (integer? whole).map fun n => ⟨n, 0⟩
  | _ :: fraction =>
    if fraction.contains '.' then none
    else (integer? (whole ++ fraction)).map fun n => ⟨n, -(fraction.length : Int)⟩

/-- The coefficient part and the exponent of a text.  The exponent mark is the first `e` or `E`. -/
def parts? (text : List Char) : Option (Decimal × Int) := do
  let number ← mantissa? (text.takeWhile fun c => !isExponentMark c)
  match text.dropWhile fun c => !isExponentMark c with
  | [] => return (number, 0)
  | _ :: power => return (number, ← integer? power)

/-- Read a decimal number whose exponent may have any size. -/
def ofNumeral? (text : List Char) : Option Decimal :=
  (parts? text).map fun (number, exponent) => ⟨number.coefficient, number.exponent + exponent⟩

/-- Read a decimal number whose exponent keeps its bounds. -/
def ofText? (text : List Char) : Option Decimal := do
  let (number, exponent) ← parts? text
  let total := number.exponent + exponent
  if exponentInRange exponent && exponentInRange total then some ⟨number.coefficient, total⟩
  else none

/-- Whether a text is a decimal number with digits, an optional point and an optional exponent. -/
def isNumeral (body : List Char) : Bool :=
  let mantissa := body.takeWhile fun character => !isExponentMark character
  let whole := mantissa.takeWhile Text.isAsciiDigit
  let rest := mantissa.dropWhile Text.isAsciiDigit
  let fraction := match rest with
    | '.' :: digits => digits
    | _ => rest
  let power := match body.dropWhile fun character => !isExponentMark character with
    | [] => true
    | _ :: '+' :: digits => !digits.isEmpty && digits.all Text.isAsciiDigit
    | _ :: '-' :: digits => !digits.isEmpty && digits.all Text.isAsciiDigit
    | _ :: digits => !digits.isEmpty && digits.all Text.isAsciiDigit
  fraction.all Text.isAsciiDigit && !(whole.isEmpty && fraction.isEmpty) && power

/-- Whether the number is whole.  A nonzero coefficient is not divisible by a power of ten that has
more zeros than it has digits, which settles large negative exponents. -/
def isInteger (number : Decimal) : Bool :=
  match number.exponent with
  | .ofNat _ => true
  | .negSucc n =>
    number.coefficient == 0 ||
      (n < (digits number.coefficient.natAbs).length &&
        number.coefficient.natAbs % tenTo (n + 1) == 0)

/-- The number without its fraction, kept to its low 64 bits.  A power of ten with 64 zeros or more
is a multiple of `2 ^ 64`, so nothing remains of it. -/
def integerPart (number : Decimal) : Int64 :=
  match number.exponent with
  | .ofNat n => if 64 ≤ n then 0 else Int64.ofInt (number.coefficient * tenTo n)
  | .negSucc n =>
    if (digits number.coefficient.natAbs).length ≤ n then 0
    else Int64.ofInt (Int.tdiv number.coefficient (tenTo (n + 1)))

/-- The number of zeros in which the digits of a natural number end. -/
def trailingZeros (n : Nat) : Nat := ((digits n).reverse.takeWhile (· == '0')).length

/-- The double nearest to the number.  The coefficient is freed of its trailing zeros first, so that
one number written in two ways is converted once. -/
def toFloat (number : Decimal) : Float :=
  let size := number.coefficient.natAbs
  let zeros := trailingZeros size
  let magnitude := Float.ofModel
    (Float.Model.ofScientific (size / tenTo zeros) (number.exponent + zeros))
  if number.coefficient < 0 then -magnitude else magnitude

end Decimal

end StepQuery
