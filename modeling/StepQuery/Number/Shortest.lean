import StepQuery.Number.Decimal

/-!
The shortest decimal text of a floating-point number: the fewest digits that read back as it, and of
those the nearest to it.  Three styles of writing the digits down share the search.
-/

namespace StepQuery

/-- The digits of a finite number with the power of ten of the first one.  Zero has the one digit
`0`. -/
structure Digits where
  negative : Bool
  digits : List Char
  exponent : Int
deriving DecidableEq, Repr

namespace Digits

/-- The floor of the decimal logarithm of a positive fraction. -/
def order (numerator denominator : Nat) : Int :=
  let guess : Int := (Decimal.digits numerator).length - (Decimal.digits denominator).length
  let reaches : Bool := match guess with
    | .ofNat n => denominator * tenTo n ≤ numerator
    | .negSucc n => denominator ≤ numerator * tenTo (n + 1)
  if reaches then guess else guess - 1

/-- The candidates with `count` digits on both sides of a fraction, the nearer first. -/
def neighbours (numerator denominator : Nat) (first : Int) (count : Nat) : List Decimal :=
  let shift : Int := (count : Int) - 1 - first
  let (top, bottom) := match shift with
    | .ofNat n => (numerator * tenTo n, denominator)
    | .negSucc n => (numerator, denominator * tenTo (n + 1))
  let low := top / bottom
  let remainder := top % bottom
  let below : Decimal := ⟨low, -shift⟩
  let above : Decimal := ⟨low + 1, -shift⟩
  if remainder == 0 then [below]
  else if 2 * remainder < bottom || (2 * remainder == bottom && low % 2 == 0) then [below, above]
  else [above, below]

/-- The first candidate that reads back, trying `count` digits and then one more each time, and the
exact value when all attempts are used up. -/
def search (reads : Decimal → Bool) (numerator denominator : Nat) (first : Int) (exact : Decimal) :
    (attempts count : Nat) → Decimal
  | 0, _ => exact
  | attempts + 1, count =>
    match (neighbours numerator denominator first count).find? reads with
    | some found => found
    | none => search reads numerator denominator first exact attempts (count + 1)

def dropTrailingZeros (digits : List Char) : List Char :=
  (digits.reverse.dropWhile (· == '0')).reverse

def ofDecimal (negative : Bool) (number : Decimal) : Digits :=
  let written := Decimal.digits number.coefficient.natAbs
  ⟨negative, dropTrailingZeros written, number.exponent + written.length - 1⟩

/-- The digits of `significand * 2 ^ power`.  Of these, `most` are known to suffice. -/
def ofBinary (reads : Decimal → Bool) (most : Nat) (negative : Bool) (significand : Nat)
    (power : Int) : Digits :=
  if significand == 0 then ⟨negative, ['0'], 0⟩
  else
    let (numerator, denominator, exact) : Nat × Nat × Decimal := match power with
      | .ofNat n => (significand * twoTo n, 1, ⟨significand * twoTo n, 0⟩)
      | .negSucc n => (significand, twoTo (n + 1), ⟨significand * Nat.pow 5 (n + 1), .negSucc n⟩)
    ofDecimal negative
      (search reads numerator denominator (order numerator denominator) exact most 1)

/-- The digits of a finite double; `none` for the others. -/
def ofFloat? (number : Float) : Option Digits :=
  let bits : Nat := number.toBits.toNat
  let fraction : Nat := bits % twoTo 52
  let biased : Nat := bits / twoTo 52 % twoTo 11
  let negative := twoTo 63 ≤ bits
  if biased == 2047 then none
  else
    let (significand, power) : Nat × Int :=
      if biased == 0 then (fraction, -1074) else (fraction + twoTo 52, (biased : Int) - 1075)
    let magnitude := UInt64.ofNat (bits % twoTo 63)
    some (ofBinary (fun candidate => candidate.toFloat.toBits == magnitude) 17 negative
      significand power)

def single (number : Decimal) : Float32 :=
  let size := number.coefficient.natAbs
  let magnitude := match number.exponent with
    | .ofNat n => Float32.ofScientific size false n
    | .negSucc n => Float32.ofScientific size true (n + 1)
  if number.coefficient < 0 then -magnitude else magnitude

/-- The digits of a finite single; `none` for the others. -/
def ofFloat32? (number : Float32) : Option Digits :=
  let bits : Nat := number.toBits.toNat
  let fraction : Nat := bits % twoTo 23
  let biased : Nat := bits / twoTo 23 % twoTo 8
  let negative := twoTo 31 ≤ bits
  if biased == 255 then none
  else
    let (significand, power) : Nat × Int :=
      if biased == 0 then (fraction, -149) else (fraction + twoTo 23, (biased : Int) - 150)
    let magnitude := UInt32.ofNat (bits % twoTo 31)
    some (ofBinary (fun candidate => (single candidate).toBits == magnitude) 9 negative
      significand power)

/-- The exact decimal that the digits denote, without its sign. -/
def toDecimal (number : Digits) : Decimal :=
  let size : Int := Decimal.digitsValue number.digits
  ⟨if number.negative then -size else size, number.exponent - (number.digits.length - 1)⟩

end Digits

/-- How digits are written down: positionally when the power of ten of the first digit lies in
`[least, limit)`, otherwise with an exponent. -/
structure NumberStyle where
  least : Int
  limit : Int
  mark : Char
  /-- The exponent has two digits at least. -/
  padded : Bool
  /-- A whole number written positionally ends in `.0`. -/
  pointed : Bool

namespace NumberStyle

/-- The style of texts meant for people. -/
def plain : NumberStyle := ⟨-4, 6, 'e', true, false⟩

/-- The style of numbers in JSON documents. -/
def json : NumberStyle := ⟨-6, 21, 'e', false, false⟩

/-- The style of doubles in extended JSON, where a whole number must not look like an integer. -/
def extended : NumberStyle := ⟨-4, 6, 'E', true, true⟩

def exponentText (style : NumberStyle) (exponent : Int) : List Char :=
  let size := Decimal.digits exponent.natAbs
  let padded := if style.padded && size.length < 2 then '0' :: size else size
  (if exponent < 0 then '-' else '+') :: padded

def scientific (style : NumberStyle) (digits : List Char) (exponent : Int) : List Char :=
  let mantissa := match digits with
    | first :: second :: rest => first :: '.' :: second :: rest
    | _ => digits
  mantissa ++ style.mark :: style.exponentText exponent

def positional (style : NumberStyle) (digits : List Char) (exponent : Int) : List Char :=
  match exponent with
  | .negSucc n => '0' :: '.' :: List.replicate n '0' ++ digits
  | .ofNat n =>
    if digits.length ≤ n + 1 then
      digits ++ List.replicate (n + 1 - digits.length) '0' ++
        (if style.pointed then ['.', '0'] else [])
    else digits.take (n + 1) ++ '.' :: digits.drop (n + 1)

def write (style : NumberStyle) (number : Digits) : String :=
  let body :=
    if number.exponent < style.least || style.limit ≤ number.exponent then
      style.scientific number.digits number.exponent
    else style.positional number.digits number.exponent
  String.ofList (if number.negative then '-' :: body else body)

/-- The text of a double.  The numbers that are not finite have names. -/
def float (style : NumberStyle) (number : Float) : String :=
  match Digits.ofFloat? number with
  | some digits => style.write digits
  | none =>
    if number.isNaN then "NaN" else if 0 < number then "+Inf" else "-Inf"

def float32 (style : NumberStyle) (number : Float32) : String :=
  match Digits.ofFloat32? number with
  | some digits => style.write digits
  | none =>
    if number.isNaN then "NaN" else if 0 < number then "+Inf" else "-Inf"

end NumberStyle

end StepQuery
