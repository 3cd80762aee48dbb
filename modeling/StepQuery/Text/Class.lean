import StepQuery.Text.Letters
import StepQuery.Text.Digits
import StepQuery.Text.Graphic

/-!
Character classes and operations on text: trimming blanks, cutting at a mark, lowering ASCII letters
and the quoted form that shows every unprintable character as an escape.
-/

namespace StepQuery.Text

/-- Whether a code point lies in one of the ranges. -/
def within (ranges : List (Nat × Nat)) (point : Nat) : Bool :=
  ranges.any fun range => range.1 ≤ point && point ≤ range.2

def isLetter (character : Char) : Bool := within letterRanges character.toNat

def isDigit (character : Char) : Bool := within digitRanges character.toNat

def isAsciiDigit (character : Char) : Bool := '0' ≤ character && character ≤ '9'

/-- The blanks: the six ASCII ones, the next-line control, and every space or line separator. -/
def isBlank (character : Char) : Bool :=
  let point := character.toNat
  (9 ≤ point && point ≤ 13) || point == 32 || point == 0x85 || point == 0xA0 || point == 0x1680 ||
    (0x2000 ≤ point && point ≤ 0x200A) || point == 0x2028 || point == 0x2029 || point == 0x202F ||
    point == 0x205F || point == 0x3000

/-- A character that a quoted text shows as itself: a visible sign or the plain space. -/
def isPrintable (character : Char) : Bool :=
  character == ' ' || within graphicRanges character.toNat

def trim (text : List Char) : List Char :=
  ((text.dropWhile isBlank).reverse.dropWhile isBlank).reverse

/-- The pieces of a text between the occurrences of a mark. -/
def pieces (mark : Char) : List Char → List (List Char)
  | [] => [[]]
  | character :: rest =>
    if character == mark then [] :: pieces mark rest
    else
      match pieces mark rest with
      | [] => [[character]]
      | first :: others => (character :: first) :: others

def trimString (text : String) : String := String.ofList (trim text.toList)

def lowerAscii (character : Char) : Char :=
  if 'A' ≤ character && character ≤ 'Z' then Char.ofNat (character.toNat + 32) else character

/-- The text with its ASCII capitals lowered.  No other capital lowers to a letter of the words this
library compares with (`true`, `null`, `yes` and the like), so other characters stay as they are. -/
def lower (text : String) : String := String.ofList (text.toList.map lowerAscii)

/-- The hexadecimal digit of a number below sixteen. -/
def hexDigit (n : Nat) : Char :=
  if n < 10 then Char.ofNat (48 + n) else Char.ofNat (87 + n)

/-- The lowest `width` hexadecimal digits of `n`. -/
def hex : (width : Nat) → (n : Nat) → List Char
  | 0, _ => []
  | width + 1, n => hex width (n / 16) ++ [hexDigit (n % 16)]

/-- The value of a hexadecimal digit of either case. -/
def hexValue? (character : Char) : Option Nat :=
  if '0' ≤ character && character ≤ '9' then some (character.toNat - 48)
  else if 'a' ≤ character && character ≤ 'f' then some (character.toNat - 87)
  else if 'A' ≤ character && character ≤ 'F' then some (character.toNat - 55)
  else none

/-- How one character is written inside a quoted text. -/
def quotedCharacter (character : Char) : List Char :=
  match character with
  | '"' => ['\\', '"']
  | '\\' => ['\\', '\\']
  | '\n' => ['\\', 'n']
  | '\r' => ['\\', 'r']
  | '\t' => ['\\', 't']
  | _ =>
    let point := character.toNat
    if isPrintable character then [character]
    else if point == 7 then ['\\', 'a']
    else if point == 8 then ['\\', 'b']
    else if point == 12 then ['\\', 'f']
    else if point == 11 then ['\\', 'v']
    else if point < 32 || point == 127 then '\\' :: 'x' :: hex 2 point
    else if point < 0x10000 then '\\' :: 'u' :: hex 4 point
    else '\\' :: 'U' :: hex 8 point

/-- A text between double quotes, every unprintable character escaped. -/
def quoted (text : String) : String :=
  String.ofList ('"' :: text.toList.flatMap quotedCharacter ++ ['"'])

end StepQuery.Text
