import StepQuery.Text.Class

/-!
Texts that are indented along with what surrounds them.  Such a text begins on the line after its
opening, and the first of its lines sets the indentation that all lines lose.
-/

namespace StepQuery.Text

def isAsciiBlank (character : Char) : Bool :=
  character == ' ' || character == '\t' || character == '\n' || character == '\r' ||
    character == '\x0c'

/-- The first run of blanks in a line. -/
def firstBlanks (line : List Char) : List Char :=
  (line.dropWhile (!isAsciiBlank ·)).takeWhile isAsciiBlank

/-- A line without the given indentation, each tab that still leads it made two spaces. -/
def shifted (indentation line : List Char) : List Char :=
  let rest := if indentation.isPrefixOf line then line.drop indentation.length else line
  (rest.takeWhile (· == '\t')).flatMap (fun _ => [' ', ' ']) ++ rest.dropWhile (· == '\t')

/-- The lines after the first one, without the indentation of the foremost of them. -/
def unindented (text : List Char) : List Char :=
  match pieces '\n' text with
  | _ :: first :: rest =>
    List.intercalate ['\n'] ((first :: rest).map (shifted (firstBlanks first)))
  | _ => []

end StepQuery.Text
