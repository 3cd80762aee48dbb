import StepQuery.Text.Class

/-!
Regular expressions and where they match.  A pattern is given a position in a text and answers with
the positions at which a match from there can end; repetition closes a set of positions under the
pattern repeated, which takes no more rounds than the text has characters.
-/

namespace StepQuery

inductive CharacterSet where
  | ranges (ranges : List (Nat × Nat))
  | outside (set : CharacterSet)
  | union (first second : CharacterSet)

namespace CharacterSet

def contains : CharacterSet → Nat → Bool
  | .ranges listed, point => Text.within listed point
  | .outside set, point => !contains set point
  | .union first second, point => contains first point || contains second point

def single (point : Nat) : CharacterSet := .ranges [(point, point)]

def digits : CharacterSet := .ranges [(48, 57)]

def blanks : CharacterSet := .ranges [(9, 10), (12, 13), (32, 32)]

def wordRanges : List (Nat × Nat) := [(48, 57), (65, 90), (95, 95), (97, 122)]

def words : CharacterSet := .ranges wordRanges

end CharacterSet

inductive Pattern where
  | empty
  /-- One character of a set; `folded` patterns do not tell the cases of a letter apart. -/
  | character (folded : Bool) (set : CharacterSet)
  | textStart
  | textEnd
  | lineStart
  | lineEnd
  | boundary
  | notBoundary
  | sequence (first second : Pattern)
  | choice (first second : Pattern)
  | repeated (body : Pattern) (least : Nat) (most : Option Nat)

namespace Pattern

/-- A place in a text: the character before it and the text after it. -/
structure Position where
  previous : Option Char
  rest : List Char

def swapCase (point : Nat) : Nat :=
  if 65 ≤ point && point ≤ 90 then point + 32
  else if 97 ≤ point && point ≤ 122 then point - 32
  else point

def isWord (character : Option Char) : Bool :=
  character.any fun character => Text.within CharacterSet.wordRanges character.toNat

def onBoundary (position : Position) : Bool :=
  isWord position.previous != isWord position.rest.head?

/-- The positions of one text without repetition. -/
def distinct : List Position → List Position
  | [] => []
  | first :: rest =>
    first :: (distinct rest).filter fun position => position.rest.length != first.rest.length

def advance (step : Position → List Position) (positions : List Position) : List Position :=
  distinct (positions.flatMap step)

def exactly (step : Position → List Position) : (count : Nat) → List Position → List Position
  | 0, positions => positions
  | count + 1, positions => exactly step count (advance step positions)

def atMost (step : Position → List Position) : (count : Nat) → List Position → List Position
  | 0, positions => positions
  | count + 1, positions => atMost step count (distinct (positions ++ advance step positions))

def assertion (holds : Bool) (position : Position) : List Position :=
  if holds then [position] else []

/-- The positions at which a match from a position can end. -/
def ends : Pattern → Position → List Position
  | .empty, position => [position]
  | .character folded set, position =>
    match position.rest with
    | [] => []
    | first :: rest =>
      if set.contains first.toNat || (folded && set.contains (swapCase first.toNat)) then
        [⟨some first, rest⟩]
      else []
  | .textStart, position => assertion position.previous.isNone position
  | .textEnd, position => assertion position.rest.isEmpty position
  | .lineStart, position =>
    assertion (position.previous.isNone || position.previous == some '\n') position
  | .lineEnd, position =>
    assertion (position.rest.isEmpty || position.rest.head? == some '\n') position
  | .boundary, position => assertion (onBoundary position) position
  | .notBoundary, position => assertion (!onBoundary position) position
  | .sequence first second, position => distinct ((ends first position).flatMap (ends second))
  | .choice first second, position => distinct (ends first position ++ ends second position)
  | .repeated body least most, position =>
    let started := exactly (ends body) least [position]
    let rounds := position.rest.length + 1
    atMost (ends body) (match most with
      | some most => min (most - least) rounds
      | none => rounds) started

/-- Whether a pattern matches at a position or further on. -/
def matchesFrom (pattern : Pattern) : (previous : Option Char) → List Char → Bool
  | previous, [] => !(ends pattern ⟨previous, []⟩).isEmpty
  | previous, first :: rest =>
    !(ends pattern ⟨previous, first :: rest⟩).isEmpty || matchesFrom pattern (some first) rest

/-- Whether a pattern matches somewhere in a text. -/
def matchesIn (pattern : Pattern) (text : String) : Bool := matchesFrom pattern none text.toList

end Pattern

end StepQuery
