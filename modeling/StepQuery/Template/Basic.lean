import StepQuery.Failure

/-!
Templates: literal text with expressions between two delimiters.  A template is cut from the left;
an opening delimiter that is never closed is literal text.
-/

namespace StepQuery

/-- The marks around an expression, neither of them empty. -/
structure Delimiters where
  start : List Char
  finish : List Char
  start_ne_nil : start ≠ []
  finish_ne_nil : finish ≠ []

namespace Delimiters

def curly : Delimiters := ⟨['\x7b', '\x7b'], ['\x7d', '\x7d'], by simp, by simp⟩

/-- The delimiters that two texts name; an empty text names the usual one. -/
def ofTexts (start finish : String) : Delimiters where
  start := if start.toList = [] then curly.start else start.toList
  finish := if finish.toList = [] then curly.finish else finish.toList
  start_ne_nil := by
    split
    · exact curly.start_ne_nil
    · assumption
  finish_ne_nil := by
    split
    · exact curly.finish_ne_nil
    · assumption

end Delimiters

inductive Segment where
  | literal (text : List Char)
  | expression (text : List Char)
deriving DecidableEq, Repr

namespace Template

/-- Cut a text at the first occurrence of a mark. -/
def cut? (mark : List Char) : List Char → Option (List Char × List Char)
  | [] => if mark.isEmpty then some ([], []) else none
  | character :: rest =>
    if mark.isPrefixOf (character :: rest) then
      some ([], (character :: rest).drop mark.length)
    else (cut? mark rest).map fun (before, after) => (character :: before, after)

def contains (text mark : List Char) : Bool := (cut? mark text).isSome

/-- A cut splits the text into what stands before the mark, the mark and what stands after it. -/
theorem eq_append_of_cut? {mark text before after : List Char}
    (found : cut? mark text = some (before, after)) : text = before ++ mark ++ after := by
  induction text generalizing before with
  | nil =>
    simp only [cut?] at found
    split at found
    · simp_all
    · simp at found
  | cons character rest inductionHypothesis =>
    simp only [cut?] at found
    split at found
    · rename_i isStart
      obtain ⟨tail, split⟩ := List.isPrefixOf_iff_prefix.mp isStart
      simp only [Option.some.injEq, Prod.mk.injEq] at found
      obtain ⟨rfl, rfl⟩ := found
      rw [← split]
      simp
    · obtain ⟨⟨inner, outer⟩, cut, same⟩ := Option.map_eq_some_iff.mp found
      simp only [Prod.mk.injEq] at same
      obtain ⟨rfl, rfl⟩ := same
      rw [inductionHypothesis cut]
      simp

/-- The rest after a nonempty mark is shorter. -/
theorem length_lt_of_cut? {mark text before after : List Char} (nonempty : mark ≠ [])
    (found : cut? mark text = some (before, after)) : after.length < text.length := by
  have split := eq_append_of_cut? found
  have positive := List.length_pos_iff.mpr nonempty
  rw [split]
  simp only [List.length_append]
  omega

/-- Literal text, of which an empty piece makes no segment. -/
def literal (text : List Char) : List Segment := if text.isEmpty then [] else [.literal text]

/-- Cut a template into its segments.  Expressions lose the blanks around them. -/
def split (delimiters : Delimiters) (template : List Char) : List Segment :=
  match _opened : cut? delimiters.start template with
  | none => literal template
  | some (before, inside) =>
    match _closed : cut? delimiters.finish inside with
    | none => literal template
    | some (expression, rest) =>
      literal before ++ .expression (Text.trim expression) :: split delimiters rest
termination_by template.length
decreasing_by
  have shorter := length_lt_of_cut? delimiters.start_ne_nil _opened
  have shortest := length_lt_of_cut? delimiters.finish_ne_nil _closed
  omega

def expression? : Segment → Option (List Char)
  | .literal _ => none
  | .expression text => some text

def expressions (delimiters : Delimiters) (template : List Char) : List (List Char) :=
  (split delimiters template).filterMap expression?

/-- What stands in a text between two places; `none` if they are not in order or lie beyond its end. -/
def slice? (text : List Char) (first last : Nat) : Option (List Char) :=
  if first ≤ last ∧ last ≤ text.length then some ((text.take last).drop first) else none

/-- Whether a template begins and ends with the delimiters and has none in between; the blanks around
it do not count.  There is no answer if its delimiters overlap. -/
def isWhole? (delimiters : Delimiters) (template : List Char) : Option Bool :=
  let trimmed := Text.trim template
  if delimiters.start.isPrefixOf trimmed && delimiters.finish.isSuffixOf trimmed then do
    let inner ← slice? trimmed delimiters.start.length
      (trimmed.length - delimiters.finish.length)
    return !contains inner delimiters.start && !contains inner delimiters.finish
  else some false

/-- How an expression gets its value; `none` when it has none. -/
abbrev Evaluator := List Char → Option Value

def evaluate (evaluator : Evaluator) (expression : List Char) : Attempt Value :=
  match evaluator expression with
  | some value => .ok value
  | none => Attempt.fail (.template (String.ofList expression))

/-- The text of the segments, every expression replaced by the text of its value. -/
def fill (evaluator : Evaluator) : List Segment → Attempt String
  | [] => .ok ""
  | .literal text :: rest => do return String.ofList text ++ (← fill evaluator rest)
  | .expression text :: rest => do
    let value ← evaluate evaluator text
    return value.display ++ (← fill evaluator rest)

/-- Render a template: without expression it is itself, a lone expression gives its value, and
anything else a text. -/
def render (delimiters : Delimiters) (evaluator : Evaluator) (template : String) :
    Attempt Value :=
  let segments := split delimiters template.toList
  match segments.filterMap expression? with
  | [] => .ok (.text template)
  | first :: _ =>
    -- Where there is an expression there is an answer, too.
    if isWhole? delimiters template.toList == some true then evaluate evaluator first
    else (fill evaluator segments).map .text

end Template

end StepQuery
