import Mathlib.Data.List.Infix
import StepQuery.Summary

/-!
Sentences of conditions are unambiguous.  A sentence is read from left to right: what a comparison says
goes on to the next connective or to a parenthesis that it does not open itself, and a combination
inside another one goes on to the parenthesis that closes its own.  So the sentence of a condition tells
how its combinations are nested and what its comparisons say.
-/

namespace StepQuery

namespace Summary

inductive Junction where
  | all
  | any
deriving DecidableEq

def Junction.word : Junction → String
  | .all => "AND"
  | .any => "OR"

/-- What a sentence tells of a condition: how it is nested, and what its comparisons say. -/
inductive Outline where
  | leaf (said : String)
  | junction (kind : Junction) (parts : List Outline)

mutual

def outline (delimiters : Delimiters) : Condition → Outline
  | .absent => .leaf emptyCondition
  | .simple held => .leaf (comparison delimiters held)
  | .all children => .junction .all (outlines delimiters children)
  | .any children => .junction .any (outlines delimiters children)

def outlines (delimiters : Delimiters) : List Condition → List Outline
  | [] => []
  | first :: rest => outline delimiters first :: outlines delimiters rest

end

namespace Outline

mutual

def sentence (outermost : Bool) : Outline → String
  | .leaf said => said
  | .junction kind parts => combined outermost kind.word (sentences parts)

def sentences : List Outline → List String
  | [] => []
  | first :: rest => sentence false first :: sentences rest

end

end Outline

mutual

/-- The sentence of a condition is that of its outline. -/
theorem sentence_outline (delimiters : Delimiters) (outermost : Bool) : (held : Condition) →
    (outline delimiters held).sentence outermost = condition delimiters outermost held
  | .absent | .simple _ => by rw [outline, Outline.sentence, condition]
  | .all children | .any children => by
    rw [outline, Outline.sentence, condition, sentences_outlines]
    rfl

theorem sentences_outlines (delimiters : Delimiters) : (children : List Condition) →
    Outline.sentences (outlines delimiters children) = conditions delimiters children
  | [] => by rw [outlines, Outline.sentences, conditions]
  | first :: rest => by
    rw [outlines, Outline.sentences, conditions, sentence_outline, sentences_outlines]

end

section Parentheses

/-- All parentheses are closed, and none before it is opened. -/
def Balanced (text : List Char) : Prop :=
  text.count '(' = text.count ')' ∧ ∀ front, front <+: text → front.count ')' ≤ front.count '('

instance (text : List Char) : Decidable (Balanced text) :=
  decidable_of_iff
    (text.count '(' = text.count ')' ∧ ∀ front ∈ text.inits, front.count ')' ≤ front.count '(')
    (by simp only [List.mem_inits]; rfl)

variable {text other front rest : List Char}

theorem Balanced.append (balanced : Balanced text) (balanced' : Balanced other) :
    Balanced (text ++ other) := by
  refine ⟨by rw [List.count_append, List.count_append, balanced.1, balanced'.1], ?_⟩
  rintro front ⟨rest, same⟩
  rcases List.append_eq_append_iff.mp same with ⟨more, rfl, _⟩ | ⟨more, rfl, rfl⟩
  · exact balanced.2 front (List.prefix_append front more)
  · have within := balanced'.2 more (List.prefix_append more rest)
    rw [List.count_append, List.count_append, balanced.1]
    omega

/-- A text between parentheses is open until its end. -/
theorem Balanced.open_of_append (balanced : Balanced text) (begun : front ≠ []) (unfinished : rest ≠ [])
    (same : '(' :: (text ++ [')']) = front ++ rest) : front.count ')' < front.count '(' := by
  obtain ⟨first, others, rfl⟩ := List.exists_cons_of_ne_nil begun
  rw [List.cons_append, List.cons.injEq] at same
  obtain ⟨rfl, same⟩ := same
  have within : others <+: text := by
    rcases List.append_eq_append_iff.mp same with ⟨more, rfl, last⟩ | ⟨more, rfl, _⟩
    · rcases List.append_eq_singleton_iff.mp last.symm with ⟨rfl, _⟩ | ⟨_, rfl⟩
      · rw [List.append_nil]
      · exact absurd rfl unfinished
    · exact List.prefix_append others more
  have le := balanced.2 others within
  simp
  omega

theorem Balanced.parenthesized (balanced : Balanced text) : Balanced ('(' :: (text ++ [')'])) := by
  refine ⟨by simp [balanced.1], ?_⟩
  rintro front ⟨rest, same⟩
  by_cases begun : front = []
  · rw [begun]
    exact Nat.le_refl _
  · by_cases unfinished : rest = []
    · rw [unfinished, List.append_nil] at same
      simp [same, balanced.1]
    · exact (balanced.open_of_append begun unfinished same.symm).le

end Parentheses

section Texts

/-- The characters of a sentence inside another one. -/
def Outline.text (outline : Outline) : List Char := (outline.sentence false).toList

/-- Sentences, each behind a connective. -/
def connected (kind : Junction) (parts : List Outline) : List Char :=
  parts.flatMap fun part => (connective kind.word).toList ++ part.text

theorem connected_cons (kind : Junction) (first : Outline) (parts : List Outline) :
    connected kind (first :: parts) =
      (connective kind.word).toList ++ (first.text ++ connected kind parts) := by
  rw [connected, List.flatMap_cons, List.append_assoc, connected]

/-- Sentences with connectives between them. -/
def joined (kind : Junction) (parts : List Outline) : List Char :=
  (String.intercalate (connective kind.word) (Outline.sentences parts)).toList

theorem joined_cons (kind : Junction) (first : Outline) (parts : List Outline) :
    joined kind (first :: parts) = first.text ++ connected kind parts := by
  induction parts generalizing first with
  | nil => simp [joined, connected, Outline.sentences, Outline.text]
  | cons next parts inductionHypothesis =>
    rw [connected_cons, ← inductionHypothesis]
    simp [joined, Outline.sentences, Outline.text]

theorem text_junction (kind : Junction) (parts : List Outline) :
    (Outline.junction kind parts).text = '(' :: (joined kind parts ++ [')']) := by
  simp [Outline.text, Outline.sentence, combined, joined]

end Texts

section Stopping

/-- What each connective begins with. -/
def mark : List Char := [' ', '<', 's', 't', 'r', 'o', 'n', 'g', '>']

theorem toList_connective (kind : Junction) :
    (connective kind.word).toList = mark ++ (kind.word ++ "</strong> ").toList := by
  cases kind <;> decide

/-- A text in which a sentence can stop: nothing follows, or a closing parenthesis or connective. -/
inductive Stops : List Char → Prop
  | finished : Stops []
  | closed {rest} : Stops (')' :: rest)
  | connected {rest} : Stops (mark ++ rest)

variable {text more rest later : List Char}

/-- Where a sentence can stop there is a closing parenthesis or a blank, if anything. -/
theorem Stops.head_eq {next : Char} (stops : Stops (next :: rest)) : next = ')' ∨ next = ' ' := by
  generalize same : next :: rest = text at stops
  cases stops with
  | finished => cases same
  | closed => exact .inl (List.cons.inj same).1
  | connected => exact .inr (List.cons.inj same).1

/-- What a comparison says is not continued where a sentence can stop. -/
theorem eq_nil_of_stops (balanced : Balanced text) (longer : Balanced (text ++ more))
    (plain : ¬mark <:+: text ++ more) (stops : Stops (more ++ later)) (ends : Stops later) :
    more = [] := by
  by_contra present
  generalize same : more ++ later = rest at stops
  cases stops with
  | finished => exact present (List.append_eq_nil_iff.mp same).1
  | @closed rest =>
    obtain ⟨first, others, rfl⟩ := List.exists_cons_of_ne_nil present
    rw [List.cons_append, List.cons.injEq] at same
    obtain ⟨rfl, _⟩ := same
    have closes := longer.2 (text ++ [')']) ⟨others, by simp⟩
    have alone : [')'].count ')' = 1 ∧ [')'].count '(' = 0 := by decide
    rw [List.count_append, List.count_append, balanced.1] at closes
    omega
  | @connected rest =>
    rcases List.append_eq_append_iff.mp same with ⟨other, cut, rfl⟩ | ⟨other, rfl, _⟩
    · -- The connective begins before the text ends, so what follows the text would be inside it.
      cases other with
      | nil =>
        rw [List.append_nil] at cut
        exact plain (cut ▸ (List.suffix_append text more).isInfix)
      | cons next behind =>
        obtain ⟨first, others, rfl⟩ := List.exists_cons_of_ne_nil present
        have inside : next ∈ mark.tail := by
          rw [cut]
          simp
        have strange : ∀ inner ∈ mark.tail, ¬(inner = ')' ∨ inner = ' ') := by simp [mark]
        exact strange next inside ends.head_eq
    · exact plain ⟨text, other, by simp⟩

/-- Nothing follows, or a closing parenthesis. -/
def Closes (rest : List Char) : Prop := ∀ next ∈ rest.head?, next = ')'

theorem Closes.stops (closes : Closes rest) : Stops rest := by
  cases rest with
  | nil => exact .finished
  | cons next others =>
    obtain rfl := closes next rfl
    exact .closed

theorem stops_connected_append (kind : Junction) (parts : List Outline) (closes : Closes rest) :
    Stops (connected kind parts ++ rest) := by
  cases parts with
  | nil => exact closes.stops
  | cons first parts =>
    rw [connected_cons, toList_connective]
    simp only [List.append_assoc]
    exact .connected

theorem Closes.ne_connected (closes : Closes rest) (kind : Junction) (first : Outline)
    (parts : List Outline) : [] ++ rest ≠ connected kind (first :: parts) ++ later := by
  rintro rfl
  rw [connected_cons, toList_connective] at closes
  exact absurd (closes ' ' rfl) (by decide)

/-- The parts of a combination are connected in one way. -/
theorem connective_append_inj {kind kind' : Junction}
    (same : (connective kind.word).toList ++ rest = (connective kind'.word).toList ++ later) :
    kind = kind' ∧ rest = later := by
  cases kind <;> cases kind' <;> simp [connective, Junction.word] at same <;> exact ⟨rfl, same⟩

/-- The text of a combination holds a connective. -/
theorem mark_infix_joined (kind : Junction) {parts : List Outline} (several : 2 ≤ parts.length) :
    mark <:+: joined kind parts := by
  match parts, several with
  | first :: next :: parts, _ =>
    rw [joined_cons, connected_cons, toList_connective]
    exact ⟨first.text, _, by simp only [List.append_assoc]; rfl⟩

end Stopping

section Reading

/-- An outline whose sentence can be read: combinations have parts to connect, and what comparisons say
keeps its parentheses in order and looks like no connective. -/
inductive Readable : Outline → Prop
  | leaf {said} (balanced : Balanced said.toList) (plain : ¬mark <:+: said.toList) :
      Readable (.leaf said)
  | junction {kind parts} (several : 2 ≤ parts.length) (each : ∀ part ∈ parts, Readable part) :
      Readable (.junction kind parts)

variable {outline other : Outline} {rest later : List Char}

theorem balanced_connected (kind : Junction) {parts : List Outline}
    (each : ∀ part ∈ parts, Balanced part.text) : Balanced (connected kind parts) := by
  induction parts with
  | nil => exact (by decide : Balanced [])
  | cons first parts inductionHypothesis =>
    obtain ⟨former, latter⟩ := List.forall_mem_cons.mp each
    have connective : Balanced (connective kind.word).toList := by cases kind <;> decide
    rw [connected_cons]
    exact connective.append (former.append (inductionHypothesis latter))

/-- Sentences that keep their parentheses in order do so together. -/
theorem balanced_joined (kind : Junction) {parts : List Outline}
    (each : ∀ part ∈ parts, Balanced part.text) : Balanced (joined kind parts) := by
  cases parts with
  | nil => exact (by decide : Balanced [])
  | cons first parts =>
    obtain ⟨former, latter⟩ := List.forall_mem_cons.mp each
    rw [joined_cons]
    exact former.append (balanced_connected kind latter)

theorem Readable.balanced (readable : Readable outline) : Balanced outline.text := by
  induction readable with
  | leaf balanced => rwa [Outline.text, Outline.sentence]
  | junction _ _ inductionHypothesis =>
    rw [text_junction]
    exact (balanced_joined _ inductionHypothesis).parenthesized

/-- A comparison does not say what a combination says, whatever follows them. -/
theorem leaf_append_ne_junction {said : String} {kind : Junction} {parts : List Outline}
    (leaf : Readable (.leaf said)) (junction : Readable (.junction kind parts)) (ends : Stops rest) :
    said.toList ++ rest ≠ (Outline.junction kind parts).text ++ later := by
  rw [text_junction]
  intro same
  cases leaf with
  | leaf balanced plain =>
    cases junction with
    | junction several each =>
      have held : mark <:+: '(' :: (joined kind parts ++ [')']) :=
        (mark_infix_joined kind several).trans ⟨['('], [')'], rfl⟩
      rcases List.append_eq_append_iff.mp same with ⟨more, whole, rfl⟩ | ⟨more, whole, _⟩
      · by_cases unfinished : more = []
        · rw [unfinished, List.append_nil] at whole
          exact plain (whole ▸ held)
        by_cases begun : said.toList = []
        · rw [begun, List.nil_append] at whole
          rw [← whole] at ends
          rcases ends.head_eq with impossible | impossible <;> cases impossible
        · have inner := balanced_joined kind fun part member => (each part member).balanced
          have unclosed := inner.open_of_append begun unfinished whole
          exact absurd balanced.1 unclosed.ne'
      · exact plain (whole ▸ held.trans (List.prefix_append _ more).isInfix)

theorem leaf_append_inj {said said' : String} (leaf : Readable (.leaf said))
    (leaf' : Readable (.leaf said')) (stops : Stops rest) (stops' : Stops later)
    (same : said.toList ++ rest = said'.toList ++ later) : said = said' ∧ rest = later := by
  cases leaf with
  | leaf balanced plain =>
    cases leaf' with
    | leaf balanced' plain' =>
      rcases List.append_eq_append_iff.mp same with ⟨more, whole, rfl⟩ | ⟨more, whole, rfl⟩
      · obtain rfl := eq_nil_of_stops balanced (whole ▸ balanced') (whole ▸ plain') stops stops'
        rw [List.append_nil] at whole
        exact ⟨String.toList_injective whole.symm, rfl⟩
      · obtain rfl := eq_nil_of_stops balanced' (whole ▸ balanced) (whole ▸ plain) stops' stops
        rw [List.append_nil] at whole
        exact ⟨String.toList_injective whole, rfl⟩

/-- A text that begins with the sentence of an outline begins with that of no other one, up to where
sentences stop. -/
def Determined (outline : Outline) : Prop :=
  ∀ {other rest later}, Readable other → Stops rest → Stops later →
    outline.text ++ rest = other.text ++ later → outline = other ∧ rest = later

section Parts

variable {kind kind' : Junction} {parts parts' : List Outline}

theorem connected_inj (determined : ∀ part ∈ parts, Determined part)
    (readable : ∀ part ∈ parts', Readable part) (closes : Closes rest) (closes' : Closes later)
    (same : connected kind parts ++ rest = connected kind' parts' ++ later) :
    parts = parts' ∧ rest = later ∧ (parts ≠ [] → kind = kind') := by
  induction parts generalizing parts' with
  | nil =>
    cases parts' with
    | nil => exact ⟨rfl, same, fun present => absurd rfl present⟩
    | cons first' parts' => exact absurd same (closes.ne_connected kind' first' parts')
  | cons first parts inductionHypothesis =>
    cases parts' with
    | nil => exact absurd same.symm (closes'.ne_connected kind first parts)
    | cons first' parts' =>
      obtain ⟨former, latter⟩ := List.forall_mem_cons.mp determined
      obtain ⟨former', latter'⟩ := List.forall_mem_cons.mp readable
      simp only [connected_cons, List.append_assoc] at same
      obtain ⟨alike, follows⟩ := connective_append_inj same
      obtain ⟨rfl, behind⟩ := former former' (stops_connected_append kind parts closes)
        (stops_connected_append kind' parts' closes') follows
      obtain ⟨rfl, rest_eq, _⟩ := inductionHypothesis latter latter' behind
      exact ⟨rfl, rest_eq, fun _ => alike⟩

theorem joined_inj (several : 2 ≤ parts.length) (several' : 2 ≤ parts'.length)
    (determined : ∀ part ∈ parts, Determined part) (readable : ∀ part ∈ parts', Readable part)
    (closes : Closes rest) (closes' : Closes later)
    (same : joined kind parts ++ rest = joined kind' parts' ++ later) :
    kind = kind' ∧ parts = parts' ∧ rest = later := by
  match parts, parts' with
  | first :: parts, first' :: parts' =>
    obtain ⟨former, latter⟩ := List.forall_mem_cons.mp determined
    obtain ⟨former', latter'⟩ := List.forall_mem_cons.mp readable
    rw [joined_cons, joined_cons, List.append_assoc, List.append_assoc] at same
    obtain ⟨rfl, behind⟩ := former former' (stops_connected_append kind parts closes)
      (stops_connected_append kind' parts' closes') same
    obtain ⟨rfl, rest_eq, alike⟩ := connected_inj latter latter' closes closes' behind
    exact ⟨alike (List.ne_nil_of_length_pos (Nat.le_of_succ_le_succ several)), rfl, rest_eq⟩

end Parts

/-- Sentences inside others are read in one way. -/
theorem Readable.determined (readable : Readable outline) : Determined outline := by
  induction readable with
  | @leaf said balanced plain =>
    intro other rest later readable' stops stops' same
    have leaf : Readable (.leaf said) := .leaf balanced plain
    cases readable' with
    | leaf balanced' plain' =>
      obtain ⟨rfl, behind⟩ := leaf_append_inj leaf (.leaf balanced' plain') stops stops' same
      exact ⟨rfl, behind⟩
    | junction several each =>
      exact absurd same (leaf_append_ne_junction leaf (.junction several each) stops)
  | junction several each inductionHypothesis =>
    intro other rest later readable' stops stops' same
    cases readable' with
    | leaf balanced plain =>
      exact absurd same.symm
        (leaf_append_ne_junction (.leaf balanced plain) (.junction several each) stops')
    | junction several' each' =>
      rw [text_junction, text_junction, List.cons_append, List.cons_append, List.cons.injEq,
        List.append_assoc, List.append_assoc] at same
      have closes : ∀ rest : List Char, Closes ([')'] ++ rest) := by rintro rest _ ⟨⟩; rfl
      obtain ⟨rfl, rfl, behind⟩ := joined_inj several several' inductionHypothesis each'
        (closes rest) (closes later) same.2
      exact ⟨rfl, List.append_cancel_left behind⟩

/-- The sentence of a whole condition stands without parentheses. -/
theorem toList_sentence_junction (kind : Junction) (parts : List Outline) :
    ((Outline.junction kind parts).sentence true).toList = joined kind parts := by
  rw [Outline.sentence]
  rfl

theorem leaf_ne_joined {said : String} {kind : Junction} {parts : List Outline}
    (leaf : Readable (.leaf said)) (several : 2 ≤ parts.length) : said.toList ≠ joined kind parts := by
  intro same
  cases leaf with
  | leaf _ plain => exact plain (same ▸ mark_infix_joined kind several)

theorem sentence_inj (readable : Readable outline) (readable' : Readable other)
    (same : outline.sentence true = other.sentence true) : outline = other := by
  have same := congrArg String.toList same
  cases readable with
  | leaf balanced plain =>
    cases readable' with
    | leaf balanced' plain' =>
      simp only [Outline.sentence] at same
      rw [String.toList_injective same]
    | junction several each =>
      rw [toList_sentence_junction, Outline.sentence] at same
      exact absurd same (leaf_ne_joined (.leaf balanced plain) several)
  | junction several each =>
    cases readable' with
    | leaf balanced plain =>
      rw [toList_sentence_junction, Outline.sentence] at same
      exact absurd same.symm (leaf_ne_joined (.leaf balanced plain) several)
    | junction several' each' =>
      rw [toList_sentence_junction, toList_sentence_junction] at same
      have closes : Closes [] := nofun
      have ended : joined _ _ ++ [] = joined _ _ ++ [] := congrArg (· ++ []) same
      obtain ⟨rfl, rfl, _⟩ := joined_inj several several'
        (fun part member => (each part member).determined) each' closes closes ended
      rfl

end Reading

section Conditions

variable {delimiters : Delimiters} {held other : Condition}

/-- Conditions have the same sentence exactly if they are nested alike and their comparisons say the
same. -/
theorem condition_eq_iff_outline_eq (readable : Readable (outline delimiters held))
    (readable' : Readable (outline delimiters other)) :
    condition delimiters true held = condition delimiters true other ↔
      outline delimiters held = outline delimiters other := by
  rw [← sentence_outline, ← sentence_outline]
  exact ⟨sentence_inj readable readable', congrArg _⟩

/-- A combination inside another one, with parentheses in what one of its comparisons says. -/
def nested (template : String) : Condition :=
  .all [.simple ⟨"a", "gt", .int 1⟩,
    .any [.simple ⟨"b", "isnull", .null⟩, .simple ⟨"c", "in", .list [.text "x", .text template]⟩]]

def nestedOutline : Outline :=
  .junction .all [.leaf "a > 1",
    .junction .any [.leaf "b is null", .leaf "c is in ('x', <em>n</em>)"]]

theorem readable_nestedOutline : Readable nestedOutline := by
  have leaf : ∀ said ∈ ["a > 1", "b is null", "c is in ('x', <em>n</em>)"], Readable (.leaf said) := by
    intro said member
    have checked : Balanced said.toList ∧ ¬mark <:+: said.toList := by
      revert said
      decide
    exact .leaf checked.1 checked.2
  simp only [List.forall_mem_cons] at leaf
  obtain ⟨first, second, third, _⟩ := leaf
  refine .junction (by decide) (List.forall_mem_cons.mpr ⟨first, List.forall_mem_singleton.mpr ?_⟩)
  exact .junction (by decide) (List.forall_mem_cons.mpr ⟨second, List.forall_mem_singleton.mpr third⟩)

/-- The blanks around a template expression are not told. -/
theorem outline_nested_blanks :
    Readable (outline .curly (nested "\x7b\x7b n \x7d\x7d")) ∧
      Readable (outline .curly (nested "\x7b\x7bn\x7d\x7d")) ∧
      outline .curly (nested "\x7b\x7b n \x7d\x7d") = outline .curly (nested "\x7b\x7bn\x7d\x7d") := by
  have spaced : outline .curly (nested "\x7b\x7b n \x7d\x7d") = nestedOutline := rfl
  have tight : outline .curly (nested "\x7b\x7bn\x7d\x7d") = nestedOutline := rfl
  have readable := spaced ▸ readable_nestedOutline
  have readable' := tight ▸ readable_nestedOutline
  exact ⟨readable, readable', (condition_eq_iff_outline_eq readable readable').mp rfl⟩

end Conditions

end Summary

end StepQuery
