import Mathlib.Data.List.Forall2
import Mathlib.Data.List.TakeWhile
import StepQuery.Text.Indent

/-!
What becomes of the lines of an indented text.  The indentation of the first line is to be taken off all
lines.  What is taken off are the first blanks of that line, wherever in it they stand: when something
visible is in front of them, a line that begins with the same blanks loses columns that it should keep,
and all other lines are as they should be.
-/

namespace StepQuery.Text

/-- The blanks in front of a line. -/
def indentation (line : List Char) : List Char := line.takeWhile isAsciiBlank

/-- The columns that a line takes, two of them for each tab. -/
def width (line : List Char) : Nat := line.length + line.count '\t'

/-- Every tab in front of a line is shown as two spaces, and the rest of it as it is. -/
inductive Widened : List Char → List Char → Prop
  | rest {line} (ends : line.head? ≠ some '\t') : Widened line line
  | tab {line shown} (later : Widened line shown) : Widened ('\t' :: line) (' ' :: ' ' :: shown)

/-- A line that has the indentation is shown without it, and any other as a whole; the tabs that are then
in front of it are widened. -/
inductive Outdented (indent : List Char) : List Char → List Char → Prop
  | indented {rest shown} (widened : Widened rest shown) : Outdented indent (indent ++ rest) shown
  | other {line shown} (elsewhere : ¬indent <+: line) (widened : Widened line shown) :
      Outdented indent line shown

/-- The first blanks of a line, when something visible is in front of them. -/
inductive Gap : List Char → List Char → Prop
  | intro {front gap behind : List Char} (visible : front ≠ [])
      (solid : ∀ character ∈ front, isAsciiBlank character = false) (present : gap ≠ [])
      (blank : ∀ character ∈ gap, isAsciiBlank character)
      (ends : ∀ character ∈ behind.head?, isAsciiBlank character = false) :
      Gap (front ++ gap ++ behind) gap

/-- A line does not begin with the gap of the first one. -/
def Spared (first line : List Char) : Prop := ∀ gap, Gap first gap → ¬gap <+: line

section Lines

variable {mark : Char} {text line : List Char}

theorem pieces_eq_splitOn (mark : Char) (text : List Char) : pieces mark text = text.splitOn mark := by
  induction text with
  | nil => rfl
  | cons character rest inductionHypothesis =>
    rw [pieces, List.splitOn_cons_eq_if_modifyHead, inductionHypothesis]
    cases pieces : rest.splitOn mark with
    | nil => exact absurd pieces (List.splitOn_ne_nil mark rest)
    | cons first others => rfl

theorem notMem_of_mem_splitOn (member : line ∈ text.splitOn mark) : mark ∉ line := by
  induction text generalizing line with
  | nil =>
    obtain rfl : line = [] := by simpa using member
    exact List.not_mem_nil
  | cons character rest inductionHypothesis =>
    rw [List.splitOn_cons_eq_if_modifyHead] at member
    split at member
    · rcases List.mem_cons.mp member with rfl | later
      · exact List.not_mem_nil
      · exact inductionHypothesis later
    · next other =>
      cases pieces : rest.splitOn mark with
      | nil => exact absurd pieces (List.splitOn_ne_nil mark rest)
      | cons first others =>
        rw [pieces] at inductionHypothesis member
        rcases List.mem_cons.mp member with rfl | later
        · refine List.not_mem_cons_of_ne_of_not_mem (fun same => other ?_)
            (inductionHypothesis List.mem_cons_self)
          rw [same, beq_self_eq_true]
        · exact inductionHypothesis (List.mem_cons_of_mem _ later)

end Lines

section Shifting

variable {indent line shown : List Char}

theorem shifted_append (indent rest : List Char) : shifted indent (indent ++ rest) = shifted [] rest := by
  simp [shifted]

theorem shifted_of_not_isPrefix (elsewhere : ¬indent <+: line) :
    shifted indent line = shifted [] line := by
  simp [shifted, elsewhere]

theorem shifted_tab (rest : List Char) : shifted [] ('\t' :: rest) = ' ' :: ' ' :: shifted [] rest := by
  simp [shifted]

theorem shifted_rest (ends : line.head? ≠ some '\t') : shifted [] line = line := by
  cases line with
  | nil => rfl
  | cons character rest =>
    have other : character ≠ '\t' := fun same => ends (congrArg some same)
    simp [shifted, other]

theorem widened_iff : Widened line shown ↔ shown = shifted [] line := by
  constructor
  · intro widened
    induction widened with
    | rest ends => rw [shifted_rest ends]
    | tab later inductionHypothesis => rw [shifted_tab, inductionHypothesis]
  · rintro rfl
    induction line with
    | nil => exact .rest (by simp)
    | cons character rest inductionHypothesis =>
      by_cases tab : character = '\t'
      · subst tab
        rw [shifted_tab]
        exact .tab inductionHypothesis
      · have ends : (character :: rest).head? ≠ some '\t' := by simpa using tab
        rw [shifted_rest ends]
        exact .rest ends

theorem outdented_iff : Outdented indent line shown ↔ shown = shifted indent line := by
  constructor
  · rintro (⟨widened⟩ | ⟨elsewhere, widened⟩)
    · rw [shifted_append, widened_iff.mp widened]
    · rw [shifted_of_not_isPrefix elsewhere, widened_iff.mp widened]
  · rintro rfl
    by_cases stands : indent <+: line
    · obtain ⟨rest, rfl⟩ := stands
      rw [shifted_append]
      exact .indented (widened_iff.mpr rfl)
    · rw [shifted_of_not_isPrefix stands]
      exact .other stands (widened_iff.mpr rfl)

theorem width_space (line : List Char) : width (' ' :: line) = width line + 1 := by
  rw [width, width, List.length_cons, List.count_cons_of_ne (by decide)]
  omega

theorem width_tab (line : List Char) : width ('\t' :: line) = width line + 2 := by
  rw [width, width, List.length_cons, List.count_cons_self]
  omega

theorem width_append (indent rest : List Char) : width (indent ++ rest) = width indent + width rest := by
  rw [width, width, width, List.length_append, List.count_append]
  omega

theorem width_eq_zero_iff : width line = 0 ↔ line = [] := by
  cases line with
  | nil => simp [width]
  | cons character rest => simp [width]

theorem Widened.width_eq (widened : Widened line shown) : width shown = width line := by
  induction widened with
  | rest => rfl
  | tab later inductionHypothesis => rw [width_space, width_space, width_tab, inductionHypothesis]

theorem width_shifted (line : List Char) : width (shifted [] line) = width line :=
  (widened_iff.mpr rfl).width_eq

/-- A line loses columns exactly if it begins with the indentation. -/
theorem width_shifted_lt_iff :
    width (shifted indent line) < width line ↔ indent <+: line ∧ indent ≠ [] := by
  by_cases stands : indent <+: line
  · obtain ⟨rest, rfl⟩ := stands
    have present : indent ≠ [] ↔ width rest < width indent + width rest := by
      rw [Ne, ← width_eq_zero_iff]
      omega
    rw [shifted_append, width_shifted, width_append, ← present]
    exact (and_iff_right (List.prefix_append _ _)).symm
  · rw [shifted_of_not_isPrefix stands, width_shifted]
    exact iff_of_false (Nat.lt_irrefl _) fun begins => stands begins.1

/-- A line is shown as without indentation exactly if it loses no columns. -/
theorem shifted_eq_iff :
    shifted indent line = shifted [] line ↔ ¬(indent <+: line ∧ indent ≠ []) := by
  constructor
  · intro same
    -- Lengths need not tell the two apart, as tabs that come to stand in front become longer; columns do.
    rw [← width_shifted_lt_iff, same, width_shifted]
    exact Nat.lt_irrefl _
  · intro kept
    by_cases stands : indent <+: line
    · rw [Decidable.not_not.mp fun present => kept ⟨stands, present⟩]
    · exact shifted_of_not_isPrefix stands

theorem Widened.notMem (widened : Widened line shown) (solid : '\n' ∉ line) : '\n' ∉ shown := by
  induction widened with
  | rest => exact solid
  | tab later inductionHypothesis =>
    have behind := inductionHypothesis fun member => solid (List.mem_cons_of_mem _ member)
    simpa using behind

theorem Outdented.notMem (outdented : Outdented indent line shown) (solid : '\n' ∉ line) :
    '\n' ∉ shown := by
  rcases outdented with ⟨widened⟩ | ⟨-, widened⟩
  · exact widened.notMem fun member => solid (List.mem_append_right indent member)
  · exact widened.notMem solid

end Shifting

section Gaps

variable {first line gap : List Char}

theorem Gap.ne_nil (found : Gap first gap) : gap ≠ [] := by
  obtain ⟨visible, solid, present, blank, ends⟩ := found
  exact present

theorem firstBlanks_of_solid {front : List Char}
    (solid : ∀ character ∈ front, isAsciiBlank character = false) (rest : List Char) :
    firstBlanks (front ++ rest) = firstBlanks rest := by
  rw [firstBlanks, firstBlanks, List.dropWhile_append_of_pos (by simpa using solid)]

theorem firstBlanks_of_blank {character : Char} (blank : isAsciiBlank character) (rest : List Char) :
    firstBlanks (character :: rest) = indentation (character :: rest) := by
  simp [firstBlanks, indentation, blank]

theorem Gap.firstBlanks_eq (found : Gap first gap) : firstBlanks first = gap := by
  obtain @⟨front, gap, behind, visible, solid, present, blank, ends⟩ := found
  obtain ⟨character, others, rfl⟩ := List.exists_cons_of_ne_nil present
  rw [List.append_assoc, firstBlanks_of_solid solid, List.cons_append,
    firstBlanks_of_blank (blank character List.mem_cons_self), ← List.cons_append, indentation,
    List.takeWhile_append_of_pos blank]
  cases behind with
  | nil => simp
  | cons next later => simp [ends next rfl]

theorem Gap.indentation_eq_nil (found : Gap first gap) : indentation first = [] := by
  obtain @⟨front, gap, behind, visible, solid, present, blank, ends⟩ := found
  obtain ⟨character, others, rfl⟩ := List.exists_cons_of_ne_nil visible
  simp [indentation, solid character List.mem_cons_self]

theorem gap_firstBlanks (other : firstBlanks first ≠ indentation first) :
    Gap first (firstBlanks first) := by
  cases first with
  | nil => exact absurd rfl other
  | cons character rest =>
    have begins : isAsciiBlank character = false :=
      Bool.eq_false_iff.mpr fun blank => other (firstBlanks_of_blank blank rest)
    have bare : indentation (character :: rest) = [] := by simp [indentation, begins]
    have visible : (character :: rest).takeWhile (!isAsciiBlank ·) ≠ [] := by simp [begins]
    have solid : ∀ inner ∈ (character :: rest).takeWhile (!isAsciiBlank ·), isAsciiBlank inner = false :=
      fun inner member => by simpa using List.mem_takeWhile_imp member
    have blank : ∀ inner ∈ firstBlanks (character :: rest), isAsciiBlank inner :=
      fun inner member => List.mem_takeWhile_imp member
    have ends : ∀ next ∈
        (((character :: rest).dropWhile (!isAsciiBlank ·)).dropWhile isAsciiBlank).head?,
        isAsciiBlank next = false := by
      intro next head
      have stop := List.head?_dropWhile_not isAsciiBlank
        ((character :: rest).dropWhile (!isAsciiBlank ·))
      rw [Option.mem_def.mp head] at stop
      simpa using stop
    -- The line is cut in three: before its first blanks, these, and behind them.
    have gap := Gap.intro visible solid (bare ▸ other) blank ends
    rwa [List.append_assoc, firstBlanks, List.takeWhile_append_dropWhile,
      List.takeWhile_append_dropWhile] at gap

theorem spared_iff :
    Spared first line ↔ ¬(firstBlanks first <+: line ∧ firstBlanks first ≠ indentation first) := by
  constructor
  · rintro spared ⟨stands, other⟩
    exact spared _ (gap_firstBlanks other) stands
  · intro kept gap found stands
    refine kept ⟨found.firstBlanks_eq ▸ stands, ?_⟩
    rw [found.firstBlanks_eq, found.indentation_eq_nil]
    exact found.ne_nil

/-- A line is shown without the indentation of the first one exactly if it is spared. -/
theorem outdented_shifted_iff :
    Outdented (indentation first) line (shifted (firstBlanks first) line) ↔ Spared first line := by
  rw [outdented_iff, spared_iff]
  by_cases same : firstBlanks first = indentation first
  · rw [same]
    exact iff_of_true rfl fun lost => lost.2 rfl
  · rw [(gap_firstBlanks same).indentation_eq_nil]
    exact shifted_eq_iff

theorem width_shifted_firstBlanks_lt_iff (bare : indentation first = []) :
    width (shifted (firstBlanks first) line) < width line ↔ ¬Spared first line := by
  rw [width_shifted_lt_iff, spared_iff, bare, Decidable.not_not]

end Gaps

theorem splitOn_unindented {text opening first : List Char} {rest : List (List Char)}
    (lines : text.splitOn '\n' = opening :: first :: rest) :
    (unindented text).splitOn '\n' = (first :: rest).map (shifted (firstBlanks first)) := by
  have solid : ∀ shown ∈ (first :: rest).map (shifted (firstBlanks first)), '\n' ∉ shown := by
    intro shown member
    obtain ⟨line, listed, same⟩ := List.mem_map.mp member
    have within : line ∈ text.splitOn '\n' := lines ▸ List.mem_cons_of_mem opening listed
    exact (outdented_iff.mpr same.symm).notMem (notMem_of_mem_splitOn within)
  rw [unindented, pieces_eq_splitOn, lines]
  exact List.splitOn_intercalate '\n' solid (by simp)

/-- The lines of a text behind its opening are shown without the indentation of the first of them exactly
if none of them begins with a gap of that one, which is what they are shown without if it has one.  Where
the first line is not indented, the lines that begin with its gap, and no others, lose columns. -/
theorem unindented_outdents_iff {text opening first : List Char} {rest : List (List Char)}
    (lines : text.splitOn '\n' = opening :: first :: rest) :
    (List.Forall₂ (Outdented (indentation first)) (first :: rest) ((unindented text).splitOn '\n') ↔
      ∀ line ∈ first :: rest, Spared first line) ∧
    List.Forall₂ (fun line shown =>
        (Outdented (indentation first) line shown ↔ Spared first line) ∧
        (∀ gap, Gap first gap → Outdented gap line shown) ∧
        (indentation first = [] → (width shown < width line ↔ ¬Spared first line)))
      (first :: rest) ((unindented text).splitOn '\n') := by
  rw [splitOn_unindented lines, List.forall₂_map_right_iff, List.forall₂_map_right_iff,
    List.forall₂_same, List.forall₂_same]
  refine ⟨forall₂_congr fun _ _ => outdented_shifted_iff, fun line _ =>
    ⟨outdented_shifted_iff, fun gap found => ?_, width_shifted_firstBlanks_lt_iff⟩⟩
  rw [outdented_iff, found.firstBlanks_eq]

/-- Lines keep their relative indentation, also one that is indented otherwise than the first.  Where that
is not indented, a line that begins with its gap is short of two columns. -/
theorem unindented_outdents_steps :
    ("\n\t- a\n\t\tb: c\n  d".toList.splitOn '\n' =
        [[], "\t- a".toList, "\t\tb: c".toList, "  d".toList] ∧
      List.Forall₂ (Outdented ['\t']) ["\t- a".toList, "\t\tb: c".toList, "  d".toList]
        ["- a".toList, "  b: c".toList, "  d".toList]) ∧
    "\na:  b\n   c".toList.splitOn '\n' = [[], "a:  b".toList, "   c".toList] ∧
    indentation "a:  b".toList = [] ∧
    List.Forall₂ (fun line shown => width shown < width line ↔ ¬Spared "a:  b".toList line)
      ["a:  b".toList, "   c".toList] ["a:  b".toList, " c".toList] := by
  have indented : "\n\t- a\n\t\tb: c\n  d".toList.splitOn '\n' =
      [[], "\t- a".toList, "\t\tb: c".toList, "  d".toList] := by decide
  have flush : "\na:  b\n   c".toList.splitOn '\n' = [[], "a:  b".toList, "   c".toList] := by decide
  have bare : indentation "a:  b".toList = [] := by decide
  refine ⟨⟨indented, (unindented_outdents_iff indented).1.mpr ?_⟩, flush, bare,
    (unindented_outdents_iff flush).2.imp fun _ _ outcome => outcome.2.2 bare⟩
  simp only [spared_iff]
  decide

/-- A line loses columns that the first line, which is not indented, has between two words. -/
theorem not_unindented_outdents :
    ¬∀ (text opening first : List Char) (rest : List (List Char)),
      text.splitOn '\n' = opening :: first :: rest →
      List.Forall₂ (Outdented (indentation first)) (first :: rest) ((unindented text).splitOn '\n') := by
  intro outdents
  have lines : "\na: b\n  c: d".toList.splitOn '\n' = [[], "a: b".toList, "  c: d".toList] := by decide
  have read := outdents _ _ _ _ lines
  rw [splitOn_unindented lines, List.forall₂_map_right_iff, List.forall₂_same] at read
  have last := outdented_iff.mp (read "  c: d".toList (by simp))
  revert last
  decide

end StepQuery.Text
