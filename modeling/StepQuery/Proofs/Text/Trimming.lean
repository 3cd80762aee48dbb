import Mathlib.Data.List.DropRight
import StepQuery.Text.Class

/-!
What trimming leaves of a text: a stretch of it without blanks at its ends and with nothing but blanks
around it.
-/

namespace StepQuery.Text

def AllBlank (text : List Char) : Prop := ∀ character ∈ text, isBlank character

def BeginsVisibly (text : List Char) : Prop := ∃ first ∈ text.head?, isBlank first = false

def EndsVisibly (text : List Char) : Prop := ∃ last ∈ text.getLast?, isBlank last = false

variable {text before middle after : List Char}

theorem BeginsVisibly.append (begins : BeginsVisibly text) (after : List Char) :
    BeginsVisibly (text ++ after) := by
  obtain ⟨first, head, visible⟩ := begins
  exact ⟨first, by simp [List.head?_append, Option.mem_def.mp head], visible⟩

theorem EndsVisibly.append (ends : EndsVisibly text) (before : List Char) :
    EndsVisibly (before ++ text) := by
  obtain ⟨last, tail, visible⟩ := ends
  exact ⟨last, by simp [List.getLast?_append, Option.mem_def.mp tail], visible⟩

theorem BeginsVisibly.of_isPrefix (begins : BeginsVisibly text) (nonempty : before ≠ [])
    (shorter : before <+: text) : BeginsVisibly before := by
  obtain ⟨first, head, visible⟩ := begins
  obtain ⟨rest, rfl⟩ := shorter
  exact ⟨first, by rwa [List.head?_append_of_ne_nil _ nonempty] at head, visible⟩

theorem EndsVisibly.of_isSuffix (ends : EndsVisibly text) (nonempty : after ≠ [])
    (shorter : after <:+ text) : EndsVisibly after := by
  obtain ⟨last, tail, visible⟩ := ends
  obtain ⟨front, rfl⟩ := shorter
  exact ⟨last, by rwa [List.getLast?_append_of_ne_nil _ nonempty] at tail, visible⟩

theorem AllBlank.not_beginsVisibly (blank : AllBlank text) : ¬BeginsVisibly text := by
  rintro ⟨first, head, visible⟩
  rw [blank first (List.mem_of_mem_head? head)] at visible
  cases visible

theorem AllBlank.not_endsVisibly (blank : AllBlank text) : ¬EndsVisibly text := by
  rintro ⟨last, tail, visible⟩
  rw [blank last (List.mem_of_mem_getLast? tail)] at visible
  cases visible

theorem AllBlank.drop (blank : AllBlank text) (count : Nat) : AllBlank (text.drop count) :=
  fun character member => blank character (List.mem_of_mem_drop member)

theorem dropWhile_append_visible (begins : BeginsVisibly after) (before : List Char) :
    (before ++ after).dropWhile isBlank = before.dropWhile isBlank ++ after := by
  induction before with
  | nil =>
    obtain ⟨first, head, visible⟩ := begins
    obtain ⟨rest, rfl⟩ := List.head?_eq_some_iff.mp head
    simp [visible]
  | cons character rest inductionHypothesis =>
    rw [List.cons_append, List.dropWhile_cons, List.dropWhile_cons, inductionHypothesis]
    split <;> rfl

theorem beginsVisibly_reverse : BeginsVisibly text.reverse ↔ EndsVisibly text := by
  rw [BeginsVisibly, EndsVisibly, List.head?_reverse]

/-- Blanks are trimmed on both sides of a stretch with visible ends, and nowhere else. -/
theorem trim_append (begins : BeginsVisibly middle) (ends : EndsVisibly middle)
    (before after : List Char) :
    trim (before ++ middle ++ after) =
      before.dropWhile isBlank ++ middle ++ after.rdropWhile isBlank := by
  have reversed : BeginsVisibly (before.dropWhile isBlank ++ middle).reverse :=
    beginsVisibly_reverse.mpr (ends.append _)
  rw [trim, List.append_assoc, dropWhile_append_visible (begins.append after), ← List.append_assoc,
    List.reverse_append, dropWhile_append_visible reversed, List.reverse_append,
    List.reverse_reverse, ← List.rdropWhile]

theorem trim_of_allBlank (begins : BeginsVisibly middle) (ends : EndsVisibly middle)
    (left : AllBlank before) (right : AllBlank after) : trim (before ++ middle ++ after) = middle := by
  rw [trim_append begins ends, List.dropWhile_eq_nil_iff.mpr left, List.rdropWhile_eq_nil_iff.mpr right,
    List.nil_append, List.append_nil]

/-- A stretch with visible ends lies inside of what is left. -/
theorem infix_trim (begins : BeginsVisibly middle) (ends : EndsVisibly middle)
    (within : middle <:+: text) : middle <:+: trim text := by
  obtain ⟨before, after, rfl⟩ := within
  rw [trim_append begins ends]
  exact List.infix_append _ _ _

/-- What is trimmed away is blank. -/
theorem exists_eq_append_trim (text : List Char) :
    ∃ before after, text = before ++ trim text ++ after ∧ AllBlank before ∧ AllBlank after := by
  refine ⟨text.takeWhile isBlank, (text.dropWhile isBlank).rtakeWhile isBlank, ?_,
    fun character member => List.mem_takeWhile_imp member,
    fun character member => List.mem_rtakeWhile_imp member⟩
  rw [trim, ← List.rdropWhile, List.append_assoc, List.rdropWhile_append_rtakeWhile,
    List.takeWhile_append_dropWhile]

theorem beginsVisibly_trim (nonempty : trim text ≠ []) : BeginsVisibly (trim text) := by
  have shorter : trim text <+: text.dropWhile isBlank := List.rdropWhile_prefix isBlank _
  have head := List.head?_dropWhile_not isBlank text
  refine BeginsVisibly.of_isPrefix ?_ nonempty shorter
  cases rest : text.dropWhile isBlank with
  | nil => exact absurd (List.prefix_nil.mp (rest ▸ shorter)) nonempty
  | cons first others =>
    rw [rest] at head
    exact ⟨first, rfl, by simpa using head⟩

theorem endsVisibly_trim (nonempty : trim text ≠ []) : EndsVisibly (trim text) := by
  have last := List.rdropWhile_last_not isBlank (text.dropWhile isBlank) nonempty
  rw [Bool.not_eq_true] at last
  exact ⟨_, List.getLast?_eq_some_getLast nonempty, last⟩

end StepQuery.Text
