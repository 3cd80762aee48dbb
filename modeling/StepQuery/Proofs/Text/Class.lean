import StepQuery.Text.Class

/-!
No character is in two of the classes of blanks, letters and digits.
-/

namespace StepQuery.Text

/-- Whether no range of one table meets one of another. -/
def areApart (first second : List (Nat × Nat)) : Bool :=
  first.all fun range => second.all fun other => range.2.blt other.1 || other.2.blt range.1

theorem within_eq_false {first second : List (Nat × Nat)} (apart : areApart first second) {point : Nat}
    (member : within first point) : within second point = false := by
  simp only [areApart, within, List.all_eq_true, List.any_eq_true, List.any_eq_false, Bool.or_eq_true,
    Bool.and_eq_true, decide_eq_true_eq, Nat.blt_eq] at apart member ⊢
  obtain ⟨range, listed, low, high⟩ := member
  rintro other others ⟨above, below⟩
  rcases apart range listed other others with before | behind
  · omega
  · omega

/-- The blanks, lowest range first. -/
def blankRanges : List (Nat × Nat) :=
  [(9, 13), (32, 32), (0x85, 0x85), (0xA0, 0xA0), (0x1680, 0x1680), (0x2000, 0x200A), (0x2028, 0x2029),
    (0x202F, 0x202F), (0x205F, 0x205F), (0x3000, 0x3000)]

theorem within_blankRanges {character : Char} (blank : isBlank character) :
    within blankRanges character.toNat := by
  simp only [isBlank, Bool.or_eq_true, Bool.and_eq_true, decide_eq_true_eq, beq_iff_eq] at blank
  simp only [within, blankRanges, List.any_cons, List.any_nil, Bool.or_eq_true, Bool.and_eq_true,
    decide_eq_true_eq, Bool.or_false]
  omega

theorem isLetter_of_isBlank {character : Char} (blank : isBlank character) :
    isLetter character = false := by
  have apart : areApart blankRanges letterRanges := by decide +kernel
  exact within_eq_false apart (within_blankRanges blank)

theorem isDigit_of_isBlank {character : Char} (blank : isBlank character) :
    isDigit character = false := by
  have apart : areApart blankRanges digitRanges := by decide +kernel
  exact within_eq_false apart (within_blankRanges blank)

theorem isDigit_of_isLetter {character : Char} (letter : isLetter character) :
    isDigit character = false := by
  have apart : areApart letterRanges digitRanges := by decide +kernel
  exact within_eq_false apart letter

theorem isDigit_of_isAsciiDigit {character : Char} (digit : isAsciiDigit character) :
    isDigit character := by
  simp only [isAsciiDigit, Bool.and_eq_true, decide_eq_true_eq, Char.le_def,
    UInt32.le_iff_toNat_le] at digit
  have listed : (48, 57) ∈ digitRanges := List.mem_cons_self
  exact List.any_eq_true.mpr ⟨(48, 57), listed, by simpa using digit⟩

end StepQuery.Text
