import StepQuery.Json.Printer
import StepQuery.Json.Reader

/-!
A quoted text is read back as the text.  Escaping goes character by character, so each step of the
reader undoes one step of the writer; the code points that come out hold no surrogates and are put
together unchanged.
-/

namespace StepQuery

namespace Text

theorem hexValue?_hexDigit {n : Nat} (small : n < 16) : hexValue? (hexDigit n) = some n := by
  have all : ∀ m < 16, hexValue? (hexDigit m) = some m := by decide
  exact all n small

end Text

namespace Json

/-- Four hexadecimal digits are read back as the number they stand for. -/
theorem unit?_hex {n : Nat} (small : n < 65536) :
    unit? (Text.hexDigit (n / 16 / 16 / 16 % 16)) (Text.hexDigit (n / 16 / 16 % 16))
      (Text.hexDigit (n / 16 % 16)) (Text.hexDigit (n % 16)) = some n := by
  have digit (m : Nat) : Text.hexValue? (Text.hexDigit (m % 16)) = some (m % 16) :=
    Text.hexValue?_hexDigit (Nat.mod_lt _ (by decide))
  unfold unit?
  simp only [digit, bind, Option.bind, pure]
  congr 1
  omega

theorem units_hex {n : Nat} (small : n < 65536) (rest : List Char) :
    units ('\\' :: 'u' :: Text.hex 4 n ++ rest) =
      (units rest).map fun (others, rest) => (n :: others, rest) := by
  simp only [Text.hex, List.nil_append, List.cons_append, units, unit?_hex small]

/-- A character that is neither a quote nor a backslash nor a control stands for itself. -/
theorem units_plain {character : Char} (quote : character ≠ '"') (backslash : character ≠ '\\')
    (visible : 32 ≤ character.toNat) (rest : List Char) :
    units (character :: rest) =
      (units rest).map fun (others, rest) => (character.toNat :: others, rest) := by
  have shown : ¬ character.toNat < 32 := by omega
  rw [units.eq_def]
  split
  case h_7 same =>
    obtain ⟨rfl, rfl⟩ := List.cons.inj same
    exact if_neg shown
  all_goals simp_all

theorem units_escape (markup : Markup) (character : Char) (rest : List Char) :
    units (escape markup character ++ rest) =
      (units rest).map fun (others, rest) => (character.toNat :: others, rest) := by
  unfold escape
  split
  · rfl
  · rfl
  · rfl
  · rfl
  · rfl
  next quote backslash newline carriage tab =>
    have isChar {wanted : Char} (same : (character == wanted) = true) :
        character.toNat = wanted.toNat := congrArg Char.toNat (eq_of_beq same)
    simp only
    split
    next backspace =>
      rw [eq_of_beq backspace]
      rfl
    split
    next formFeed =>
      rw [eq_of_beq formFeed]
      rfl
    split
    next control =>
      apply units_hex
      simp only [Bool.or_eq_true, decide_eq_true_eq, beq_iff_eq] at control
      omega
    next visible =>
      simp only [Bool.or_eq_true, decide_eq_true_eq, beq_iff_eq, not_or] at visible
      split
      next marked =>
        apply units_hex
        simp only [Bool.and_eq_true, Bool.or_eq_true] at marked
        rcases marked.2 with (less | greater) | ampersand
        · rw [isChar less]
          decide
        · rw [isChar greater]
          decide
        · rw [isChar ampersand]
          decide
      next => exact units_plain quote backslash (by omega) rest

theorem units_flatMap_escape (markup : Markup) (text rest : List Char) :
    units (text.flatMap (escape markup) ++ '"' :: rest) = .ok (text.map Char.toNat, rest) := by
  induction text with
  | nil => simp [units]
  | cons first others inductionHypothesis =>
    rw [List.flatMap_cons, List.append_assoc, units_escape, inductionHypothesis]
    rfl

theorem not_surrogate (character : Char) :
    isHighSurrogate character.toNat = false ∧ isLowSurrogate character.toNat = false := by
  have valid : character.toNat < 0xD800 ∨ 0xDFFF < character.toNat ∧ character.toNat < 0x110000 :=
    character.valid
  simp only [isHighSurrogate, isLowSurrogate, Bool.and_eq_false_iff, decide_eq_false_iff_not]
  omega

theorem joinUnits_toNat (text : List Char) : joinUnits (text.map Char.toNat) = text := by
  induction text with
  | nil => rfl
  | cons first others inductionHypothesis =>
    have single := not_surrogate first
    cases others with
    | nil => simp [joinUnits, single]
    | cons second rest =>
      rw [List.map_cons, List.map_cons] at *
      simp [joinUnits, single, inductionHypothesis]

/-- A quoted text is read back. -/
theorem quotedText_append (markup : Markup) (value : String) (rest : List Char) :
    quotedText (value.toList.flatMap (escape markup) ++ '"' :: rest) = .ok (value, rest) := by
  unfold quotedText
  rw [units_flatMap_escape]
  simp [Except.map, joinUnits_toNat]

theorem toList_quote (markup : Markup) (value : String) (rest : List Char) :
    (quote markup value).toList ++ rest =
      '"' :: (value.toList.flatMap (escape markup) ++ '"' :: rest) := by
  simp [quote]

end Json

end StepQuery
