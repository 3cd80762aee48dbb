import StepQuery.Document
import StepQuery.Proofs.Json.Quoting
import StepQuery.Proofs.Number.Numeral

/-!
A document written on one line is read back.  The reader descends once for every item, so the bound
on its depth that the length of the text gives is compared with the length of each part.
-/

namespace StepQuery

namespace Json

/-- Documents all of whose numbers are numerals. -/
inductive Plain : Json → Prop
  | null : Plain .null
  | bool (value : Bool) : Plain (.bool value)
  | number {literal : String} {numeral : Numeral} (wellFormed : numeral.WellFormed)
      (text : literal.toList = numeral.text) : Plain (.number literal)
  | string (value : String) : Plain (.string value)
  | array {items : List Json} (each : ∀ item ∈ items, Plain item) : Plain (.array items)
  | object {members : List (String × Json)} (each : ∀ member ∈ members, Plain member.2) :
      Plain (.object members)

variable {markup : Markup}

/-! ### The characters of a document -/

def itemsText (markup : Markup) (items : List Json) : List Char :=
  (String.intercalate "," (compactItems markup items)).toList

def membersText (markup : Markup) (members : List (String × Json)) : List Char :=
  (String.intercalate "," (compactMembers markup members)).toList

theorem toList_compact_array (items : List Json) :
    (compact markup (.array items)).toList = '[' :: (itemsText markup items ++ [']']) := by
  simp [compact, itemsText]

theorem toList_compact_object (members : List (String × Json)) :
    (compact markup (.object members)).toList =
      '\x7b' :: (membersText markup members ++ ['\x7d']) := by
  simp [compact, membersText]

theorem itemsText_single (item : Json) :
    itemsText markup [item] = (compact markup item).toList := by
  simp [itemsText, compactItems]

theorem itemsText_cons (item next : Json) (rest : List Json) :
    itemsText markup (item :: next :: rest) =
      (compact markup item).toList ++ ',' :: itemsText markup (next :: rest) := by
  simp [itemsText, compactItems]

theorem membersText_single (key : String) (value : Json) :
    membersText markup [(key, value)] =
      (quote markup key).toList ++ ':' :: (compact markup value).toList := by
  simp [membersText, compactMembers]

theorem membersText_cons (key : String) (value : Json) (next : String × Json)
    (rest : List (String × Json)) :
    membersText markup ((key, value) :: next :: rest) =
      (quote markup key).toList ++ ':' :: ((compact markup value).toList ++
        ',' :: membersText markup (next :: rest)) := by
  simp [membersText, compactMembers]

/-- A character that can stand first in a document: neither a space nor the end of a list. -/
def Opens (first : Char) : Prop := isSpace first = false ∧ first ≠ ']'

theorem skipSpace_cons {first : Char} (visible : isSpace first = false) (rest : List Char) :
    skipSpace (first :: rest) = first :: rest := by
  simp [skipSpace, visible]

theorem numeral_head {numeral : Numeral} (wellFormed : numeral.WellFormed) :
    ∃ first others, numeral.text = first :: others ∧
      (first = '-' ∨ Text.isAsciiDigit first = true) := by
  obtain ⟨first, others, start⟩ := List.exists_cons_of_ne_nil wellFormed.nonempty
  have digit := wellFormed.whole first (by simp [start])
  cases sign : numeral.negative with
  | true => exact ⟨'-', _, by simp [Numeral.text, Decimal.signText, sign]; rfl, .inl rfl⟩
  | false => exact ⟨first, _, by simp [Numeral.text, Decimal.signText, sign, start]; rfl, .inr digit⟩

theorem opens_of_numeral {first : Char}
    (start : first = '-' ∨ Text.isAsciiDigit first = true) : Opens first := by
  rcases start with rfl | digit
  · exact ⟨rfl, by decide⟩
  · constructor
    · by_contra space
      simp only [isSpace, Bool.not_eq_false, Bool.or_eq_true, beq_iff_eq] at space
      rcases space with ((rfl | rfl) | rfl) | rfl <;> contradiction
    · rintro rfl
      contradiction

theorem Plain.opens (markup : Markup) {json : Json} (plain : Plain json) :
    ∃ first others, (compact markup json).toList = first :: others ∧ Opens first := by
  cases plain with
  | null => exact ⟨'n', "ull".toList, by rw [compact]; rfl, rfl, by decide⟩
  | bool value =>
    cases value with
    | true => exact ⟨'t', "rue".toList, by rw [compact]; rfl, rfl, by decide⟩
    | false => exact ⟨'f', "alse".toList, by rw [compact]; rfl, rfl, by decide⟩
  | number wellFormed text =>
    obtain ⟨first, others, start, shape⟩ := numeral_head wellFormed
    exact ⟨first, others, text.trans start, opens_of_numeral shape⟩
  | string value =>
    have start := toList_quote markup value []
    rw [List.append_nil] at start
    exact ⟨'"', _, start, rfl, by decide⟩
  | array each => exact ⟨'[', _, toList_compact_array _, rfl, by decide⟩
  | object each => exact ⟨'\x7b', _, toList_compact_object _, rfl, by decide⟩

/-! ### Reading the parts -/

/-- A document is read back wherever it stands, given enough depth. -/
def ReadBack (markup : Markup) (json : Json) : Prop :=
  ∀ depth rest, (compact markup json).toList.length < depth → Closes rest →
    readValue depth ((compact markup json).toList ++ rest) = .ok (json, rest)

theorem readBack_number {literal : String} {numeral : Numeral} (wellFormed : numeral.WellFormed)
    (text : literal.toList = numeral.text) : ReadBack markup (.number literal) := by
  intro depth rest deep closes
  obtain ⟨first, others, start, shape⟩ := numeral_head wellFormed
  obtain ⟨visible, _⟩ := opens_of_numeral shape
  have read := wellFormed.readNumber_append closes
  rw [← text, String.ofList_toList] at read
  have ordinary : first ≠ '\x7b' ∧ first ≠ '[' ∧ first ≠ '"' ∧ first ≠ 't' ∧ first ≠ 'f' ∧
      first ≠ 'n' := by
    rcases shape with rfl | digit
    · decide
    · refine ⟨?_, ?_, ?_, ?_, ?_, ?_⟩ <;> rintro rfl <;> contradiction
  cases depth with
  | zero => contradiction
  | succ depth =>
    change readValue (depth + 1) (literal.toList ++ rest) = _
    rw [readValue, text, start, List.cons_append, skipSpace_cons visible]
    rw [text, start, List.cons_append] at read
    split <;> simp_all [Except.map]

theorem readItems_append {items : List Json} (nonempty : items ≠ [])
    (each : ∀ item ∈ items, ReadBack markup item) {depth : Nat}
    (deep : (itemsText markup items).length + 1 < depth) (rest : List Char) :
    readItems depth (itemsText markup items ++ ']' :: rest) = .ok (items, rest) := by
  induction items generalizing depth with
  | nil => contradiction
  | cons item others inductionHypothesis =>
    obtain ⟨depth, rfl⟩ : ∃ less, depth = less + 1 := ⟨depth - 1, by omega⟩
    rw [readItems]
    cases others with
    | nil =>
      rw [itemsText_single] at *
      rw [each item (by simp) depth _ (by omega) (by simp [Closes])]
      rfl
    | cons next others =>
      rw [itemsText_cons] at *
      rw [List.length_append, List.length_cons] at deep
      rw [List.append_assoc, List.cons_append,
        each item (by simp) depth _ (by omega) (by simp [Closes])]
      simp only [bind, Except.bind, skipSpace_cons (rfl : isSpace ',' = false)]
      rw [inductionHypothesis (by simp) (fun found within => each found (by simp [within]))
        (by omega)]
      rfl

theorem readMembers_append {members : List (String × Json)} (nonempty : members ≠ [])
    (each : ∀ member ∈ members, ReadBack markup member.2) {depth : Nat}
    (deep : (membersText markup members).length + 1 < depth) (rest : List Char) :
    readMembers depth (membersText markup members ++ '\x7d' :: rest) = .ok (members, rest) := by
  induction members generalizing depth with
  | nil => contradiction
  | cons member others inductionHypothesis =>
    obtain ⟨key, value⟩ := member
    have readValue : ReadBack markup value := each (key, value) (by simp)
    obtain ⟨depth, rfl⟩ : ∃ less, depth = less + 1 := ⟨depth - 1, by omega⟩
    cases others with
    | nil =>
      rw [membersText_single] at *
      rw [List.length_append, List.length_cons] at deep
      rw [List.append_assoc, List.cons_append, toList_quote, readMembers,
        skipSpace_cons (rfl : isSpace '"' = false)]
      simp only [quotedText_append, bind, Except.bind, skipSpace_cons (rfl : isSpace ':' = false)]
      rw [readValue depth _ (by omega) (by simp [Closes])]
      rfl
    | cons next others =>
      rw [membersText_cons] at *
      rw [List.length_append, List.length_cons, List.length_append, List.length_cons] at deep
      rw [List.append_assoc, List.cons_append, toList_quote, readMembers,
        skipSpace_cons (rfl : isSpace '"' = false)]
      simp only [quotedText_append, bind, Except.bind, skipSpace_cons (rfl : isSpace ':' = false)]
      rw [List.append_assoc, List.cons_append, readValue depth _ (by omega) (by simp [Closes])]
      simp only [skipSpace_cons (rfl : isSpace ',' = false)]
      rw [inductionHypothesis (by simp) (fun found within => each found (by simp [within]))
        (by omega)]
      rfl

theorem Plain.readBack (markup : Markup) {json : Json} (plain : Plain json) :
    ReadBack markup json := by
  induction plain with
  | null =>
    rintro (_ | depth) rest deep closes
    · contradiction
    · rw [compact]
      rfl
  | bool value =>
    rintro (_ | depth) rest deep closes
    · contradiction
    · cases value <;> rw [compact] <;> rfl
  | number wellFormed text => exact readBack_number wellFormed text
  | string value =>
    rintro (_ | depth) rest deep closes
    · contradiction
    · rw [compact, toList_quote, readValue, skipSpace_cons (rfl : isSpace '"' = false)]
      simp [quotedText_append, Except.map]
  | @array items each inductionHypothesis =>
    rintro (_ | depth) rest deep closes
    · contradiction
    rw [toList_compact_array] at *
    rw [List.length_cons, List.length_append, List.length_singleton] at deep
    rw [List.cons_append, readValue, skipSpace_cons (rfl : isSpace '[' = false),
      List.append_assoc]
    cases items with
    | nil => rfl
    | cons item others =>
      have read := readItems_append (by simp) inductionHypothesis (by omega : _ + 1 < depth) rest
      obtain ⟨first, tail, start, visible, inside⟩ :
          ∃ first tail, itemsText markup (item :: others) = first :: tail ∧ Opens first := by
        obtain ⟨first, tail, start, opens⟩ := Plain.opens markup (each item (by simp))
        cases others with
        | nil => exact ⟨first, tail, (itemsText_single item).trans start, opens⟩
        | cons next others =>
          exact ⟨first, _, by rw [itemsText_cons, start, List.cons_append], opens⟩
      have shown : skipSpace (itemsText markup (item :: others) ++ ([']'] ++ rest)) =
          itemsText markup (item :: others) ++ ([']'] ++ rest) := by
        rw [start, List.cons_append, skipSpace_cons visible]
      simp only [shown]
      split
      next same =>
        rw [start] at same
        exact absurd (List.cons.inj same).1 inside
      next =>
        rw [List.singleton_append, read]
        rfl
  | @object members each inductionHypothesis =>
    rintro (_ | depth) rest deep closes
    · contradiction
    rw [toList_compact_object] at *
    rw [List.length_cons, List.length_append, List.length_singleton] at deep
    rw [List.cons_append, readValue, skipSpace_cons (rfl : isSpace '\x7b' = false),
      List.append_assoc]
    cases members with
    | nil => rfl
    | cons member others =>
      have read := readMembers_append (by simp) inductionHypothesis (by omega : _ + 1 < depth) rest
      obtain ⟨tail, start⟩ : ∃ tail, membersText markup (member :: others) = '"' :: tail := by
        cases others with
        | nil => exact ⟨_, by rw [membersText_single, toList_quote]⟩
        | cons next others => exact ⟨_, by rw [membersText_cons, toList_quote]⟩
      have visible : skipSpace (membersText markup (member :: others) ++ (['\x7d'] ++ rest)) =
          membersText markup (member :: others) ++ (['\x7d'] ++ rest) := by
        rw [start, List.cons_append, skipSpace_cons rfl]
      simp only [visible]
      split
      next same => exact absurd (start ▸ same) (by simp)
      next =>
        rw [List.singleton_append, read]
        rfl

/-- A document written on one line is read back. -/
theorem Plain.parse_compact (markup : Markup) {json : Json} (plain : Plain json) :
    parse (compact markup json).toList = .ok json := by
  have read := plain.readBack markup ((compact markup json).toList.length + 1) []
    (Nat.lt_succ_self _) (by simp [Closes])
  rw [List.append_nil] at read
  unfold parse
  rw [read]
  rfl

end Json

theorem Text.trim_between {first last : Char} (visible : isBlank first = false)
    (closed : isBlank last = false) (text : List Char) :
    Text.trim (first :: (text ++ [last])) = first :: (text ++ [last]) := by
  simp [Text.trim, visible, closed]

/-- A list of documents is told from YAML by its first character. -/
theorem Document.read_compact {items : List Json} (plain : Json.Plain (.array items)) :
    Document.read (Json.compact .escaped (.array items)).toList = .ok (some (.array items)) := by
  have parsed := plain.parse_compact .escaped
  rw [Json.toList_compact_array] at *
  unfold Document.read
  rw [Text.trim_between (by decide) (by decide)]
  simp [looksLikeJson, parsed]

end StepQuery
