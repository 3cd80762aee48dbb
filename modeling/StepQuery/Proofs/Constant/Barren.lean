import StepQuery.Proofs.Constant.Reading

/-!
Servers that tell a value from what it is read as.  What a match document asks of a field depends only
on operands smaller than itself once it is read as operators, so a server that singles the value out is
not asked about it.  An expression read by a server that gives back nothing of its own comes to nothing
larger than itself, and to something smaller where an operator is applied; so only a value without
marks comes to itself.
-/

namespace StepQuery

namespace Server

variable {Row : Type}

section Locality

variable {server other : Server Row}

mutual

/-- What is asked of a field depends on the server only through operands no larger than the demand. -/
theorem meets_congr (held : Option Value) : (value : Value) →
    (∀ operator operand, sizeOf operand ≤ sizeOf value →
      server.passes operator held operand = other.passes operator held operand) →
    server.meets held value = other.meets held value
  | .map fields, agree => by
    rw [meets, meets, agree "$eq" (.map fields) (Nat.le_refl _)]
    rw [meetsAll_congr held fields fun operator operand smaller => agree operator operand (by
      rw [Value.map.sizeOf_spec]
      omega)]
  | .text _, agree | .list _, agree | .null, agree | .bool _, agree | .int _, agree
  | .uint _, agree | .single _, agree | .double _, agree | .decimal _, agree | .bytes _, agree
  | .date _, agree => by simp [meets, agree]

/-- An operator's operand is smaller than the object that it stands in. -/
theorem meetsAll_congr (held : Option Value) : (fields : List (String × Value)) →
    (∀ operator operand, sizeOf operand < sizeOf fields →
      server.passes operator held operand = other.passes operator held operand) →
    server.meetsAll held fields = other.meetsAll held fields
  | [], _ => by rw [meetsAll, meetsAll]
  | (operator, operand) :: rest, agree => by
    have ofOperand : ∀ name (inner : Value), sizeOf inner ≤ sizeOf operand →
        server.passes name held inner = other.passes name held inner := by
      intro name inner smaller
      apply agree
      simp
      omega
    have ofRest : ∀ name (inner : Value), sizeOf inner < sizeOf rest →
        server.passes name held inner = other.passes name held inner := by
      intro name inner smaller
      apply agree
      simp
      omega
    rw [meetsAll, meetsAll, meets_congr held operand ofOperand,
      ofOperand operator operand (Nat.le_refl _), meetsAll_congr held rest ofRest]

end

end Locality

section Inversion

variable {server : Server Row} {row : Row}

theorem evaluateEach_cons_eq_some {item : Value} {rest : List Value} {reads : List (Option Value)}
    (evaluated : server.evaluateEach row (item :: rest) = some reads) :
    ∃ first others, server.evaluate row item = some first ∧
      server.evaluateEach row rest = some others ∧ reads = first :: others := by
  rw [evaluateEach_cons] at evaluated
  simp only [Option.bind_eq_some_iff] at evaluated
  obtain ⟨first, firstRead, others, othersRead, same⟩ := evaluated
  exact ⟨first, others, firstRead, othersRead, (Option.some.inj same).symm⟩

theorem evaluateFields_cons_eq_some {name : String} {item : Value} {rest found : List (String × Value)}
    (evaluated : server.evaluateFields row ((name, item) :: rest) = some found) :
    ∃ first others, server.evaluate row item = some first ∧
      server.evaluateFields row rest = some others ∧
      found = (first.map fun value => (name, value)).toList ++ others := by
  rw [evaluateFields] at evaluated
  simp only [Option.bind_eq_bind, Option.bind_eq_some_iff, Option.pure_def] at evaluated
  obtain ⟨first, firstRead, others, othersRead, same⟩ := evaluated
  exact ⟨first, others, firstRead, othersRead, (Option.some.inj same).symm⟩

theorem evaluate_list_eq_some {items : List Value} {read : Option Value}
    (evaluated : server.evaluate row (.list items) = some read) :
    ∃ reads, server.evaluateEach row items = some reads ∧
      read = some (.list (reads.map (·.getD .null))) := by
  rw [evaluate] at evaluated
  simp only [Option.bind_eq_bind, Option.bind_eq_some_iff, Option.pure_def] at evaluated
  obtain ⟨reads, each, same⟩ := evaluated
  exact ⟨reads, each, (Option.some.inj same).symm⟩

/-- An object is one operator, or a new object with no marked name. -/
theorem evaluate_map_eq_some {fields : List (String × Value)} {read : Option Value}
    (evaluated : server.evaluate row (.map fields) = some read) :
    (∃ name argument, fields = [(name, argument)] ∧
        server.apply row (server.evaluate row argument) name argument = some read) ∨
      (∀ field ∈ fields, isMarked field.1 = false) ∧
        ∃ found, server.evaluateFields row fields = some found ∧ read = some (.map found) := by
  rw [evaluate] at evaluated
  split at evaluated
  · unfold evaluateOperator at evaluated
    split at evaluated
    · exact .inl ⟨_, _, rfl, evaluated⟩
    · cases evaluated
  · rename_i unmarked
    simp only [Option.bind_eq_bind, Option.bind_eq_some_iff, Option.pure_def] at evaluated
    obtain ⟨found, each, same⟩ := evaluated
    exact .inr ⟨by simpa using unmarked, found, each, (Option.some.inj same).symm⟩

end Inversion

/-- A server that reaches nothing, and whose operators make nothing larger than a truth value. -/
structure Barren (server : Server Row) : Prop where
  reaches : ∀ row path, server.reach row path = none
  operates : ∀ operator arguments, sizeOf ((server.operate operator arguments).getD .null) ≤ 2

section Barren

variable {server : Server Row} {row : Row}

theorem one_le_sizeOf (value : Value) : 1 ≤ sizeOf value := by
  cases value <;> simp

theorem sizeOf_readText (barren : server.Barren) (content : String) :
    sizeOf ((server.readText row content).getD .null) ≤ sizeOf (Value.text content) := by
  cases marked : isMarked content with
  | false =>
    rw [readText_of_unmarked marked]
    exact Nat.le_refl _
  | true =>
    obtain ⟨column, rfl⟩ := exists_path_of_isMarked marked
    rw [readText_path, barren.reaches]
    simp

/-- What a value comes to is no larger than itself; nothing counts as null. -/
def Bounded (server : Server Row) (row : Row) (value : Value) : Prop :=
  ∀ read, server.evaluate row value = some read → sizeOf (read.getD .null) ≤ sizeOf value

theorem sizeOf_evaluateEach {items : List Value} (bounded : ∀ item ∈ items, Bounded server row item)
    {reads : List (Option Value)} (evaluated : server.evaluateEach row items = some reads) :
    sizeOf (reads.map (·.getD .null)) ≤ sizeOf items := by
  induction items generalizing reads with
  | nil =>
    rw [evaluateEach] at evaluated
    cases evaluated
    exact Nat.le_refl _
  | cons item rest inductionHypothesis =>
    obtain ⟨first, others, firstRead, othersRead, rfl⟩ := evaluateEach_cons_eq_some evaluated
    obtain ⟨firstBounded, othersBounded⟩ := List.forall_mem_cons.mp bounded
    have firstBound := firstBounded first firstRead
    have othersBound := inductionHypothesis othersBounded othersRead
    simp only [List.map_cons, List.cons.sizeOf_spec]
    omega

theorem sizeOf_evaluateFields {fields : List (String × Value)}
    (bounded : ∀ field ∈ fields, Bounded server row field.2) {found : List (String × Value)}
    (evaluated : server.evaluateFields row fields = some found) : sizeOf found ≤ sizeOf fields := by
  induction fields generalizing found with
  | nil =>
    rw [evaluateFields] at evaluated
    cases evaluated
    exact Nat.le_refl _
  | cons field rest inductionHypothesis =>
    obtain ⟨name, item⟩ := field
    obtain ⟨first, others, firstRead, othersRead, rfl⟩ := evaluateFields_cons_eq_some evaluated
    obtain ⟨firstBounded, othersBounded⟩ := List.forall_mem_cons.mp bounded
    have firstBound := firstBounded first firstRead
    have othersBound := inductionHypothesis othersBounded othersRead
    cases first with
    | none =>
      simp only [Option.map_none, Option.toList_none, List.nil_append, List.cons.sizeOf_spec]
      omega
    | some value =>
      simp only [Option.getD_some] at firstBound
      simp only [Option.map_some, Option.toList_some, List.cons_append, List.nil_append,
        List.cons.sizeOf_spec, Prod.mk.sizeOf_spec]
      omega

theorem sizeOf_choose {otherwise : Option (Option Value)} {bound : Nat}
    (default : ∀ other, otherwise = some other → sizeOf (other.getD .null) ≤ bound)
    {branches : List Value}
    (bounded : ∀ value, sizeOf value < sizeOf branches → Bounded server row value)
    {read : Option Value} (chosen : server.choose row otherwise branches = some read) :
    sizeOf (read.getD .null) ≤ bound + sizeOf branches := by
  induction branches with
  | nil =>
    rw [choose] at chosen
    have fits := default read chosen
    omega
  | cons branch rest inductionHypothesis =>
    unfold choose at chosen
    split at chosen
    next impossible => cases impossible
    next test result later same =>
      cases same
      rw [Option.bind_eq_bind, Option.bind_eq_some_iff] at chosen
      obtain ⟨truth, _, chosen⟩ := chosen
      split at chosen
      · have resultBound := bounded result (by simp; omega) read chosen
        simp only [List.cons.sizeOf_spec, Value.map.sizeOf_spec, Prod.mk.sizeOf_spec]
        omega
      · have ofRest : ∀ value, sizeOf value < sizeOf rest → Bounded server row value :=
          fun value smaller => bounded value (by simp; omega)
        have laterBound := inductionHypothesis ofRest chosen
        simp only [List.cons.sizeOf_spec]
        omega
    next => cases chosen

/-- What an operator comes to is larger than its argument by one at most. -/
theorem sizeOf_apply (barren : server.Barren) {name : String} {argument : Value}
    (bounded : ∀ value, sizeOf value < sizeOf argument → Bounded server row value)
    {plain : Option (Option Value)} {read : Option Value}
    (applied : server.apply row plain name argument = some read) :
    sizeOf (read.getD .null) ≤ sizeOf argument + 1 := by
  have positive := one_le_sizeOf argument
  unfold apply at applied
  split at applied
  next =>
    cases applied
    exact Nat.le_succ _
  next first second =>
    rw [Option.bind_eq_bind, Option.bind_eq_some_iff] at applied
    obtain ⟨found, firstRead, chosen⟩ := applied
    have firstBound := bounded first (by simp; omega) found firstRead
    have secondBound := bounded second (by simp; omega) read
    simp only [Value.list.sizeOf_spec, List.cons.sizeOf_spec]
    split at chosen
    · have bound := secondBound chosen
      omega
    · have bound := secondBound chosen
      omega
    · cases chosen
      omega
  next branches otherwise =>
    have bound : sizeOf (read.getD .null) ≤ sizeOf otherwise + sizeOf branches := by
      refine sizeOf_choose (bounded otherwise (by simp; omega)) ?_ applied
      intro value smaller
      exact bounded value (by simp; omega)
    simp only [Value.map.sizeOf_spec, List.cons.sizeOf_spec, Prod.mk.sizeOf_spec,
      Value.list.sizeOf_spec]
    omega
  next =>
    simp only [Option.bind_eq_bind, Option.bind_eq_some_iff, Option.pure_def] at applied
    obtain ⟨input, _, pattern, _, same⟩ := applied
    cases same
    have bound := barren.operates "$regexMatch" [input, pattern]
    omega
  next =>
    simp only [Option.bind_eq_bind, Option.bind_eq_some_iff, Option.pure_def] at applied
    obtain ⟨arguments, _, same⟩ := applied
    cases same
    have bound := barren.operates name arguments
    omega
  next =>
    simp only [Option.bind_eq_bind, Option.bind_eq_some_iff, Option.pure_def] at applied
    obtain ⟨value, _, same⟩ := applied
    cases same
    have bound := barren.operates name [value]
    omega

/-- The induction is on the size, for an operator looks into its argument at several depths. -/
theorem bounded_evaluate (barren : server.Barren) (row : Row) (value : Value) :
    Bounded server row value := by
  induction size : sizeOf value using Nat.strong_induction_on generalizing value with
  | _ bound inductionHypothesis =>
    subst size
    have smaller : ∀ inner, sizeOf inner < sizeOf value → Bounded server row inner :=
      fun inner below => inductionHypothesis (sizeOf inner) below inner rfl
    intro read evaluated
    cases value with
    | text content =>
      rw [evaluate] at evaluated
      cases evaluated
      exact sizeOf_readText barren content
    | list items =>
      obtain ⟨reads, each, rfl⟩ := evaluate_list_eq_some evaluated
      have bound : sizeOf (reads.map (·.getD .null)) ≤ sizeOf items := by
        refine sizeOf_evaluateEach (fun item within => smaller item ?_) each
        have below := List.sizeOf_lt_of_mem within
        rw [Value.list.sizeOf_spec]
        omega
      simp only [Option.getD_some, Value.list.sizeOf_spec]
      omega
    | map fields =>
      obtain ⟨name, argument, rfl, applied⟩ | ⟨_, found, each, rfl⟩ := evaluate_map_eq_some evaluated
      · have bound := sizeOf_apply barren
          (fun inner below => smaller inner (by simp; omega)) applied
        simp only [Value.map.sizeOf_spec, List.cons.sizeOf_spec, Prod.mk.sizeOf_spec]
        omega
      · have bound : sizeOf found ≤ sizeOf fields := by
          refine sizeOf_evaluateFields (fun field within => smaller field.2 ?_) each
          have below := List.sizeOf_lt_of_mem within
          have part : sizeOf field.2 < sizeOf field := by
            cases field
            simp
          rw [Value.map.sizeOf_spec]
          omega
        simp only [Option.getD_some, Value.map.sizeOf_spec]
        omega
    | _ =>
      rw [evaluate] at evaluated
      · cases evaluated
        exact Nat.le_refl _
      all_goals nofun

mutual

/-- Where a server is barren, only a value without marks is read as itself. -/
theorem isInert_of_evaluate (barren : server.Barren) : (value : Value) →
    server.evaluate row value = some (some value) → value.isInert
  | .text content, same => by
    rw [Value.isInert, Bool.not_eq_true']
    cases marked : isMarked content with
    | false => rfl
    | true =>
      obtain ⟨column, rfl⟩ := exists_path_of_isMarked marked
      rw [evaluate, readText_path, barren.reaches] at same
      cases same
  | .list items, same => by
    obtain ⟨reads, each, kept⟩ := evaluate_list_eq_some same
    rw [Option.some.injEq, Value.list.injEq] at kept
    rw [Value.isInert]
    exact areInert_of_evaluateEach barren items each kept.symm
  | .map fields, same => by
    obtain ⟨name, argument, alone, applied⟩ | ⟨unmarked, found, each, kept⟩ :=
      evaluate_map_eq_some same
    · have bound := sizeOf_apply barren (fun inner _ => bounded_evaluate barren row inner) applied
      rw [alone] at bound
      simp at bound
      omega
    · rw [Option.some.injEq, Value.map.injEq] at kept
      rw [← kept] at each
      rw [Value.isInert]
      exact areInertFields_of_evaluateFields barren fields unmarked each
  | .null, _ | .bool _, _ | .int _, _ | .uint _, _ | .single _, _ | .double _, _ | .decimal _, _
  | .bytes _, _ | .date _, _ => by simp [Value.isInert]

theorem areInert_of_evaluateEach (barren : server.Barren) : (items : List Value) →
    {reads : List (Option Value)} → server.evaluateEach row items = some reads →
    reads.map (·.getD .null) = items → Value.areInert items
  | [], _, _, _ => by rw [Value.areInert]
  | item :: rest, reads, evaluated, kept => by
    obtain ⟨first, others, firstRead, othersRead, rfl⟩ := evaluateEach_cons_eq_some evaluated
    obtain ⟨firstKept, othersKept⟩ := List.cons_eq_cons.mp kept
    rw [Value.areInert, Bool.and_eq_true]
    refine ⟨?_, areInert_of_evaluateEach barren rest othersRead othersKept⟩
    -- In a list nothing is read as null.
    cases first with
    | none =>
      rw [← firstKept]
      simp [Value.isInert]
    | some value =>
      change value = item at firstKept
      rw [firstKept] at firstRead
      exact isInert_of_evaluate barren item firstRead

theorem areInertFields_of_evaluateFields (barren : server.Barren) :
    (fields : List (String × Value)) → (∀ field ∈ fields, isMarked field.1 = false) →
    server.evaluateFields row fields = some fields → Value.areInertFields fields
  | [], _, _ => by rw [Value.areInertFields]
  | (name, item) :: rest, unmarked, evaluated => by
    obtain ⟨first, others, firstRead, othersRead, same⟩ := evaluateFields_cons_eq_some evaluated
    obtain ⟨nameUnmarked, othersUnmarked⟩ := List.forall_mem_cons.mp unmarked
    cases first with
    | none =>
      have bound := sizeOf_evaluateFields
        (fun field _ => bounded_evaluate barren row field.2) othersRead
      have longer : others = (name, item) :: rest := by simpa using same.symm
      rw [longer] at bound
      simp at bound
    | some value =>
      obtain ⟨firstKept, othersKept⟩ : value = item ∧ others = rest := by simpa using same.symm
      rw [firstKept] at firstRead
      rw [othersKept] at othersRead
      simp only [Value.areInertFields, Bool.and_eq_true, Bool.not_eq_true']
      exact ⟨⟨nameUnmarked, isInert_of_evaluate barren item firstRead⟩,
        areInertFields_of_evaluateFields barren rest othersUnmarked othersRead⟩

end

/-- Where a server is barren, only what `Term.literal` keeps is read as itself. -/
theorem isLiteral_of_evaluate (barren : server.Barren) {value : Value}
    (same : server.evaluate row (Term.literal value).data = some (some value)) :
    value.isLiteral := by
  cases value with
  | text content => rfl
  | _ => exact isInert_of_evaluate barren _ same

end Barren

section Singling

open Classical

/-- A server with one answer about a given value, which passes no other. -/
noncomputable def answering (value : Value) (answer : Bool) : Server Unit where
  reach _ _ := none
  passes _ _ operand := answer && decide (operand = value)
  operate _ _ := none

/-- Operators are answered without asking about the object that they stand in. -/
theorem exists_meets_ne_passes {value : Value} (operators : value.isOperators) :
    ∃ answer, (answering value answer).meets none value ≠
      (answering value answer).passes "$eq" none value := by
  cases value with
  | map fields =>
    rw [Value.isOperators] at operators
    have same : ∀ answer, (answering (.map fields) answer).meets none (.map fields) =
        (answering (.map fields) false).meetsAll none fields := by
      intro answer
      rw [meets, if_pos operators]
      apply meetsAll_congr
      intro operator operand smaller
      have different : operand ≠ .map fields := by
        rintro rfl
        rw [Value.map.sizeOf_spec] at smaller
        omega
      simp [answering, different]
    refine ⟨!(answering (.map fields) false).meetsAll none fields, ?_⟩
    rw [same]
    simp [answering]
  | _ => cases operators

/-- A server on which nothing is reached, and nothing is related to a given value alone. -/
noncomputable def singling (value : Value) : Server Unit where
  reach _ _ := none
  passes _ _ _ := false
  operate _ arguments :=
    some (.bool (decide (arguments = [none, some value] ∨ arguments = [some (.bool true)])))

theorem barren_singling (value : Value) : (singling value).Barren where
  reaches _ _ := rfl
  operates operator arguments := by simp [singling]

@[simp]
theorem reach_singling (value : Value) (path : String) :
    (singling value).reach () path = none := rfl

@[simp]
theorem operate_singling_pair (value : Value) (name : String) (read : Option Value) :
    (singling value).operate name [none, read] = some (.bool (decide (read = some value))) := by
  simp [singling]

@[simp]
theorem operate_singling_bool (value : Value) (name : String) (truth : Bool) :
    (singling value).operate name [some (.bool truth)] = some (.bool truth) := by
  cases truth <;> simp [singling]

theorem operate_singling_self (value : Value) (name : String) :
    (singling value).operate name [none, some value] = some (.bool true) := by
  simp

/-- A reading that is related to the value is the value. -/
theorem eq_of_operate_singling {value : Value} {name : String} {reading : Option (Option Value)}
    (related : (reading.map fun read => (singling value).operate name [none, read]) =
      some (some (.bool true))) : reading = some (some value) := by
  cases reading with
  | none => cases related
  | some read => simpa using related

end Singling

end Server

end StepQuery
