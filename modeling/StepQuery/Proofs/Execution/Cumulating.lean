import StepQuery.Proofs.Execution.Restoring

/-!
What a cumulative sum adds up.  The values of a column are collected apart from the rows, and a row
takes as many of them as there are rows up to it.  A row that lacks the column has put nothing there, so
every row behind it stands one value too early: the sums are those of the rows up to a row exactly if no
number comes behind a row that lacks the column.
-/

namespace StepQuery

/-- Whether a value counts in a sum. -/
def Value.isNumber (value : Value) : Bool := value.bracket == .number

section Prefixes

variable {α β : Type} (held : α → Option β) (counts : β → Bool)

/-- Nothing that counts comes behind an item that holds nothing. -/
def Unbroken (items : List α) : Prop :=
  items.Pairwise fun former later => held former = none → ∀ value ∈ held later, counts value = false

variable {held counts}

theorem filter_filterMap_eq_nil_iff {items : List α} :
    (items.filterMap held).filter counts = [] ↔
      ∀ item ∈ items, ∀ value ∈ held item, counts value = false := by
  rw [List.filter_eq_nil_iff]
  constructor
  · intro none item member value holds
    exact Bool.eq_false_iff.mpr (none value (List.mem_filterMap.mpr ⟨item, member, holds⟩))
  · intro none value member
    obtain ⟨item, within, holds⟩ := List.mem_filterMap.mp member
    exact Bool.eq_false_iff.mp (none item within value holds)

theorem Unbroken.filter_take {items : List α} (unbroken : Unbroken held counts items) (count : Nat) :
    ((items.filterMap held).take count).filter counts =
      ((items.take count).filterMap held).filter counts := by
  induction items generalizing count with
  | nil => simp
  | cons item rest inductionHypothesis =>
    obtain ⟨behind, later⟩ := List.pairwise_cons.mp unbroken
    cases count with
    | zero => rfl
    | succ count =>
      rw [List.take_succ_cons]
      cases holds : held item with
      | some value =>
        rw [List.filterMap_cons_some holds, List.filterMap_cons_some holds, List.take_succ_cons,
          List.filter_cons, List.filter_cons, inductionHypothesis later]
      | none =>
        have nothing : (rest.filterMap held).filter counts = [] :=
          filter_filterMap_eq_nil_iff.mpr fun other member => behind other member holds
        have first := (List.take_sublist (count + 1) (rest.filterMap held)).filter counts
        have second := ((List.take_sublist count rest).filterMap held).filter counts
        rw [nothing, List.sublist_nil] at first second
        rw [List.filterMap_cons_none holds, List.filterMap_cons_none holds, first, second]

variable (held) in
theorem isPrefix_filterMap_take (items : List α) (count : Nat) :
    (items.take count).filterMap held <+: (items.filterMap held).take count := by
  rw [List.prefix_take_iff]
  exact ⟨(List.take_prefix _ _).filterMap held,
    (List.length_filterMap_le _ _).trans (List.length_take_le _ _)⟩

/-- Where no value is taken that stands behind so many items, none counts: the first that did would be
taken one item before its own. -/
theorem filter_filterMap_take_eq_nil {items : List α}
    (each : ∀ count ≤ items.length, ((items.filterMap held).take (count + 1)).filter counts =
      ((items.take count).filterMap held).filter counts) {count : Nat} (within : count ≤ items.length) :
    ((items.take count).filterMap held).filter counts = [] := by
  induction count with
  | zero => rfl
  | succ count inductionHypothesis =>
    have early := each count (Nat.le_of_succ_le within)
    rw [inductionHypothesis (Nat.le_of_succ_le within)] at early
    have sublist := (isPrefix_filterMap_take held items (count + 1)).sublist.filter counts
    rwa [early, List.sublist_nil] at sublist

/-- If nothing that counts is taken too early, none comes behind an item that holds nothing. -/
theorem unbroken_of_filter_take {items : List α}
    (each : ∀ index < items.length, ((items.filterMap held).take (index + 1)).filter counts =
      ((items.take (index + 1)).filterMap held).filter counts) : Unbroken held counts items := by
  induction items with
  | nil => exact List.Pairwise.nil
  | cons item rest inductionHypothesis =>
    cases holds : held item with
    | some value =>
      refine List.pairwise_cons.mpr ⟨fun other _ absent => ?_, inductionHypothesis fun index below => ?_⟩
      · rw [holds] at absent
        cases absent
      · have next := each (index + 1) (Nat.succ_lt_succ below)
        rw [List.take_succ_cons, List.filterMap_cons_some holds, List.filterMap_cons_some holds,
          List.take_succ_cons, List.filter_cons, List.filter_cons] at next
        split at next
        · exact (List.cons.inj next).2
        · exact next
    | none =>
      have behind : ∀ count ≤ rest.length, ((rest.filterMap held).take (count + 1)).filter counts =
          ((rest.take count).filterMap held).filter counts := by
        intro count within
        have early := each count (Nat.lt_succ_of_le within)
        rwa [List.take_succ_cons, List.filterMap_cons_none holds,
          List.filterMap_cons_none holds] at early
      have none := filter_filterMap_take_eq_nil behind le_rfl
      rw [List.take_length, filter_filterMap_eq_nil_iff] at none
      exact List.pairwise_cons.mpr ⟨fun other member _ => none other member,
        List.pairwise_of_forall_mem_list fun _ _ other member _ => none other member⟩

theorem filter_take_iff {items : List α} :
    (∀ index < items.length, ((items.filterMap held).take (index + 1)).filter counts =
      ((items.take (index + 1)).filterMap held).filter counts) ↔ Unbroken held counts items :=
  ⟨unbroken_of_filter_take, fun unbroken index _ => unbroken.filter_take (index + 1)⟩

end Prefixes

namespace Standing

/-- The numbers that a column holds from the first row of a group up to a row. -/
def numbers (column : String) (standing : Standing (Fields Value)) : List Value :=
  ((standing.group.take (standing.index + 1)).filterMap (·.get? column)).filter Value.isNumber

/-- The numbers among the first values that a column holds in a group, as many values as there are rows
up to a row. -/
def collected (column : String) (standing : Standing (Fields Value)) : List Value :=
  ((standing.group.filterMap (·.get? column)).take (standing.index + 1)).filter Value.isNumber

end Standing

theorem collected_eq_numbers_iff {column : String} {groups : List (List (Fields Value))} :
    (∀ standing ∈ standings groups, standing.collected column = standing.numbers column) ↔
      ∀ group ∈ groups, Unbroken (fun row => row.get? column) Value.isNumber group := by
  constructor
  · intro each group member
    apply filter_take_iff.mp
    intro index below
    have stands : (⟨group, group[index], index⟩ : Standing (Fields Value)) ∈ standings groups :=
      mem_standings.mpr ⟨member, List.getElem?_eq_getElem below⟩
    exact each _ stands
  · intro unbroken standing member
    exact (unbroken _ (mem_standings.mp member).1).filter_take _

namespace Engine

/-- What is documented of sums.  The sum of a list is that of the numbers in it, and a position that is
added to one is the next. -/
structure Sums (engine : Engine) (total : List Value → Value) : Prop where
  list : ∀ items, engine.operate "$sum" [some (.list items)] =
    some (total (items.filter Value.isNumber))
  next : ∀ index : Nat, index + 1 < 2 ^ 63 →
    engine.operate "$add" [some (.int (Int64.ofNat index)), some (.int 1)] =
      some (.int (Int64.ofNat (index + 1)))

variable {engine : Engine} {context : Context}

theorem accumulated_push {column : String} (field : isFieldName column)
    (group : List (Fields Value)) :
    engine.accumulated context group (Term.apply "$push" (Term.column column)) =
      some (.list (group.filterMap (·.get? column))) := by
  change some (Value.list (group.filterMap fun row => engine.read context row (Term.column column))) = _
  simp only [read_column engine context field]

theorem evaluate_next {total : List Value → Value} (sums : engine.Sums total) {row : Fields Value}
    {index : Nat} (bounded : index + 1 < 2 ^ 63)
    (counted : row.get? temporary.index = some (.int (Int64.ofNat index))) :
    engine.server.evaluate ⟨row, context.bound⟩
        (Term.call "$add" [Term.column temporary.index, Term.int 1]).data =
      some (some (.int (Int64.ofNat (index + 1)))) := by
  have one : engine.server.evaluate ⟨row, context.bound⟩ (Term.int 1).data = some (some (.int 1)) := rfl
  have position : (View.mk row context.bound).reach temporary.index =
      some (.int (Int64.ofNat index)) :=
    (View.reach_of_isFieldName (by decide) _).trans counted
  rw [Server.evaluate_pair (by decide) (by decide) (by decide), one]
  change some (engine.apply "$add"
    [(View.mk row context.bound).reach temporary.index, some (.int 1)]) = _
  rw [position, apply_eq_operate (by decide), sums.next index bounded]

theorem slice_ofNat {α : Type} (items : List α) {count : Nat} (bounded : count < 2 ^ 63) :
    Operator.slice items (Int64.ofNat count).toInt = items.take count := by
  rw [Int64.toInt_ofNat_of_lt bounded, Operator.slice, if_pos (Int.natCast_nonneg _), Int.toNat_natCast]

/-- A running sum takes as many of the collected values as the position of its row says. -/
theorem read_runningSum {total : List Value → Value} (sums : engine.Sums total) {column : String}
    (collects : isFieldName (Staging.collectedName column)) {row : Fields Value} {items : List Value}
    {index : Nat} (bounded : index + 1 < 2 ^ 63)
    (held : row.get? (Staging.collectedName column) = some (.list items))
    (counted : row.get? temporary.index = some (.int (Int64.ofNat index))) :
    engine.read context row (Staging.runningSum column) =
      some (total ((items.take (index + 1)).filter Value.isNumber)) := by
  have values : (View.mk row context.bound).reach (Staging.collectedName column) =
      some (.list items) :=
    (View.reach_of_isFieldName collects _).trans held
  have sliced : engine.server.evaluate ⟨row, context.bound⟩
      (Term.call "$slice" [Term.column (Staging.collectedName column),
        Term.call "$add" [Term.column temporary.index, Term.int 1]]).data =
        some (some (.list (items.take (index + 1)))) := by
    rw [Server.evaluate_pair (by decide) (by decide) (by decide), evaluate_next sums bounded counted]
    change some (engine.apply "$slice" [(View.mk row context.bound).reach
      (Staging.collectedName column), some (.int (Int64.ofNat (index + 1)))]) = _
    rw [values, ← slice_ofNat items bounded]
    rfl
  rw [Engine.read, Staging.runningSum,
    evaluate_apply _ (by decide) (by decide) (data_call_ne_list _ _), sliced]
  exact sums.list _

end Engine

namespace Staging

/-- The column that a pair of a cumulative sum adds. -/
def sumName (pair : String × String) : String :=
  if pair.2 == "" then pair.1 ++ "_CUMSUM" else pair.2

section Sums

variable {engine : Engine} {context : Context} {pairs : List (String × String)} {groups : ColumnList}
  {collects : ∀ pair ∈ pairs, isFieldName (collectedName pair.1)}
  {unmarked : ∀ field ∈ pairs.map cumulated, isMarked field.1 = false}

/-- What a row of a group holds in a new column, of pairs with the same one the last. -/
theorem get?_restored_sumName {total : List Value → Value} (sums : engine.Sums total)
    {standing : Standing (Fields Value)} (bounded : standing.index + 1 < 2 ^ 63)
    {before after : List (String × String)} {pair : String × String}
    (listed : pairs = before ++ pair :: after)
    (last : ∀ other ∈ after, sumName other ≠ sumName pair) (field : isFieldName pair.1) :
    ((Restoration.cumSum pairs groups collects unmarked).restored engine context standing).get?
        (sumName pair) = some (total (standing.collected pair.1)) := by
  have member : pair ∈ pairs := by
    rw [listed]
    exact List.mem_append_right _ List.mem_cons_self
  have result : (Restoration.cumSum pairs groups collects unmarked).results.get? (sumName pair) =
      some (runningSum pair.1) := by
    change Fields.get? (Fields.ofList (pairs.map cumulated)) (sumName pair) = _
    rw [listed, List.map_append, List.map_cons]
    exact Fields.get?_ofList_append (before.map cumulated) (sumName pair) (runningSum pair.1)
      (List.forall_mem_map.mpr last)
  have held : ((Restoration.cumSum pairs groups collects unmarked).beside engine context standing).get?
      (collectedName pair.1) =
        some (.list (standing.group.filterMap fun row => row.get? pair.1)) := by
    have index : collectedName pair.1 ≠ temporary.index := collectedName_ne (by decide) _
    rw [Restoration.get?_beside_gathered (collectedName_ne_rows _) (by
        rintro counted
        exact index (Option.mem_some.mp counted).symm) (collectedName_ne (by decide) _),
      Restoration.get?_cumSum_collected member, Option.bind_some, Engine.accumulated_push field]
  rw [Restoration.get?_restored, result, Option.bind_some,
    Engine.read_runningSum sums (collects pair member) bounded held (Restoration.get?_beside_index rfl)]
  rfl

variable (engine context collects unmarked) in
/-- The rows in the order of a column, each behind the others of its group, with its sums. -/
theorem run_cumSum (reference : String) (grouping : ∀ name ∈ names groups, isFieldName name)
    {rows : List (Fields Value)} (ascending : ∀ row ∈ rows, row.Ascending) :
    ∃ parts, Grouped (engine.sharesGroup groups) (engine.sort [(reference, 1)] rows) parts ∧
      engine.run (.sort [(reference, 1)] ::
          (Restoration.cumSum pairs groups collects unmarked).stages) context rows =
        (standings parts).map
          ((Restoration.cumSum pairs groups collects unmarked).restored engine context) :=
  (Restoration.cumSum pairs groups collects unmarked).run_stages_columns engine context
    Restoration.get?_cumSum_identity grouping
    fun row member => ascending row ((engine.sort_perm _ rows).mem_iff.mp member)

end Sums

/-- The sum of small whole numbers. -/
def wholeTotal (numbers : List Value) : Value :=
  .int (Int64.ofInt (numbers.filterMap Engine.wholeOf).sum)

/-- An engine for rows of small whole numbers that also sums up lists. -/
def summing : Engine where
  __ := Engine.whole
  operate operator arguments :=
    match operator, arguments with
    | "$sum", [some (.list items)] => some (wholeTotal items)
    | operator, arguments => Engine.wholeOperate operator arguments

theorem sums_summing : summing.Sums wholeTotal where
  list items := by
    have counted : (items.filter Value.isNumber).filterMap Engine.wholeOf =
        items.filterMap Engine.wholeOf := by
      rw [List.filterMap_filter]
      apply List.filterMap_congr
      intro value _
      cases value <;> rfl
    change some (wholeTotal items) = _
    rw [wholeTotal, wholeTotal, counted]
  next index bounded := by
    change some (Value.int (Int64.ofInt ((Int64.ofNat index).toInt + (1 + 0)))) = _
    rw [Int64.toInt_ofNat_of_lt (by omega)]
    rfl

/-- A day without a value, and one with a value. -/
def dated : List (Fields Value) :=
  [[("date", .int 1)], [("date", .int 2), ("v", .int 5)]]

theorem sort_dated : summing.sort [("date", 1)] dated = dated := by
  apply List.mergeSort_of_pairwise
  decide

theorem together_dated (row other : Fields Value) : summing.sharesGroup none row other :=
  summing.sharesGroup_of_names_eq_nil rfl row other

/-- Both days have the value of the second. -/
theorem get?_of_mem_run_dated {collects : ∀ pair ∈ [("v", "")], isFieldName (collectedName pair.1)}
    {unmarked : ∀ field ∈ [("v", "")].map cumulated, isMarked field.1 = false} {row : Fields Value}
    (member : row ∈ summing.run (.sort [("date", 1)] ::
      (Restoration.cumSum [("v", "")] none collects unmarked).stages) ⟨fun _ => [], []⟩ dated) :
    row.get? "v_CUMSUM" = some (.int 5) := by
  have ascending : ∀ row ∈ dated, row.Ascending := by decide
  have grouping : ∀ name ∈ names none, isFieldName name := List.forall_mem_nil _
  obtain ⟨parts, grouped, run⟩ := run_cumSum summing ⟨fun _ => [], []⟩ collects unmarked "date"
    grouping ascending
  rw [run] at member
  obtain ⟨standing, stands, rfl⟩ := List.mem_map.mp member
  obtain ⟨isPart, index⟩ := mem_standings.mp stands
  have all : standing.group = dated := (grouped.eq_rows together_dated isPart).trans sort_dated
  have below : standing.index < standing.group.length := (List.getElem?_eq_some_iff.mp index).1
  have bounded : standing.index + 1 < 2 ^ 63 := by
    rw [all] at below
    exact Nat.lt_of_le_of_lt below (by decide)
  have collected : standing.collected "v" = [.int 5] := by
    rw [Standing.collected, all]
    change ([Value.int 5].take (standing.index + 1)).filter Value.isNumber = _
    rw [List.take_of_length_le (Nat.le_add_left 1 _)]
    rfl
  have listed : [("v", "")] = [] ++ ("v", "") :: [] := rfl
  have summed : ((Restoration.cumSum [("v", "")] none collects unmarked).restored
      summing ⟨fun _ => [], []⟩ standing).get? "v_CUMSUM" =
        some (wholeTotal (standing.collected "v")) :=
    get?_restored_sumName sums_summing bounded listed nofun (by decide)
  rw [collected] at summed
  exact summed

end Staging

end StepQuery
