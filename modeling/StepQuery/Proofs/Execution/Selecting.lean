import StepQuery.Proofs.Execution.Restoring
import StepQuery.Proofs.Execution.Variables

/-!
Which rows of a group are selected.  The first rows of a group are those that no other row of it ranks
before, because its rows are kept in the order in which they were sorted.  The rows that hold an extreme
value of their group are found by comparing each of them with it; the field in which it stands beside
them goes afterwards, and with it a field of this name that they had.
-/

namespace StepQuery

open Staging (names direction)

/-- What is documented of orders: values can be compared, rows are sorted by the keys that they have in
a column, and of some values, none of them null, one that exceeds no other is the least, and one that
no other exceeds is the greatest.  The key of a row may depend on the direction. -/
structure Engine.Ranks (engine : Engine) (compare : Value → Value → Ordering)
    (key : (column : String) → (direction : Int) → Fields Value → Value) : Prop where
  swap : ∀ first second, compare second first = (compare first second).swap
  trans : ∀ {first second third}, (compare first second).isLE → (compare second third).isLE →
    (compare first third).isLE
  equal : ∀ first second,
    engine.operate "$eq" [some first, some second] = some (.bool (compare first second).isEq)
  ascending : ∀ column rows, (engine.sort [(column, 1)] rows).Pairwise fun former later =>
    compare (key column 1 former) (key column 1 later) ≠ .gt
  descending : ∀ column rows, (engine.sort [(column, -1)] rows).Pairwise fun former later =>
    compare (key column (-1) former) (key column (-1) later) ≠ .lt
  greatest : ∀ values : List Value, values ≠ [] → (∀ value ∈ values, value ≠ .null) →
    ∃ extreme ∈ values, engine.accumulate "$max" (values.map some) = some extreme ∧
      ∀ value ∈ values, (compare value extreme).isLE
  least : ∀ values : List Value, values ≠ [] → (∀ value ∈ values, value ≠ .null) →
    ∃ extreme ∈ values, engine.accumulate "$min" (values.map some) = some extreme ∧
      ∀ value ∈ values, (compare extreme value).isLE

/-- Whether a row ranks strictly before another in the order of a column. -/
def ranksBefore (compare : Value → Value → Ordering)
    (key : (column : String) → (direction : Int) → Fields Value → Value) (column order : String)
    (row other : Fields Value) : Bool :=
  if order == "desc" then compare (key column (-1) row) (key column (-1) other) == .gt
  else compare (key column 1 row) (key column 1 other) == .lt

namespace Engine

variable {engine : Engine} {compare : Value → Value → Ordering}
  {key : (column : String) → (direction : Int) → Fields Value → Value}

/-- No row ranks before one that stands before it. -/
theorem Ranks.sorted (ranks : engine.Ranks compare key) (column order : String)
    (rows : List (Fields Value)) :
    (engine.sort [(column, direction order)] rows).Pairwise fun former later =>
      ranksBefore compare key column order later former = false := by
  unfold direction ranksBefore
  by_cases descends : order == "desc"
  · rw [if_pos descends]
    refine (ranks.descending column rows).imp fun {former later} sorted => ?_
    rw [if_pos descends, ranks.swap, beq_eq_false_iff_ne]
    intro above
    exact sorted (by simpa using congrArg Ordering.swap above)
  · rw [if_neg descends]
    refine (ranks.ascending column rows).imp fun {former later} sorted => ?_
    rw [if_neg descends, ranks.swap, beq_eq_false_iff_ne]
    intro below
    exact sorted (by simpa using congrArg Ordering.swap below)

end Engine

namespace Staging

section Top

variable {engine : Engine} {context : Context} {groups : ColumnList}

variable (engine context) in
/-- The first rows of every group, one group after the other. -/
theorem run_top (rankOn order : String) (limit : Int64)
    (grouping : ∀ name ∈ names groups, isFieldName name) {rows : List (Fields Value)}
    (ascending : ∀ row ∈ rows, row.Ascending) :
    ∃ parts, Grouped (engine.sharesGroup groups) (engine.sort [(rankOn, direction order)] rows) parts ∧
      engine.run (top groups rankOn order limit) context rows =
        parts.flatMap fun part => Operator.slice part limit.toInt := by
  have named : ∀ field ∈ Fields.ofList (gatheredFields groups []), isFieldName field.1 :=
    fun field member => named_gatheredFields (List.forall_mem_nil _) field (Fields.mem_ofList member)
  have field : isFieldName temporary.topRows := by decide
  have sorted : ∀ row ∈ engine.sort [(rankOn, direction order)] rows, row.Ascending :=
    fun row member => ascending row ((engine.sort_perm _ rows).mem_iff.mp member)
  obtain ⟨parts, grouped, run⟩ := Engine.run_group_columns engine context named
    (get?_gatheredFields_identity (List.forall_mem_nil _)) grouping sorted
  refine ⟨parts, grouped, ?_⟩
  change engine.run _ context (engine.run [.project _] context
    (engine.run [.group (Fields.ofList (gatheredFields groups []))] context
      (engine.sort _ rows))) = _
  rw [run, Engine.run_project_single engine context field, List.map_map]
  apply Engine.run_restored field
  intro part _
  have gathered : (Fields.ofList (gatheredFields groups [])).get? temporary.rows = some pushedRows :=
    get?_gatheredFields_rows (List.forall_mem_nil _)
  have pushed := engine.get?_groupRow_pushed context (by decide) gathered
  exact (Engine.get?_project_computed field rfl _).trans (read_topRows (pushed _) limit)

/-- What a selection of the first rows keeps: of every group so many rows, and none for which one that
ranks before it is dropped. -/
structure KeepsFirst (together before : Fields Value → Fields Value → Bool) (count : Nat)
    (rows kept dropped : List (Fields Value)) : Prop where
  perm : (kept ++ dropped).Perm rows
  count : ∀ row ∈ rows,
    (kept.filter (together row)).length = min count (rows.filter (together row)).length
  order : ∀ row ∈ kept, ∀ other ∈ dropped, together row other → before other row = false

/-- Of groups in their order the first rows are the ones that lead them. -/
theorem keepsFirst_take {together before : Fields Value → Fields Value → Bool} (count : Nat)
    {rows sorted : List (Fields Value)} {parts : List (List (Fields Value))}
    (grouped : Grouped together sorted parts) (perm : sorted.Perm rows)
    (order : sorted.Pairwise fun former later => before later former = false) :
    KeepsFirst together before count rows (parts.flatMap (·.take count))
      (parts.flatMap (·.drop count)) where
  perm := by
    refine (List.flatMap_append_perm parts _ _).trans (List.Perm.trans ?_ (grouped.perm.trans perm))
    simp only [List.take_append_drop, List.flatten_eq_flatMap]
    exact .refl _
  count row isRow := by
    obtain ⟨part, member, within, taken⟩ := grouped.filter_flatMap
      (fun part => List.take_subset count part) (perm.mem_iff.mpr isRow)
    rw [taken, List.length_take, ← (perm.filter (together row)).length_eq,
      ← grouped.whole part member row within]
  order row isKept other isDropped joined := by
    obtain ⟨part, member, within⟩ := List.mem_flatMap.mp isKept
    obtain ⟨source, isPart, behind⟩ := List.mem_flatMap.mp isDropped
    have inPart : row ∈ part := List.mem_of_mem_take within
    have inSource : other ∈ source := List.mem_of_mem_drop behind
    have here := grouped.mem_of_together member inPart (grouped.mem_rows isPart inSource) joined
    cases grouped.eq_of_mem isPart member inSource here
    have arranged : part.Pairwise fun former later => before later former = false := by
      rw [grouped.whole part member row inPart]
      exact order.filter _
    rw [← List.take_append_drop count part, List.pairwise_append] at arranged
    exact arranged.2.2 row within other behind

end Top

end Staging

namespace Engine

variable {engine : Engine} {context : Context} {column : String}

/-- A path depends on no other field than the one where it begins. -/
theorem read_column_congr (unmarked : isMarked column = false) {row other : Fields Value}
    (same : ∀ name ∈ (pathNames column).head?, row.get? name = other.get? name) :
    engine.read context row (Term.column column) = engine.read context other (Term.column column) := by
  have given : pathNames column ≠ [] := by
    rw [pathNames, ne_eq, List.map_eq_nil_iff]
    exact List.splitOn_ne_nil _ _
  obtain ⟨first, rest, names⟩ := List.exists_cons_of_ne_nil given
  rw [Engine.read, Engine.read, Server.evaluate_column, Server.evaluate_column]
  change (View.mk row context.bound).reach column = (View.mk other context.bound).reach column
  rw [View.reach_of_unmarked unmarked, View.reach_of_unmarked unmarked, names]
  exact Fields.reach_congr (same first (by rw [names]; rfl)) rest

theorem read_equality (context : Context) (row : Fields Value) (first second : String) :
    engine.read context row (Term.call "$eq" [Term.column first, Term.column second]) =
      engine.operate "$eq" [engine.read context row (Term.column first),
        engine.read context row (Term.column second)] := by
  rw [Engine.read, Server.evaluate_pair (by decide) (by decide) (by decide), Engine.read, Engine.read,
    Server.evaluate_column, Server.evaluate_column]
  rfl

/-- What a row holds in a column. -/
def valueIn (engine : Engine) (context : Context) (column : String) (row : Fields Value) : Value :=
  (engine.read context row (Term.column column)).getD .null

/-- Whether no row of its group exceeds a row in a column. -/
def isExtreme (engine : Engine) (context : Context) (within : Value → Value → Bool)
    (groups : ColumnList) (column : String) (rows : List (Fields Value)) (row : Fields Value) : Bool :=
  rows.all fun other => !engine.sharesGroup groups row other ||
    within (engine.valueIn context column other) (engine.valueIn context column row)

/-- What is documented of an operator for extreme values. -/
structure Extremes (engine : Engine) (operator : String) (within : Value → Value → Bool) : Prop where
  trans : ∀ {first second third}, within first second → within second third → within first third
  equal : ∀ first second, engine.operate "$eq" [some first, some second] =
    some (.bool (within first second && within second first))
  extreme : ∀ values : List Value, values ≠ [] → (∀ value ∈ values, value ≠ .null) →
    ∃ extreme ∈ values, engine.accumulate operator (values.map some) = some extreme ∧
      ∀ value ∈ values, within value extreme

section Ranks

variable {compare : Value → Value → Ordering}
  {key : (column : String) → (direction : Int) → Fields Value → Value}

theorem Ranks.isEq (ranks : engine.Ranks compare key) (first second : Value) :
    (compare first second).isEq = ((compare first second).isLE && (compare second first).isLE) := by
  rw [ranks.swap first second]
  cases compare first second <;> rfl

theorem Ranks.extremes_max (ranks : engine.Ranks compare key) :
    engine.Extremes "$max" fun first second => (compare first second).isLE where
  trans := ranks.trans
  equal first second := by rw [ranks.equal, ranks.isEq]
  extreme := ranks.greatest

theorem Ranks.extremes_min (ranks : engine.Ranks compare key) :
    engine.Extremes "$min" fun first second => (compare second first).isLE where
  trans first second := ranks.trans second first
  equal first second := by rw [ranks.equal, ranks.isEq, Bool.and_comm]
  extreme := ranks.least

end Ranks

end Engine

namespace Restoration

theorem isFieldName_target :
    isFieldName temporary.target ∧ temporary.target ≠ temporary.rows := by decide

/-- Rows restored with the extreme value of their group. -/
def extremum (column : String) (groups : ColumnList) (operator : String) : Restoration :=
  ofGather groups [(temporary.target, Term.apply operator (Term.column column))]
    [(temporary.target, Term.column temporary.target)] none
    (List.forall_mem_singleton.mpr isFieldName_target) rows_notMem_none
    (List.forall_mem_singleton.mpr (isMarked_of_isFieldName isFieldName_target.1))
    (List.forall_mem_singleton.mpr fun _ view => Engine.accepts_column view _)

end Restoration

namespace Staging

section Extremum

/-- What is selected and made of items that are made of others may be said of these. -/
theorem map_filter_map_congr {α β γ δ : Type} {items : List α} {make : α → β} {origin : α → γ}
    {selects : β → Bool} {selects' : γ → Bool} {next : β → δ} {next' : γ → δ}
    (each : ∀ item ∈ items, selects (make item) = selects' (origin item) ∧
      next (make item) = next' (origin item)) :
    ((items.map make).filter selects).map next = ((items.map origin).filter selects').map next' := by
  induction items with
  | nil => rfl
  | cons item rest inductionHypothesis =>
    obtain ⟨⟨selected, made⟩, later⟩ := List.forall_mem_cons.mp each
    rw [List.map_cons, List.map_cons, List.filter_cons, List.filter_cons, selected]
    split
    · rw [List.map_cons, List.map_cons, made, inductionHypothesis later]
    · exact inductionHypothesis later

theorem target_ne_identity : temporary.target ≠ "_id" := by decide

variable {engine : Engine} {context : Context} {column : String} {groups : ColumnList}
  {operator : String} {within : Value → Value → Bool} {rows : List (Fields Value)}

theorem extremum_eq (column : String) (groups : ColumnList) (operator : String) :
    extremum column groups operator = (Restoration.extremum column groups operator).stages ++
      [.matching [("$expr", Term.call "$eq" [Term.column column, Term.column temporary.target])],
        .project [(temporary.target, Term.int 0)]] := rfl

theorem read_beside_extremum (known : operator ≠ "$push") {standing : Standing (Fields Value)}
    {extreme : Value} (gathers : engine.accumulate operator
      (standing.group.map fun row => engine.read context row (Term.column column)) = some extreme) :
    engine.read context ((Restoration.extremum column groups operator).beside engine context standing)
      (Term.column temporary.target) = some extreme := by
  have gathered : (Restoration.extremum column groups operator).gathered.get? temporary.target =
      some (Term.apply operator (Term.column column)) :=
    Restoration.get?_ofGather List.mem_cons_self (by decide) (by simp)
  rw [Engine.read_column engine context Restoration.isFieldName_target.1,
    Restoration.get?_beside_gathered Restoration.isFieldName_target.2 (Option.not_mem_none _)
      target_ne_identity, gathered, Option.bind_some, Engine.accumulated_apply known, gathers]

/-- Beside every row stands the extreme value of its group. -/
theorem exists_restored_extremum (extremes : engine.Extremes operator within)
    (known : operator ≠ "$push") {standing : Standing (Fields Value)}
    (member : standing.row ∈ standing.group)
    (held : ∀ row ∈ standing.group, ∃ value, engine.read context row (Term.column column) = some value ∧
      value ≠ .null) :
    ∃ extreme, (∀ row ∈ standing.group, within (engine.valueIn context column row) extreme) ∧
      (∃ row ∈ standing.group, engine.valueIn context column row = extreme) ∧
      (Restoration.extremum column groups operator).restored engine context standing =
        standing.row.set temporary.target extreme := by
  have reads : ∀ row ∈ standing.group, engine.read context row (Term.column column) =
      some (engine.valueIn context column row) ∧ engine.valueIn context column row ≠ .null := by
    intro row within
    obtain ⟨value, found, present⟩ := held row within
    rw [Engine.valueIn, found]
    exact ⟨rfl, present⟩
  have values : (standing.group.map fun row => engine.read context row (Term.column column)) =
      (standing.group.map (engine.valueIn context column)).map some := by
    rw [List.map_map]
    exact List.map_congr_left fun row within => (reads row within).1
  obtain ⟨extreme, isValue, gathers, exceeds⟩ :=
    extremes.extreme (standing.group.map (engine.valueIn context column))
      (List.map_eq_nil_iff.not.mpr (List.ne_nil_of_mem member))
      (List.forall_mem_map.mpr fun row within => (reads row within).2)
  have beside : engine.read context ((Restoration.extremum column groups operator).beside engine
      context standing) (Term.column temporary.target) = some extreme :=
    read_beside_extremum known (by rw [values, gathers])
  have results : engine.computed context (Restoration.extremum column groups operator).results
      ((Restoration.extremum column groups operator).beside engine context standing) =
        [(temporary.target, extreme)] := by
    change List.filterMap _ [(temporary.target, Term.column temporary.target)] = _
    rw [List.filterMap_cons_some (by rw [beside]; rfl)]
    rfl
  refine ⟨extreme, List.forall_mem_map.mp exceeds, List.mem_map.mp isValue, ?_⟩
  rw [Restoration.restored, results]
  rfl

/-- No row of a group exceeds one that the extreme value of the group does not. -/
theorem isExtreme_iff (extremes : engine.Extremes operator within)
    {parts : List (List (Fields Value))} (grouped : Grouped (engine.sharesGroup groups) rows parts)
    {part : List (Fields Value)} (isPart : part ∈ parts) {row : Fields Value} (member : row ∈ part)
    {extreme : Value} (exceeds : ∀ other ∈ part, within (engine.valueIn context column other) extreme)
    (attained : ∃ other ∈ part, engine.valueIn context column other = extreme) :
    engine.isExtreme context within groups column rows row ↔
      within extreme (engine.valueIn context column row) := by
  rw [Engine.isExtreme, List.all_eq_true]
  constructor
  · intro each
    obtain ⟨other, inside, rfl⟩ := attained
    have shared := grouped.together_of_mem isPart member inside
    have above := each other (grouped.mem_rows isPart inside)
    rwa [shared] at above
  · intro above other isRow
    rw [Bool.or_eq_true, Bool.not_eq_true', ← Bool.not_eq_true]
    by_cases shared : engine.sharesGroup groups row other
    · have inside := grouped.mem_of_together isPart member isRow shared
      exact .inr (extremes.trans (exceeds other inside) above)
    · exact .inl shared

/-- A row is equal to the extreme value beside it exactly if no row of its group exceeds it. -/
theorem satisfies_extremum (extremes : engine.Extremes operator within)
    (unmarked : isMarked column = false) (begins : temporary.target ∉ (pathNames column).head?)
    {parts : List (List (Fields Value))} (grouped : Grouped (engine.sharesGroup groups) rows parts)
    {part : List (Fields Value)} (isPart : part ∈ parts) {row : Fields Value} (member : row ∈ part)
    {value extreme : Value} (found : engine.read context row (Term.column column) = some value)
    (exceeds : ∀ other ∈ part, within (engine.valueIn context column other) extreme)
    (attained : ∃ other ∈ part, engine.valueIn context column other = extreme) :
    engine.meaning.satisfies context (.document [("$expr", Term.call "$eq"
        [Term.column column, Term.column temporary.target])]) (row.set temporary.target extreme) =
      engine.isExtreme context within groups column rows row := by
  have kept : engine.read context (row.set temporary.target extreme) (Term.column column) =
      some value := by
    rw [← found]
    apply Engine.read_column_congr unmarked
    intro name first
    have other : temporary.target ≠ name := fun same => begins (same ▸ first)
    exact Fields.get?_set_of_ne other _ _
  have beside : engine.read context (row.set temporary.target extreme)
      (Term.column temporary.target) = some extreme := by
    rw [Engine.read_column engine context Restoration.isFieldName_target.1]
    exact Fields.get?_set_self _ _ _
  have own : engine.valueIn context column row = value := by
    rw [Engine.valueIn, found]
    rfl
  change Value.truth (engine.read context _ _) = _
  rw [Engine.read_equality, kept, beside, extremes.equal, ← own]
  change (_ && _) = _
  rw [Bool.eq_iff_iff, Bool.and_eq_true, isExtreme_iff extremes grouped isPart member exceeds attained]
  exact and_iff_right (exceeds row member)

/-- The rows that hold an extreme value of their group, without a field that is used for it. -/
theorem run_extremum (extremes : engine.Extremes operator within) (known : operator ≠ "$push")
    (unmarked : isMarked column = false) (begins : temporary.target ∉ (pathNames column).head?)
    (grouping : ∀ name ∈ names groups, isFieldName name) (ascending : ∀ row ∈ rows, row.Ascending)
    (held : ∀ row ∈ rows, ∃ value, engine.read context row (Term.column column) = some value ∧
      value ≠ .null) :
    (engine.run (extremum column groups operator) context rows).Perm
      ((rows.filter (engine.isExtreme context within groups column rows)).map
        (Fields.erase temporary.target)) := by
  obtain ⟨parts, grouped, run⟩ := (Restoration.extremum column groups operator).run_stages_columns
    engine context (Restoration.get?_ofGather_identity (List.forall_mem_singleton.mpr target_ne_identity))
    grouping ascending
  have each : ∀ standing ∈ standings parts,
      engine.meaning.satisfies context (.document [("$expr", Term.call "$eq"
        [Term.column column, Term.column temporary.target])])
        ((Restoration.extremum column groups operator).restored engine context standing) =
          engine.isExtreme context within groups column rows standing.row ∧
      engine.project [(temporary.target, Term.int 0)] context
        ((Restoration.extremum column groups operator).restored engine context standing) =
          standing.row.erase temporary.target := by
    intro standing member
    obtain ⟨isPart, inside⟩ := mem_group_of_mem_standings member
    obtain ⟨extreme, exceeds, attained, restored⟩ := exists_restored_extremum extremes known inside
      fun row also => held row (grouped.mem_rows isPart also)
    obtain ⟨value, found, _⟩ := held standing.row (grouped.mem_rows isPart inside)
    rw [restored]
    refine ⟨satisfies_extremum extremes unmarked begins grouped isPart inside found exceeds attained, ?_⟩
    change Fields.erase temporary.target (standing.row.set temporary.target extreme) = _
    exact Fields.erase_set _ _ _
  rw [extremum_eq, Engine.run_append, run, Engine.run_cons, Engine.run_matching,
    Engine.run_project_single engine context Restoration.isFieldName_target.1,
    map_filter_map_congr each, map_row_standings]
  exact (grouped.perm.filter _).map _

end Extremum

/-- A top step keeps the first rows of every group, as many as it is given, and drops none that ranks
before one of them.  The greatest and the least values of a column select the rows of every group that
no other row of it exceeds, or that exceed no other; nothing of them changes, but the field in which
such a value stands beside a row is removed. -/
theorem selected_rows (target : Target) {groups : ColumnList}
    (grouping : ∀ name ∈ names groups, isFieldName name) :
    (∀ (rankOn order : String) (limit : Value) (count : Int64), Casting.integer limit = .ok count →
      0 < count.toInt →
      ∃ stages, stepStages target (.transform (.top groups rankOn order limit)) = .ok stages ∧
        ∀ (engine : Engine) compare key (context : Context) (rows : List (Fields Value)),
          engine.Ranks compare key → (∀ row ∈ rows, row.Ascending) →
          ∃ dropped, KeepsFirst (engine.sharesGroup groups) (ranksBefore compare key rankOn order)
            count.toInt.toNat rows (engine.run stages context rows) dropped) ∧
    (∀ column : String, isMarked column = false → temporary.target ∉ (pathNames column).head? →
      ∃ highest lowest, stepStages target (.transform (.argmax column groups)) = .ok highest ∧
        stepStages target (.transform (.argmin column groups)) = .ok lowest ∧
        ∀ (engine : Engine) compare key (context : Context) (rows : List (Fields Value)),
          engine.Ranks compare key → (∀ row ∈ rows, row.Ascending) →
          (∀ row ∈ rows, ∃ value, engine.read context row (Term.column column) = some value ∧
            value ≠ .null) →
          (engine.run highest context rows).Perm
            ((rows.filter (engine.isExtreme context (fun first second => (compare first second).isLE)
              groups column rows)).map (Fields.erase temporary.target)) ∧
          (engine.run lowest context rows).Perm
            ((rows.filter (engine.isExtreme context (fun first second => (compare second first).isLE)
              groups column rows)).map (Fields.erase temporary.target))) := by
  constructor
  · intro rankOn order limit count given positive
    refine ⟨top groups rankOn order count, ?_, ?_⟩
    · change (Attempt.inside .limit (Casting.integer limit) >>= fun limit => _) = _
      rw [given]
      rfl
    · intro engine compare key context rows ranks ascending
      obtain ⟨parts, grouped, run⟩ := run_top engine context rankOn order count grouping ascending
      have first : (fun part : List (Fields Value) => Operator.slice part count.toInt) =
          fun part => part.take count.toInt.toNat := by
        funext part
        rw [Operator.slice, if_pos positive.le]
      rw [run, first]
      exact ⟨_, keepsFirst_take _ grouped (engine.sort_perm _ rows) (ranks.sorted rankOn order rows)⟩
  · intro column unmarked begins
    refine ⟨_, _, rfl, rfl, fun engine compare key context rows ranks ascending held => ?_⟩
    exact ⟨run_extremum ranks.extremes_max (by decide) unmarked begins grouping ascending held,
      run_extremum ranks.extremes_min (by decide) unmarked begins grouping ascending held⟩

section Ranking

/-- Of the values with the highest key the last. -/
def highest (key : Value → Int) : List Value → Option Value
  | [] => none
  | value :: rest =>
    match highest key rest with
    | none => some value
    | some best => some (if key best ≤ key value then value else best)

theorem exists_highest (key : Value → Int) {values : List Value} (given : values ≠ []) :
    ∃ extreme ∈ values, highest key values = some extreme ∧
      ∀ value ∈ values, key value ≤ key extreme := by
  induction values with
  | nil => exact absurd rfl given
  | cons value rest inductionHypothesis =>
    by_cases alone : rest = []
    · rw [alone]
      exact ⟨value, List.mem_singleton_self value, rfl, List.forall_mem_singleton.mpr le_rfl⟩
    · obtain ⟨best, member, found, exceeds⟩ := inductionHypothesis alone
      rw [highest, found]
      by_cases above : key best ≤ key value
      · exact ⟨value, List.mem_cons_self, congrArg some (if_pos above),
          List.forall_mem_cons.mpr ⟨le_rfl, fun other within => (exceeds other within).trans above⟩⟩
      · exact ⟨best, List.mem_cons_of_mem _ member, congrArg some (if_neg above),
          List.forall_mem_cons.mpr ⟨(not_le.mp above).le, exceeds⟩⟩

theorem reduceOption_map_some (values : List Value) : (values.map some).reduceOption = values := by
  change (values.map some).filterMap id = values
  rw [List.filterMap_map]
  exact List.filterMap_some

/-- The whole number by which a value is ranked. -/
def rank (value : Value) : Int := (Engine.wholeOf value).getD 0

/-- An engine for rows of small whole numbers that ranks them. -/
def ranking : Engine where
  __ := Engine.whole
  operate operator arguments :=
    match operator, arguments with
    | "$eq", [some first, some second] => some (.bool (compare (rank first) (rank second)).isEq)
    | operator, arguments => Engine.wholeOperate operator arguments
  accumulate operator arguments :=
    match operator with
    | "$max" => highest rank arguments.reduceOption
    | "$min" => highest (fun value => -rank value) arguments.reduceOption
    | operator => Engine.wholeAccumulate operator arguments

theorem wholePrecedes_single (column : String) (direction : Int) (row other : Fields Value) :
    Engine.wholePrecedes [(column, direction)] row other ↔
      rank ((row.get? column).getD .null) * direction ≤
        rank ((other.get? column).getD .null) * direction := by
  have ranked : ∀ row : Fields Value, ((row.get? column).bind Engine.wholeOf).getD 0 =
      rank ((row.get? column).getD .null) := by
    intro row
    cases row.get? column <;> rfl
  rw [Engine.wholePrecedes, Engine.wholePrecedes, ranked, ranked]
  simp only [Bool.and_true, Bool.or_eq_true, decide_eq_true_eq, beq_iff_eq]
  exact le_iff_lt_or_eq.symm

theorem sorted_ranking (column : String) (direction : Int) (rows : List (Fields Value)) :
    (ranking.sort [(column, direction)] rows).Pairwise fun former later =>
      rank ((former.get? column).getD .null) * direction ≤
        rank ((later.get? column).getD .null) * direction := by
  have transitive : ∀ first second third, Engine.wholePrecedes [(column, direction)] first second →
      Engine.wholePrecedes [(column, direction)] second third →
        Engine.wholePrecedes [(column, direction)] first third := by
    intro first second third
    simp only [wholePrecedes_single]
    exact le_trans
  have total : ∀ first second, (Engine.wholePrecedes [(column, direction)] first second ||
      Engine.wholePrecedes [(column, direction)] second first) = true := by
    intro first second
    rw [Bool.or_eq_true, wholePrecedes_single, wholePrecedes_single]
    exact le_total _ _
  have sorted := List.pairwise_mergeSort transitive total rows
  exact sorted.imp fun {former later} precedes => (wholePrecedes_single _ _ _ _).mp precedes

theorem ranks_ranking : ranking.Ranks (fun first second => compare (rank first) (rank second))
    fun column _ row => (row.get? column).getD .null where
  swap first second := Std.OrientedOrd.eq_swap
  trans first second := by
    rw [Int.isLE_compare] at first second ⊢
    exact first.trans second
  equal first second := rfl
  ascending column rows := by
    refine (sorted_ranking column 1 rows).imp fun {former later} below => ?_
    rw [Int.mul_one, Int.mul_one] at below
    rw [ne_eq, Int.compare_eq_gt]
    exact not_lt.mpr below
  descending column rows := by
    refine (sorted_ranking column (-1) rows).imp fun {former later} above => ?_
    rw [ne_eq, Int.compare_eq_lt]
    omega
  greatest values given _ := by
    obtain ⟨extreme, member, found, exceeds⟩ := exists_highest rank given
    refine ⟨extreme, member, ?_, fun value within => Int.isLE_compare.mpr (exceeds value within)⟩
    change highest rank (values.map some).reduceOption = _
    rw [reduceOption_map_some, found]
  least values given _ := by
    obtain ⟨extreme, member, found, exceeds⟩ := exists_highest (fun value => -rank value) given
    refine ⟨extreme, member, ?_, fun value within =>
      Int.isLE_compare.mpr (neg_le_neg_iff.mp (exceeds value within))⟩
    change highest _ (values.map some).reduceOption = _
    rw [reduceOption_map_some, found]

theorem selected_rows_orders : ∃ first highest dropped,
    stepStages ⟨.usual, false⟩
        (.transform (.top (some ["customer"]) "price" "desc" (.int 1))) = .ok first ∧
      stepStages ⟨.usual, false⟩ (.transform (.argmax "price" (some ["customer"]))) = .ok highest ∧
      KeepsFirst (ranking.sharesGroup (some ["customer"]))
        (ranksBefore (fun first second => compare (rank first) (rank second))
          (fun column _ row => (row.get? column).getD .null) "price" "desc")
        1 customerOrders (ranking.run first ⟨fun _ => [], []⟩ customerOrders) dropped ∧
      (ranking.run highest ⟨fun _ => [], []⟩ customerOrders).Perm
        ((customerOrders.filter (ranking.isExtreme ⟨fun _ => [], []⟩
          (fun first second => (compare (rank first) (rank second)).isLE) (some ["customer"]) "price"
          customerOrders)).map (Fields.erase temporary.target)) := by
  have ascending : ∀ row ∈ customerOrders, row.Ascending := by decide
  have held : ∀ row ∈ customerOrders, ∃ value,
      ranking.read ⟨fun _ => [], []⟩ row (Term.column "price") = some value ∧ value ≠ .null := by
    have field : isFieldName "price" := by decide
    simp only [Engine.read_column ranking ⟨fun _ => [], []⟩ field]
    exact List.forall_mem_cons.mpr ⟨⟨_, rfl, nofun⟩, List.forall_mem_cons.mpr ⟨⟨_, rfl, nofun⟩,
      List.forall_mem_singleton.mpr ⟨_, rfl, nofun⟩⟩⟩
  have grouping : ∀ name ∈ names (some ["customer"]), isFieldName name := by decide
  obtain ⟨tops, extremes⟩ := selected_rows ⟨.usual, false⟩ grouping
  obtain ⟨first, staged, each⟩ := tops "price" "desc" (.int 1) 1 rfl (by decide)
  obtain ⟨highest, lowest, returned, _, selects⟩ := extremes "price" (by decide) (by decide)
  obtain ⟨dropped, keeps⟩ := each ranking _ _ ⟨fun _ => [], []⟩ customerOrders ranks_ranking ascending
  exact ⟨first, highest, dropped, staged, returned, keeps,
    (selects ranking _ _ ⟨fun _ => [], []⟩ customerOrders ranks_ranking ascending held).1⟩

/-- A row with a field of the name under which extreme values are put beside rows. -/
def targeted : Fields Value := [("_vqbTarget", .int 1), ("v", .int 1)]

/-- Not every row that holds the greatest value of its group comes out unchanged. -/
theorem not_argmax_unchanged :
    ¬∀ (target : Target) (groups : ColumnList) (column : String) (stages : List Stage)
      (engine : Engine) (compare : Value → Value → Ordering)
      (key : (column : String) → (direction : Int) → Fields Value → Value) (context : Context)
      (rows : List (Fields Value)), (∀ name ∈ names groups, isFieldName name) → isFieldName column →
      engine.Ranks compare key → (∀ row ∈ rows, row.Ascending) →
      (∀ row ∈ rows, ∃ value, engine.read context row (Term.column column) = some value ∧
        value ≠ .null) →
      stepStages target (.transform (.argmax column groups)) = .ok stages →
        (engine.run stages context rows).Perm (rows.filter (engine.isExtreme context
          (fun first second => (compare first second).isLE) groups column rows)) := by
  intro unchanged
  have ascending : ∀ row ∈ [targeted], row.Ascending := by decide
  have held : ∀ row ∈ [targeted], ∃ value,
      ranking.read ⟨fun _ => [], []⟩ row (Term.column "v") = some value ∧ value ≠ .null := by
    have field : isFieldName "v" := by decide
    rw [List.forall_mem_singleton, Engine.read_column ranking ⟨fun _ => [], []⟩ field]
    exact ⟨_, rfl, nofun⟩
  have claimed := unchanged ⟨.usual, false⟩ none "v" _ ranking _ _ ⟨fun _ => [], []⟩ [targeted]
    (List.forall_mem_nil _) (by decide) ranks_ranking ascending held rfl
  have grouping : ∀ name ∈ names none, isFieldName name := List.forall_mem_nil _
  have found := run_extremum ranks_ranking.extremes_max (by decide) (by decide) (by decide) grouping
    ascending held
  have chosen : [targeted].filter (ranking.isExtreme ⟨fun _ => [], []⟩
      (fun first second => (compare (rank first) (rank second)).isLE) none "v" [targeted]) =
        [targeted] := by
    rw [List.filter_eq_self, List.forall_mem_singleton, Engine.isExtreme, List.all_cons, List.all_nil,
      Int.isLE_compare.mpr le_rfl, Bool.or_true]
    rfl
  rw [chosen] at claimed found
  have same : [targeted] = [Fields.erase temporary.target targeted] :=
    List.perm_singleton.mp (claimed.symm.trans found)
  exact absurd (congrArg List.length (List.cons.inj same).1) (by decide)

end Ranking

end Staging

end StepQuery
