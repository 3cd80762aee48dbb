import StepQuery.Proofs.Execution.Rows

/-!
Rows by groups.  A group is all rows that hold the same in some columns, in their order, and its row
keeps them in an array.  However groups are dealt, every row stands in one of them, behind some of its
rows.  Taken out of the array and merged with what the group comes to, it is found again with these
results, and in all else as it was.
-/

namespace StepQuery

section Grouped

variable {Row : Type}

/-- The groups of rows of which some belong together: a group is all rows that belong to one of its
rows, in their order, and the groups have all rows between them. -/
structure Grouped (together : Row → Row → Bool) (rows : List Row) (groups : List (List Row)) : Prop where
  whole : ∀ group ∈ groups, ∀ row ∈ group, group = rows.filter (together row)
  perm : groups.flatten.Perm rows
  occupied : ∀ group ∈ groups, group ≠ []

/-- A row in its group, with the number of rows before it. -/
structure Standing (Row : Type) where
  group : List Row
  row : Row
  index : Nat

/-- All rows as they stand in their groups. -/
def standings (groups : List (List Row)) : List (Standing Row) :=
  groups.flatMap fun group => group.zipIdx.map fun entry => ⟨group, entry.1, entry.2⟩

theorem mem_standings {groups : List (List Row)} {standing : Standing Row} :
    standing ∈ standings groups ↔
      standing.group ∈ groups ∧ standing.group[standing.index]? = some standing.row := by
  rw [standings, List.mem_flatMap]
  constructor
  · rintro ⟨group, member, within⟩
    obtain ⟨entry, numbered, rfl⟩ := List.mem_map.mp within
    exact ⟨member, List.mem_zipIdx_iff_getElem?.mp numbered⟩
  · rintro ⟨member, stands⟩
    exact ⟨standing.group, member,
      List.mem_map.mpr ⟨(standing.row, standing.index), List.mem_zipIdx_iff_getElem?.mpr stands, rfl⟩⟩

theorem mem_group_of_mem_standings {groups : List (List Row)} {standing : Standing Row}
    (member : standing ∈ standings groups) :
    standing.group ∈ groups ∧ standing.row ∈ standing.group := by
  obtain ⟨within, stands⟩ := mem_standings.mp member
  exact ⟨within, List.mem_of_getElem? stands⟩

theorem map_row_standings (groups : List (List Row)) :
    (standings groups).map (·.row) = groups.flatten := by
  rw [standings, List.map_flatMap, List.flatten_eq_flatMap]
  apply List.flatMap_congr
  intro group _
  rw [List.map_map]
  exact List.zipIdx_map_fst 0 group

namespace Grouped

variable {together : Row → Row → Bool} {rows : List Row} {groups : List (List Row)}

theorem mem_rows (grouped : Grouped together rows groups) {group : List Row} (member : group ∈ groups)
    {row : Row} (within : row ∈ group) : row ∈ rows :=
  grouped.perm.mem_iff.mp (List.mem_flatten_of_mem member within)

theorem exists_group (grouped : Grouped together rows groups) {row : Row} (member : row ∈ rows) :
    ∃ group ∈ groups, row ∈ group :=
  List.mem_flatten.mp (grouped.perm.mem_iff.mpr member)

theorem together_of_mem (grouped : Grouped together rows groups) {group : List Row}
    (member : group ∈ groups) {row other : Row} (within : row ∈ group) (also : other ∈ group) :
    together row other := by
  rw [grouped.whole group member row within] at also
  exact (List.mem_filter.mp also).2

/-- Rows that belong together are in one group. -/
theorem mem_of_together (grouped : Grouped together rows groups) {group : List Row}
    (member : group ∈ groups) {row other : Row} (within : row ∈ group) (isRow : other ∈ rows)
    (joined : together row other) : other ∈ group := by
  rw [grouped.whole group member row within]
  exact List.mem_filter.mpr ⟨isRow, joined⟩

theorem eq_of_mem (grouped : Grouped together rows groups) {group other : List Row}
    (member : group ∈ groups) (isGroup : other ∈ groups) {row : Row} (within : row ∈ group)
    (also : row ∈ other) : group = other :=
  (grouped.whole group member row within).trans (grouped.whole other isGroup row also).symm

theorem length_le (grouped : Grouped together rows groups) {group : List Row}
    (member : group ∈ groups) : group.length ≤ rows.length := by
  rw [← grouped.perm.length_eq]
  exact (List.sublist_flatten_of_mem member).length_le

/-- No group is there twice, for there would be more rows in it than belong together. -/
theorem nodup (grouped : Grouped together rows groups) : groups.Nodup := by
  rw [List.nodup_iff_sublist]
  intro group twice
  have member : group ∈ groups := twice.subset List.mem_cons_self
  obtain ⟨row, within⟩ := List.exists_mem_of_ne_nil group (grouped.occupied group member)
  have counted : group.countP (together row) = group.length :=
    List.countP_eq_length.mpr fun other also => grouped.together_of_mem member within also
  have double : [group, group].flatten.countP (together row) ≤ groups.flatten.countP (together row) :=
    twice.flatten.countP_le
  have single : groups.flatten.countP (together row) = group.length := by
    rw [grouped.perm.countP_eq, List.countP_eq_length_filter, ← grouped.whole group member row within]
  have some : 0 < group.length := List.length_pos_of_mem within
  simp only [List.flatten_cons, List.flatten_nil, List.append_nil, List.countP_append, counted,
    single] at double
  omega

/-- A row is in one group and in no other. -/
theorem exists_split (grouped : Grouped together rows groups) {row : Row} (isRow : row ∈ rows) :
    ∃ before group after, groups = before ++ group :: after ∧ row ∈ group ∧
      ∀ other ∈ before ++ after, row ∉ other := by
  obtain ⟨group, member, within⟩ := grouped.exists_group isRow
  obtain ⟨before, after, split⟩ := List.append_of_mem member
  refine ⟨before, group, after, split, within, ?_⟩
  intro other isOther also
  have apart := grouped.nodup
  rw [split, List.nodup_middle, List.nodup_cons] at apart
  have isGroup : other ∈ groups := by
    rw [split]
    exact List.perm_middle.mem_iff.mpr (List.mem_cons_of_mem _ isOther)
  exact apart.1 (grouped.eq_of_mem member isGroup within also ▸ isOther)

/-- What tells the group of a row from all others finds it. -/
theorem filter_groups (grouped : Grouped together rows groups) {selects : List Row → Bool} {row : Row}
    (isRow : row ∈ rows) (tells : ∀ group ∈ groups, selects group ↔ row ∈ group) :
    ∃ group ∈ groups, row ∈ group ∧ groups.filter selects = [group] := by
  obtain ⟨before, group, after, rfl, within, others⟩ := grouped.exists_split isRow
  have member : group ∈ before ++ group :: after := List.mem_append_right _ List.mem_cons_self
  refine ⟨group, member, within, ?_⟩
  have first : before.filter selects = [] := by
    rw [List.filter_eq_nil_iff]
    intro other isOther selected
    exact others other (List.mem_append_left _ isOther)
      ((tells other (List.mem_append_left _ isOther)).mp selected)
  have last : after.filter selects = [] := by
    rw [List.filter_eq_nil_iff]
    intro other isOther selected
    exact others other (List.mem_append_right _ isOther)
      ((tells other (List.mem_append_right _ (List.mem_cons_of_mem _ isOther))).mp selected)
  rw [List.filter_append, List.filter_cons_of_pos ((tells group member).mpr within), first, last]
  rfl

/-- Of what is taken from every group, the part that belongs to a row is what is taken from its
group. -/
theorem filter_flatMap (grouped : Grouped together rows groups) {chosen : List Row → List Row}
    (taken : ∀ group, chosen group ⊆ group) {row : Row} (isRow : row ∈ rows) :
    ∃ group ∈ groups, row ∈ group ∧ (groups.flatMap chosen).filter (together row) = chosen group := by
  obtain ⟨before, group, after, split, within, others⟩ := grouped.exists_split isRow
  have member : group ∈ groups := by
    rw [split]
    exact List.mem_append_right _ List.mem_cons_self
  refine ⟨group, member, within, ?_⟩
  have own : (chosen group).filter (together row) = chosen group :=
    List.filter_eq_self.mpr fun other also => grouped.together_of_mem member within (taken group also)
  have foreign : ∀ other ∈ before ++ after, (chosen other).filter (together row) = [] := by
    intro other isOther
    rw [List.filter_eq_nil_iff]
    intro stranger also joined
    have isGroup : other ∈ groups := by
      rw [split]
      exact List.perm_middle.mem_iff.mpr (List.mem_cons_of_mem _ isOther)
    have inside : stranger ∈ other := taken other also
    have here := grouped.mem_of_together member within (grouped.mem_rows isGroup inside) joined
    have same := grouped.eq_of_mem isGroup member inside here
    exact others other isOther (same ▸ within)
  have first : (before.flatMap fun other => (chosen other).filter (together row)) = [] :=
    List.flatMap_eq_nil_iff.mpr fun other isOther => foreign other (List.mem_append_left _ isOther)
  have last : (after.flatMap fun other => (chosen other).filter (together row)) = [] :=
    List.flatMap_eq_nil_iff.mpr fun other isOther => foreign other (List.mem_append_right _ isOther)
  rw [split, List.filter_flatMap, List.flatMap_append, List.flatMap_cons, first, last, own,
    List.nil_append, List.append_nil]

/-- Where all rows belong together, a group is all of them. -/
theorem eq_rows (all : ∀ row other, together row other) (grouped : Grouped together rows groups)
    {group : List Row} (member : group ∈ groups) : group = rows := by
  obtain ⟨row, within⟩ := List.exists_mem_of_ne_nil group (grouped.occupied group member)
  rw [grouped.whole group member row within, List.filter_eq_self]
  exact fun other _ => all row other

theorem of_perm {others : List (List Row)} (same : groups.Perm others)
    (grouped : Grouped together rows groups) : Grouped together rows others where
  whole group member := grouped.whole group (same.mem_iff.mpr member)
  perm := same.symm.flatten.trans grouped.perm
  occupied group member := grouped.occupied group (same.mem_iff.mpr member)

theorem congr {also : Row → Row → Bool}
    (same : ∀ row ∈ rows, ∀ other ∈ rows, together row other = also row other)
    (grouped : Grouped together rows groups) : Grouped also rows groups where
  whole group member row within := by
    rw [grouped.whole group member row within]
    exact List.filter_congr (same row (grouped.mem_rows member within))
  perm := grouped.perm
  occupied := grouped.occupied

end Grouped

end Grouped

namespace Fields

section Making

variable {α β : Type} {fields : Fields α}

theorem Ascending.filterMap (ascending : Ascending fields) (make : String × α → Option β) :
    Ascending (fields.filterMap fun field => (make field).map fun made => (field.1, made)) := by
  refine List.Pairwise.filterMap _ ?_ ascending
  intro first second below made isMade other isOther
  obtain ⟨_, _, rfl⟩ := Option.map_eq_some_iff.mp isMade
  obtain ⟨_, _, rfl⟩ := Option.map_eq_some_iff.mp isOther
  exact below

/-- What is found among entries that are made of others, each under its name. -/
theorem Ascending.get?_filterMap (ascending : Ascending fields) (make : String × α → Option β)
    (name : String) :
    get? (fields.filterMap fun field => (make field).map fun made => (field.1, made)) name =
      (get? fields name).bind fun value => make (name, value) := by
  cases held : get? fields name with
  | none =>
    rw [Option.bind_none, get?_eq_none_iff]
    intro named
    obtain ⟨entry, member, rfl⟩ := List.mem_map.mp named
    obtain ⟨field, within, isMade⟩ := List.mem_filterMap.mp member
    obtain ⟨_, _, rfl⟩ := Option.map_eq_some_iff.mp isMade
    exact get?_eq_none_iff.mp held (List.mem_map_of_mem within)
  | some value =>
    have member : (name, value) ∈ fields := mem_of_get? held
    rw [Option.bind_some]
    cases makes : make (name, value) with
    | some made => exact Fields.get?_filterMap held makes
    | none =>
      rw [get?_eq_none_iff]
      intro named
      obtain ⟨entry, within, same⟩ := List.mem_map.mp named
      obtain ⟨field, isField, isMade⟩ := List.mem_filterMap.mp within
      obtain ⟨made, makesIt, rfl⟩ := Option.map_eq_some_iff.mp isMade
      have only : field = (name, value) := ascending.eq_of_mem isField member same
      rw [only, makes] at makesIt
      cases makesIt

end Making

end Fields

namespace Engine

variable {engine : Engine} {context : Context}

section Objects

/-- What fields come to on a row; one that comes to nothing is left out. -/
def computed (engine : Engine) (context : Context) (fields : List (String × Term))
    (row : Fields Value) : Fields Value :=
  fields.filterMap fun field => (engine.read context row field.2).map fun value => (field.1, value)

theorem ascending_computed {fields : Fields Term} (ascending : fields.Ascending)
    (row : Fields Value) : (engine.computed context fields row).Ascending :=
  ascending.filterMap fun field => engine.read context row field.2

theorem get?_computed {fields : Fields Term} (ascending : fields.Ascending) (row : Fields Value)
    (name : String) :
    (engine.computed context fields row).get? name =
      (fields.get? name).bind (engine.read context row) :=
  ascending.get?_filterMap (fun field => engine.read context row field.2) name

/-- Whether an expression is not refused, whatever it comes to. -/
def Accepts (engine : Engine) (view : View) (term : Term) : Prop :=
  (engine.server.evaluate view term.data).isSome

theorem evaluateFields_of_accepts {row : Fields Value} {fields : List (String × Term)}
    (accepted : ∀ field ∈ fields, engine.Accepts ⟨row, context.bound⟩ field.2) :
    engine.server.evaluateFields ⟨row, context.bound⟩ (Term.dataOfFields fields) =
      some (engine.computed context fields row) := by
  induction fields with
  | nil => rfl
  | cons field rest inductionHypothesis =>
    obtain ⟨first, later⟩ := List.forall_mem_cons.mp accepted
    obtain ⟨found, evaluated⟩ := Option.isSome_iff_exists.mp first
    have read : engine.read context row field.2 = found := by
      rw [Engine.read, evaluated]
      rfl
    rw [Term.dataOfFields_eq, List.map_cons, ← Term.dataOfFields_eq, Server.evaluateFields, evaluated,
      inductionHypothesis later]
    change some ((found.map fun value => (field.1, value)).toList ++ engine.computed context rest row) = _
    rw [computed, computed, List.filterMap_cons, read]
    cases found <;> rfl

/-- An object without operators comes to what its fields come to. -/
theorem evaluate_document {row : Fields Value} {fields : List (String × Term)}
    (unmarked : ∀ field ∈ fields, isMarked field.1 = false)
    (accepted : ∀ field ∈ fields, engine.Accepts ⟨row, context.bound⟩ field.2) :
    engine.server.evaluate ⟨row, context.bound⟩ (Term.document fields).data =
      some (some (.map (engine.computed context fields row))) := by
  have plain : ((Term.dataOfFields fields).any fun field => isMarked field.1) = false := by
    rw [Term.dataOfFields_eq, List.any_map, List.any_eq_false]
    exact fun field member => by simp [unmarked field member]
  rw [Term.data, Server.evaluate, plain, if_neg Bool.false_ne_true, evaluateFields_of_accepts accepted]
  rfl

theorem accepts_column (view : View) (name : String) : engine.Accepts view (Term.column name) := by
  rw [Accepts, Server.evaluate_column]
  rfl

theorem accepts_constant (view : View) {value : Value} (inert : value.isInert) :
    engine.Accepts view (.constant value) := by
  rw [Accepts, Term.data_constant, Server.evaluate_inert value inert]
  rfl

/-- What most operators make of their arguments is left to the engine. -/
theorem apply_eq_operate {operator : String}
    (other : operator ∉ ["$mergeObjects", "$concatArrays", "$slice", "$cond"])
    (arguments : List (Option Value)) :
    engine.apply operator arguments = engine.operate operator arguments := by
  simp only [List.mem_cons, List.not_mem_nil, or_false, not_or] at other
  unfold apply
  split
  next => exact absurd rfl other.1
  next => exact absurd rfl other.2.1
  next => exact absurd rfl other.2.2.1
  next => exact absurd rfl other.2.2.2
  next => rfl

theorem data_call_ne_list (operator : String) (arguments : List Term) (items : List Value) :
    (Term.call operator arguments).data ≠ .list items := by
  rw [Term.data_call]
  nofun

/-- Most operators take a single argument as it is read. -/
theorem evaluate_apply (view : View) {operator : String} (marked : isMarked operator)
    (other : operator ∉ ["$literal", "$ifNull", "$switch", "$regexMatch"]) {argument : Term}
    (single : ∀ items, argument.data ≠ .list items) :
    engine.server.evaluate view (Term.apply operator argument).data =
      (engine.server.evaluate view argument.data).map fun read => engine.apply operator [read] := by
  simp only [List.mem_cons, List.not_mem_nil, or_false, not_or] at other
  rw [Term.data_apply, Server.evaluate_operator marked]
  unfold Server.apply
  split
  next => exact absurd rfl other.1
  next => exact absurd rfl other.2.1
  next => exact absurd rfl other.2.2.1
  next => exact absurd rfl other.2.2.2
  next found => exact absurd found (single _)
  next => cases engine.server.evaluate view argument.data <;> rfl

theorem accepts_apply (view : View) {operator : String} (marked : isMarked operator)
    (other : operator ∉ ["$literal", "$ifNull", "$switch", "$regexMatch"]) {argument : Term}
    (single : ∀ items, argument.data ≠ .list items) (accepted : engine.Accepts view argument) :
    engine.Accepts view (Term.apply operator argument) := by
  rw [Accepts, evaluate_apply view marked other single, Option.isSome_map]
  exact accepted

theorem accepts_call (view : View) {operator : String} (marked : isMarked operator)
    (unprotected : operator ≠ "$literal") (other : operator ≠ "$ifNull") {arguments : List Term}
    (each : ∀ argument ∈ arguments, engine.Accepts view argument) :
    engine.Accepts view (Term.call operator arguments) := by
  have evaluated : (engine.server.evaluateEach view (Term.dataOf arguments)).isSome := by
    induction arguments with
    | nil => rfl
    | cons argument rest inductionHypothesis =>
      obtain ⟨first, later⟩ := List.forall_mem_cons.mp each
      obtain ⟨found, isFound⟩ := Option.isSome_iff_exists.mp first
      obtain ⟨others, areFound⟩ := Option.isSome_iff_exists.mp (inductionHypothesis later)
      rw [Term.dataOf_cons, Server.evaluateEach_cons, isFound, areFound]
      rfl
  rw [Accepts, Server.evaluate_call marked unprotected other, Option.isSome_map]
  exact evaluated

end Objects

section Groups

/-- The key of the first row of a group. -/
def leading (key : Fields Value → Value) (group : List (Fields Value)) : Value :=
  (group.head?.map key).getD .null

theorem same_comm (engine : Engine) (value other : Value) :
    engine.same value other = engine.same other value :=
  Bool.eq_iff_iff.mpr ⟨engine.same_equivalence.symm, engine.same_equivalence.symm⟩

/-- Values that are the same are the same as any other. -/
theorem same_congr {value other : Value} (same : engine.same value other) (third : Value) :
    engine.same value third = engine.same other third :=
  Bool.eq_iff_iff.mpr ⟨engine.same_equivalence.trans (engine.same_equivalence.symm same),
    engine.same_equivalence.trans same⟩

/-- A group is all rows of its key, which is the key of its first row. -/
theorem mem_gathered {key : Fields Value → Value} {rows : List (Fields Value)}
    {entry : Value × List (Fields Value)} (member : entry ∈ engine.gathered key rows) :
    entry.2 = rows.filter (fun row => engine.same entry.1 (key row)) ∧ entry.2 ≠ [] ∧
      entry.1 = leading key entry.2 := by
  induction length : rows.length using Nat.strong_induction_on generalizing rows entry with
  | h bound inductionHypothesis =>
    subst length
    cases rows with
    | nil => cases member
    | cons row rest =>
      rw [gathered_cons] at member
      rcases List.mem_cons.mp member with rfl | later
      · have own : engine.same (key row) (key row) = true := engine.same_equivalence.refl _
        refine ⟨?_, List.cons_ne_nil _ _, rfl⟩
        simp [own]
      · have shorter : (rest.filter fun other => !engine.same (key row) (key other)).length <
            (row :: rest).length := Nat.lt_succ_of_le (List.length_filter_le _ _)
        obtain ⟨members, occupied, led⟩ := inductionHypothesis _ shorter later rfl
        obtain ⟨first, behind, cons⟩ := List.exists_cons_of_ne_nil occupied
        have first_mem : first ∈ rest.filter fun other => !engine.same (key row) (key other) := by
          apply List.mem_of_mem_filter (p := fun row => engine.same entry.1 (key row))
          rw [← members, cons]
          exact List.mem_cons_self
        have ofFirst : entry.1 = key first := by
          rw [led, cons]
          rfl
        have apart : engine.same entry.1 (key row) = false := by
          rw [ofFirst, same_comm]
          simpa using (List.mem_filter.mp first_mem).2
        refine ⟨?_, occupied, led⟩
        rw [List.filter_cons_of_neg (by simp [apart]), members, List.filter_filter]
        apply List.filter_congr
        intro other _
        by_cases shared : engine.same entry.1 (key other)
        · have apart' : engine.same (key row) (key other) = false := by
            rw [same_comm, ← same_congr shared, apart]
          rw [shared, apart']
          rfl
        · simp [shared]

/-- Rows are dealt by groups of those that have the same key. -/
theorem exists_groups (engine : Engine) (key : Fields Value → Value) (rows : List (Fields Value)) :
    ∃ groups, Grouped (fun row other => engine.same (key row) (key other)) rows groups ∧
      engine.deal (engine.gathered key rows) = groups.map fun group => (leading key group, group) := by
  have grouped : Grouped (fun row other => engine.same (key row) (key other)) rows
      ((engine.gathered key rows).map (·.2)) :=
    { whole := by
        intro group member row within
        obtain ⟨entry, gathers, rfl⟩ := List.mem_map.mp member
        obtain ⟨members, _, _⟩ := mem_gathered gathers
        rw [members] at within
        have shared : engine.same entry.1 (key row) = true := (List.mem_filter.mp within).2
        rw [members]
        exact List.filter_congr fun other _ => same_congr shared (key other)
      perm := by
        rw [← List.flatMap_def]
        exact engine.gathered_perm key rows
      occupied := by
        intro group member
        obtain ⟨entry, gathers, rfl⟩ := List.mem_map.mp member
        exact (mem_gathered gathers).2.1 }
  have dealt := engine.deal_perm (engine.gathered key rows)
  refine ⟨_, grouped.of_perm (dealt.map (·.2)).symm, ?_⟩
  rw [List.map_map]
  conv_lhs => rw [← List.map_id (engine.deal (engine.gathered key rows))]
  apply List.map_congr_left
  intro entry member
  have led := (mem_gathered (dealt.mem_iff.mp member)).2.2
  exact Prod.ext led rfl

end Groups

end Engine

namespace Staging

theorem get?_forColumns (columns : ColumnList) (term : String → Term) (name : String) :
    Fields.get? (forColumns columns term) name =
      if name ∈ names columns then some (term name) else none := by
  by_cases within : name ∈ names columns
  · rw [if_pos within, forColumns, Fields.get?_ofList_map term within]
  · rw [if_neg within]
    refine Fields.get?_ofList_eq_none_iff.mpr (List.forall_mem_map.mpr ?_)
    rintro column member rfl
    exact within member

/-- What a row holds in some columns. -/
def combination (columns : ColumnList) (row : Fields Value) : Fields Value :=
  row.filter fun entry => (names columns).contains entry.1

theorem get?_combination (columns : ColumnList) (row : Fields Value) (name : String) :
    (combination columns row).get? name = if name ∈ names columns then row.get? name else none := by
  rw [combination, Fields.get?_filter_names fun name => (names columns).contains name]
  simp

theorem ascending_combination {row : Fields Value} (ascending : row.Ascending) (columns : ColumnList) :
    (combination columns row).Ascending :=
  ascending.filter _

end Staging

namespace Engine

open Staging (names groupId combination)

variable {engine : Engine} {context : Context} {fields : Fields Term} {columns : ColumnList}

section Columns

/-- Whether two rows hold the same in some columns. -/
def sharesGroup (engine : Engine) (columns : ColumnList) (row other : Fields Value) : Bool :=
  engine.same (.map (combination columns row)) (.map (combination columns other))

/-- Without columns, all rows are one group. -/
theorem sharesGroup_of_names_eq_nil (listed : names columns = []) (row other : Fields Value) :
    engine.sharesGroup columns row other := by
  rw [sharesGroup, combination, combination, listed]
  simp only [List.contains_nil, List.filter_false]
  exact engine.same_equivalence.refl _

/-- The columns of a row come to what it holds in them. -/
theorem computed_forColumns (plain : ∀ name ∈ names columns, isFieldName name) {row : Fields Value}
    (ascending : row.Ascending) :
    engine.computed context (Staging.forColumns columns Term.column) row = combination columns row := by
  have sorted : Fields.Ascending (Staging.forColumns columns Term.column) := Fields.ascending_ofList _
  apply (ascending_computed sorted row).ext_get? (Staging.ascending_combination ascending columns)
  intro column
  rw [get?_computed sorted, Staging.get?_combination, Staging.get?_forColumns]
  by_cases within : column ∈ names columns
  · rw [if_pos within, if_pos within]
    exact read_column engine context (plain column within) row
  · rw [if_neg within, if_neg within]
    rfl

/-- Rows are gathered by what they hold in the columns, if there are any. -/
theorem groupKey_columns (gathers : fields.get? "_id" = some (groupId columns))
    (plain : ∀ name ∈ names columns, isFieldName name) {row : Fields Value}
    (ascending : row.Ascending) :
    engine.groupKey fields context row =
      if names columns = [] then .null else .map (combination columns row) := by
  rw [groupKey, gathers, groupId]
  cases listed : names columns with
  | nil => rfl
  | cons name others =>
    have each : ∀ field ∈ Staging.forColumns columns Term.column,
        field.1 ∈ names columns ∧ field.2 = Term.column field.1 := by
      intro field member
      obtain ⟨column, within, rfl⟩ := List.mem_map.mp (Fields.mem_ofList member)
      exact ⟨within, rfl⟩
    have evaluated : engine.server.evaluate ⟨row, context.bound⟩
        (Term.document (Staging.forColumns columns Term.column)).data =
          some (some (.map (engine.computed context (Staging.forColumns columns Term.column) row))) := by
      apply evaluate_document
      · exact fun field member => isMarked_of_isFieldName (plain _ (each field member).1)
      · intro field member
        rw [(each field member).2]
        exact accepts_column _ _
    rw [if_neg (List.cons_ne_nil _ _)]
    change (engine.read context row (.document (Staging.forColumns columns Term.column))).getD .null = _
    rw [Engine.read, evaluated, computed_forColumns plain ascending]
    rfl

theorem accumulated_apply {operator : String} (other : operator ≠ "$push") (argument : Term)
    (members : List (Fields Value)) :
    engine.accumulated context members (Term.apply operator argument) =
      engine.accumulate operator (members.map fun row => engine.read context row argument) := by
  rw [Term.apply]
  unfold accumulated
  split
  next same =>
    cases same
    exact absurd rfl other
  next same =>
    cases same
    rfl
  next different => exact absurd rfl (different operator argument)

/-- The row that a group becomes. -/
def gatheredRow (engine : Engine) (fields : Fields Term) (context : Context)
    (group : List (Fields Value)) : Fields Value :=
  engine.groupRow fields context (leading (engine.groupKey fields context) group, group)

theorem get?_gatheredRow (ascending : fields.Ascending) {name : String} (other : name ≠ "_id")
    (group : List (Fields Value)) :
    (engine.gatheredRow fields context group).get? name =
      (fields.get? name).bind (engine.accumulated context group) := by
  rw [gatheredRow, groupRow]
  refine (ascending.get?_filterMap (fun field => if field.1 = "_id" then _ else _) name).trans ?_
  simp only [if_neg other]

/-- The row of a group holds the key of its first row. -/
theorem get?_gatheredRow_identity (ascending : fields.Ascending) {key : Term}
    (gathers : fields.get? "_id" = some key) (group : List (Fields Value)) :
    (engine.gatheredRow fields context group).get? "_id" =
      some (leading (engine.groupKey fields context) group) := by
  rw [gatheredRow, groupRow]
  refine (ascending.get?_filterMap (fun field => if field.1 = "_id" then _ else _) "_id").trans ?_
  rw [gathers, Option.bind_some, if_pos rfl]

theorem ascending_gatheredRow (ascending : fields.Ascending) (group : List (Fields Value)) :
    (engine.gatheredRow fields context group).Ascending :=
  ascending.filterMap _

/-- Rows that are gathered become one row for each group of those that have the same key. -/
theorem run_group_keys (engine : Engine) (context : Context)
    (named : ∀ field ∈ fields, isFieldName field.1) (rows : List (Fields Value)) :
    ∃ groups, Grouped (fun row other =>
        engine.same (engine.groupKey fields context row) (engine.groupKey fields context other))
        rows groups ∧
      engine.run [.group fields] context rows = groups.map (engine.gatheredRow fields context) := by
  obtain ⟨groups, grouped, dealt⟩ := engine.exists_groups (engine.groupKey fields context) rows
  refine ⟨groups, grouped, ?_⟩
  rw [run_group, group, if_pos (List.all_eq_true.mpr named), dealt, List.map_map]
  rfl

theorem run_group_columns (engine : Engine) (context : Context)
    (named : ∀ field ∈ fields, isFieldName field.1)
    (gathers : fields.get? "_id" = some (groupId columns))
    (plain : ∀ name ∈ names columns, isFieldName name) {rows : List (Fields Value)}
    (ascending : ∀ row ∈ rows, row.Ascending) :
    ∃ groups, Grouped (engine.sharesGroup columns) rows groups ∧
      engine.run [.group fields] context rows = groups.map (engine.gatheredRow fields context) := by
  obtain ⟨groups, grouped, run⟩ := run_group_keys engine context named rows
  refine ⟨groups, grouped.congr ?_, run⟩
  intro row member other within
  rw [groupKey_columns gathers plain (ascending row member),
    groupKey_columns gathers plain (ascending other within)]
  by_cases together : names columns = []
  · rw [if_pos together, if_pos together, sharesGroup_of_names_eq_nil together]
    exact engine.same_equivalence.refl _
  · rw [if_neg together, if_neg together]
    rfl

end Columns

end Engine

end StepQuery
