import StepQuery.Proofs.Execution.Tidiness
import StepQuery.Proofs.Execution.Variables

/-!
Joining the rows of another query.  A lookup binds the columns of the row at hand to variables and keeps
those rows of the other query that are equal to them in the columns across; these rows are taken out
of their array again, each is merged with the row at hand, and the array goes.  What comes out are the
rows at hand, each beside every row that agrees with it.
-/

namespace StepQuery

namespace Engine

/-- What is documented of the operators that joins compare with: two values, neither null nor made of
others, are equal if they are the same, and conditions hold together if each of them does. -/
structure Compares (engine : Engine) : Prop where
  equal : ∀ first second : Value, first.isScalar → second.isScalar → first ≠ .null →
    second ≠ .null →
      engine.operate "$eq" [some first, some second] = some (.bool (engine.same first second))
  every : ∀ conditions,
    engine.operate "$and" conditions = some (.bool (conditions.all Value.truth))

/-- Whether two rows hold the same in all pairs of columns. -/
def agree (engine : Engine) (pairs : List (String × String)) (left right : Fields Value) : Bool :=
  pairs.all fun pair =>
    match left.get? pair.1, right.get? pair.2 with
    | some value, some other => engine.same value other
    | _, _ => false

/-- A row beside each row found that agrees with it, its own fields before those of the other.  Without
such a row it is kept as it is, or dropped. -/
def joined (engine : Engine) (keepsUnmatched : Bool) (pairs : List (String × String))
    (found : List (Fields Value)) (left : Fields Value) : List (Fields Value) :=
  let matching := found.filter (engine.agree pairs left)
  if matching = [] then (if keepsUnmatched then [left] else [])
  else matching.map fun right => right.overlay left

end Engine

namespace Staging

/-- A flat document that holds values to be compared in some columns, and not the field in which a join
keeps what it finds. -/
structure Joinable (columns : List String) (row : Fields Value) : Prop where
  ascending : row.Ascending
  flat : ∀ entry ∈ row, isFieldName entry.1
  free : row.get? joinField = none
  held : ∀ column ∈ columns, ∃ value, row.get? column = some value ∧ value.isScalar ∧ value ≠ .null

theorem Joinable.isFieldName {columns : List String} {row : Fields Value}
    (joinable : Joinable columns row) {column : String} (member : column ∈ columns) :
    isFieldName column := by
  obtain ⟨value, found, _⟩ := joinable.held column member
  exact joinable.flat (column, value) (Fields.mem_of_get? found)

section Finding

variable {engine : Engine} {context : Context} {pairs : List (String × String)}

/-- The variables of a join. -/
def joinVariables (pairs : List (String × String)) : List String := (joinPairs pairs).map (·.1)

/-- The columns of the row at hand, bound to the variables. -/
def joinBindings (pairs : List (String × String)) : List (String × Term) :=
  Fields.ofList ((joinPairs pairs).map fun entry => (entry.1, Term.column entry.2.1))

/-- Where a join runs the other query for a row at hand. -/
def joinContext (engine : Engine) (context : Context) (pairs : List (String × String))
    (left : Fields Value) : Context :=
  ⟨context.collections, engine.bind context left (joinBindings pairs)⟩

/-- The equality that a row found has to pass for a pair. -/
def joinEquality (entry : String × String × String) : Term :=
  Term.call "$eq" [Term.column entry.2.2, Term.text ("$$" ++ entry.1)]

theorem columns_joinPairs (pairs : List (String × String)) : (joinPairs pairs).map (·.2) = pairs := by
  rw [joinPairs, List.map_map]
  exact List.zipIdx_map_fst 0 pairs

theorem mem_of_mem_joinPairs {entry : String × String × String} (member : entry ∈ joinPairs pairs) :
    entry.2 ∈ pairs := by
  rw [← columns_joinPairs pairs]
  exact List.mem_map_of_mem member

theorem joinVariable_injective : Function.Injective joinVariable := numbered_injective "vqb_"

theorem nodup_joinVariables (pairs : List (String × String)) : (joinVariables pairs).Nodup := by
  have numbers : joinVariables pairs = (pairs.zipIdx.map (·.2)).map joinVariable := by
    rw [joinVariables, joinPairs, List.map_map, List.map_map]
    rfl
  rw [numbers, List.zipIdx_map_snd, ← List.range_eq_range']
  exact List.nodup_range.map joinVariable_injective

theorem variable_of_mem {entry : String × String × String} (member : entry ∈ joinPairs pairs) :
    isFieldName entry.1 ∧ entry.1 ≠ "ROOT" := by
  obtain ⟨numbered, _, rfl⟩ := List.mem_map.mp member
  refine ⟨isFieldName_numbered (by decide) _, fun same => ?_⟩
  have characters : ("vqb_" ++ Decimal.integerText numbered.2).toList = "ROOT".toList :=
    congrArg String.toList same
  rw [toList_numbered] at characters
  simp at characters

theorem names_joinBindings {name : String} :
    name ∈ Fields.names (joinBindings pairs) ↔ name ∈ joinVariables pairs := by
  rw [joinBindings, Fields.mem_names_ofList, List.map_map]
  rfl

/-- Inside a join a variable is what its column holds in the row at hand. -/
theorem get?_bind_variable {left : Fields Value} {entry : String × String × String}
    (member : entry ∈ joinPairs pairs) (field : isFieldName entry.2.1) :
    (joinContext engine context pairs left).bound.get? entry.1 = left.get? entry.2.1 := by
  have names : (((joinPairs pairs).map fun entry => (entry.1, Term.column entry.2.1)).map
      (·.1)).Nodup := by
    rw [List.map_map]
    exact nodup_joinVariables pairs
  have found : Fields.get? (joinBindings pairs) entry.1 = some (Term.column entry.2.1) :=
    Fields.get?_ofList_of_nodup names (List.mem_map.mpr ⟨entry, member, rfl⟩)
  rw [joinContext, Engine.get?_bind, found]
  exact Engine.read_column engine context field left

/-- The variables of a join are hidden from whoever does not mention them. -/
theorem alike_joinContext (engine : Engine) (context : Context) (left : Fields Value) :
    (joinContext engine context pairs left).Alike (joinVariables pairs) context where
  collections := rfl
  bound name hidden := by
    have unbound : Fields.get? (joinBindings pairs) name = none := by
      rw [Fields.get?_eq_none_iff, names_joinBindings]
      exact hidden
    rw [joinContext, Engine.get?_bind, unbound]
    rfl

/-- The condition of a join on a row found, before its operators are known. -/
theorem read_joinCondition {left right : Fields Value}
    (lefts : ∀ pair ∈ pairs, isFieldName pair.1) (rights : ∀ pair ∈ pairs, isFieldName pair.2) :
    engine.read (joinContext engine context pairs left) right
        (Term.call "$and" ((joinPairs pairs).map joinEquality)) =
      engine.operate "$and" (pairs.map fun pair =>
        engine.operate "$eq" [right.get? pair.2, left.get? pair.1]) := by
  have each : ∀ entry ∈ joinPairs pairs,
      engine.server.evaluate ⟨right, (joinContext engine context pairs left).bound⟩
        (joinEquality entry).data =
          some (engine.operate "$eq" [right.get? entry.2.2, left.get? entry.2.1]) := by
    intro entry member
    obtain ⟨field, other⟩ := variable_of_mem member
    have within := mem_of_mem_joinPairs member
    have bound : Term.text ("$$" ++ entry.1) = Term.column (Term.path entry.1) := by
      rw [Term.column, Term.path, Term.path, ← String.append_assoc]
      rfl
    rw [joinEquality, bound, Server.evaluate_pair (by decide) (by decide) (by decide),
      Server.evaluate_column]
    change some (engine.operate "$eq" [View.reach _ entry.2.2, View.reach _ (Term.path entry.1)]) = _
    rw [View.reach_of_isFieldName (rights _ within), View.reach_variable field other,
      get?_bind_variable member (lefts _ within)]
  have across : ((joinPairs pairs).map fun entry =>
      engine.operate "$eq" [right.get? entry.2.2, left.get? entry.2.1]) =
        pairs.map fun pair => engine.operate "$eq" [right.get? pair.2, left.get? pair.1] := by
    conv_rhs => rw [← columns_joinPairs pairs, List.map_map]
    rfl
  rw [Engine.read, Server.evaluate_call (by decide) (by decide) (by decide),
    Server.evaluateEach_map each, across]
  rfl

/-- Of two rows that can be compared the condition of a join is whether they agree. -/
theorem satisfies_joinCondition (compares : engine.Compares) {left right : Fields Value}
    (ofLeft : Joinable (pairs.map (·.1)) left) (ofRight : Joinable (pairs.map (·.2)) right) :
    engine.meaning.satisfies (joinContext engine context pairs left)
        (.document [("$expr", Term.call "$and" ((joinPairs pairs).map joinEquality))]) right =
      engine.agree pairs left right := by
  have lefts : ∀ pair ∈ pairs, isFieldName pair.1 :=
    fun pair member => ofLeft.isFieldName (List.mem_map_of_mem member)
  have rights : ∀ pair ∈ pairs, isFieldName pair.2 :=
    fun pair member => ofRight.isFieldName (List.mem_map_of_mem member)
  have each : ∀ pair ∈ pairs,
      Value.truth (engine.operate "$eq" [right.get? pair.2, left.get? pair.1]) =
        match left.get? pair.1, right.get? pair.2 with
        | some value, some other => engine.same value other
        | _, _ => false := by
    intro pair member
    obtain ⟨value, found, scalar, present⟩ := ofLeft.held _ (List.mem_map_of_mem member)
    obtain ⟨other, found', scalar', present'⟩ := ofRight.held _ (List.mem_map_of_mem member)
    rw [found, found', compares.equal other value scalar' scalar present' present]
    exact Bool.eq_iff_iff.mpr ⟨engine.same_equivalence.symm, engine.same_equivalence.symm⟩
  change Value.truth (engine.read _ right (Term.call "$and" ((joinPairs pairs).map joinEquality))) = _
  rw [read_joinCondition lefts rights, compares.every]
  change (pairs.map _).all Value.truth = _
  rw [List.all_map, Engine.agree, Bool.eq_iff_iff, List.all_eq_true, List.all_eq_true]
  exact forall₂_congr fun pair member => Bool.eq_iff_iff.mp (each pair member)

/-- What a join finds for a row are the rows of the other query that agree with it. -/
theorem run_found (compares : engine.Compares) {query : Query} {left : Fields Value}
    (ofLeft : Joinable (pairs.map (·.1)) left)
    (ofRight : ∀ right ∈ engine.rows query (joinContext engine context pairs left),
      Joinable (pairs.map (·.2)) right) :
    engine.run (query.stages ++
        [.matching [("$expr", Term.call "$and" ((joinPairs pairs).map joinEquality))]])
        (joinContext engine context pairs left) (context.collections query.domain) =
      (engine.rows query (joinContext engine context pairs left)).filter
        (engine.agree pairs left) := by
  rw [Engine.run_append, Engine.run_matching]
  exact List.filter_congr fun right member =>
    satisfies_joinCondition compares ofLeft (ofRight right member)

/-- A query that mentions no variable of a join has the rows inside it that it has outside. -/
theorem rows_joinContext (heedful : engine.Heedful) {query : Query}
    (unmentioned : Stage.allAvoid (joinVariables pairs) query.stages) (left : Fields Value) :
    engine.rows query (joinContext engine context pairs left) = engine.rows query context :=
  Engine.run_congr heedful query.stages unmentioned (alike_joinContext engine context left) _

end Finding

section Merging

variable {engine : Engine} {context : Context}

/-- What a join found beside the row at hand, whose own fields count. -/
def joinMerge : Term := Term.call "$mergeObjects" [Term.column joinField, Term.root]

theorem replaceRoot_joinMerge {row found : Fields Value} (ascending : found.Ascending)
    (merges : Operator.mergeable? (row.get? joinField) = some found) :
    engine.replaceRoot joinMerge context row = some (found.overlay row) := by
  have root : engine.server.evaluate ⟨row, context.bound⟩ Term.root.data = some (some (.map row)) :=
    congrArg some (Fields.get?_set_self "ROOT" (Value.map row) context.bound)
  have read : engine.read context row joinMerge =
      (Operator.mergeOnto [] [row.get? joinField, some (.map row)]).map .map :=
    Engine.read_operator_column (by decide) (by decide) (by decide) (by decide) row Term.root root
  rw [Engine.replaceRoot_eq_some, read, Operator.mergeOnto, merges]
  change some (Value.map ((Fields.overlay [] found).overlay row)) = _
  rw [Fields.nil_overlay ascending]

/-- A row found beside the row at hand, once the field that held it is gone. -/
theorem erase_overlay_joinField {left right : Fields Value} (ofLeft : left.Ascending)
    (ofRight : right.Ascending) (free : left.get? joinField = none) (free' : right.get? joinField = none)
    (held found : Value) :
    (right.overlay ((left.set joinField held).set joinField found)).erase joinField =
      right.overlay left := by
  have ascending := (ofLeft.set joinField held).set joinField found
  refine ((ofRight.overlay _).erase joinField).ext_get? (ofRight.overlay left) fun name => ?_
  rw [Fields.get?_erase, Fields.get?_overlay ascending, Fields.get?_overlay ofLeft, Fields.get?_set,
    Fields.get?_set]
  split
  next same => rw [← same, free, free', Option.or_none]
  next => rfl

theorem erase_set_joinField {left : Fields Value} (ascending : left.Ascending)
    (free : left.get? joinField = none) (held : Value) :
    ((left.set joinField held).erase joinField) = left := by
  refine ((ascending.set joinField held).erase joinField).ext_get? ascending fun name => ?_
  rw [Fields.get?_erase, Fields.get?_set]
  split
  next same => rw [← same, free]
  next => rfl

/-- What a row becomes that holds what a join found for it. -/
def mergedRows (engine : Engine) (context : Context) (keepsUnmatched : Bool) (row : Fields Value) :
    List (Fields Value) :=
  ((engine.unwound ⟨[joinField], none, keepsUnmatched⟩ row).filterMap
    (engine.replaceRoot joinMerge context)).map (·.erase joinField)

theorem mergedRows_eq {left : Fields Value} (ascending : left.Ascending)
    (free : left.get? joinField = none) (keepsUnmatched : Bool) {matching : List (Fields Value)}
    (each : ∀ right ∈ matching, right.Ascending ∧ right.get? joinField = none) :
    mergedRows engine context keepsUnmatched
        (left.set joinField (.list (matching.map .map))) =
      if matching = [] then (if keepsUnmatched then [left] else [])
      else matching.map fun right => right.overlay left := by
  rw [mergedRows, Engine.unwound_list keepsUnmatched (Fields.get?_set_self _ _ _)]
  by_cases none : matching = []
  · rw [none, List.map_nil, if_pos rfl, if_pos rfl]
    cases keepsUnmatched with
    | false => rfl
    | true =>
      have missing : Operator.mergeable? (left.get? joinField) = some [] := by
        rw [free]
        rfl
      rw [if_pos rfl, if_pos rfl, erase_set_joinField ascending free, List.filterMap_cons,
        replaceRoot_joinMerge List.Pairwise.nil missing, Fields.nil_overlay ascending,
        List.filterMap_nil, List.map_singleton, Fields.erase_of_absent free]
  · have some : matching.map Value.map ≠ [] := fun empty => none (List.map_eq_nil_iff.mp empty)
    rw [if_neg some, if_neg none, List.map_map, List.filterMap_map, List.map_filterMap]
    generalize Value.list (matching.map .map) = held
    rw [← List.filterMap_eq_map]
    refine List.filterMap_congr fun (right : Fields Value) member => ?_
    obtain ⟨ofRight, free'⟩ := each right member
    have merges : Operator.mergeable?
        (((left.set joinField held).set joinField (.map right)).get? joinField) =
          Option.some right := by
      rw [Fields.get?_set_self]
      rfl
    change (engine.replaceRoot joinMerge context
      ((left.set joinField held).set joinField (.map right))).map _ = Option.some (right.overlay left)
    rw [replaceRoot_joinMerge ofRight merges, Option.map_some,
      erase_overlay_joinField ascending ofRight free free']

end Merging

section Join

variable {engine : Engine} {context : Context} {pairs : List (String × String)}

theorem run_project_joinField (rows : List (Fields Value)) :
    engine.run [.project [(joinField, Term.int 0)]] context rows =
      rows.map (·.erase joinField) := by
  have field : isFieldName joinField := by decide
  have removed : engine.exclude [(joinField, Term.int 0)] = fun row => row.erase joinField := by
    funext row
    change engine.change row .remove (pathNames joinField) row = _
    exact Engine.change_remove field row
  rw [Engine.run_project_single engine context field,
    Engine.project_of_removes (List.forall_mem_singleton.mpr rfl), removed]

theorem join_eq_ok {type : String} {query : Query} {stages : List Stage}
    (returned : join type pairs query = .ok stages) : ∃ argument,
      Unwinding.ofValue? argument.data = some ⟨[joinField], none, type != "inner"⟩ ∧
      stages = [.lookup query.domain (some (joinBindings pairs)) (query.stages ++
          [.matching [("$expr", Term.call "$and" ((joinPairs pairs).map joinEquality))]]) joinField,
        .unwind argument, .replaceRoot joinMerge, .project [(joinField, Term.int 0)]] := by
  obtain ⟨unwind, found, returned⟩ := Attempt.bind_eq_ok.mp returned
  cases returned
  obtain ⟨argument, rfl, read⟩ := exists_of_joinUnwind found
  exact ⟨argument, read, rfl⟩

/-- What the stages of a join make of rows. -/
theorem run_join (compares : engine.Compares) {type : String} {query : Query}
    {rows : List (Fields Value)} (ofLeft : ∀ left ∈ rows, Joinable (pairs.map (·.1)) left)
    (ofRight : ∀ left ∈ rows, ∀ right ∈ engine.rows query (joinContext engine context pairs left),
      Joinable (pairs.map (·.2)) right)
    {stages : List Stage} (returned : join type pairs query = .ok stages) :
    engine.run stages context rows = rows.flatMap fun left =>
      engine.joined (type != "inner") pairs
        (engine.rows query (joinContext engine context pairs left)) left := by
  obtain ⟨argument, unwinds, rfl⟩ := join_eq_ok returned
  rw [Engine.run_cons, Engine.run_lookup, Engine.run_cons,
    Engine.run_unwind engine context _ argument unwinds, Engine.run_cons, Engine.run_replaceRoot,
    run_project_joinField, List.flatMap_map, List.filterMap_flatMap, List.map_flatMap]
  refine List.flatMap_congr fun left member => ?_
  have mine := ofLeft left member
  have each : ∀ right ∈ (engine.rows query (joinContext engine context pairs left)).filter
      (engine.agree pairs left), right.Ascending ∧ right.get? joinField = none := by
    intro right within
    have other := ofRight left member right (List.mem_of_mem_filter within)
    exact ⟨other.ascending, other.free⟩
  have found := run_found compares mine (ofRight left member)
  rw [Option.getD_some]
  change mergedRows engine context _ (left.set joinField (.list ((engine.run _
    (joinContext engine context pairs left) _).map .map))) = _
  rw [found]
  exact mergedRows_eq mine.ascending mine.free (type != "inner") each

theorem join_accepted_iff (type : String) (query : Query) :
    (∃ stages, join type pairs query = .ok stages) ↔ type ∈ ["inner", "left", "left outer"] := by
  constructor
  · rintro ⟨stages, returned⟩
    obtain ⟨unwind, found, _⟩ := Attempt.bind_eq_ok.mp returned
    unfold joinUnwind at found
    split at found
    · decide
    · decide
    · decide
    · cases found
  · intro known
    simp only [List.mem_cons, List.not_mem_nil, or_false] at known
    rcases known with rfl | rfl | rfl <;> exact ⟨_, rfl⟩

end Join

/-- The stages of a join give every row at hand, in their order, beside every row of the other query
that agrees with it on all pairs, in their order, with the fields of both, of which those of the row at
hand count.  A row that agrees with none is kept once and as it is, or dropped by an inner join.  Which
rows the other query has may depend on the row at hand, for it can mention the variables of the join;
a query that does not has the rows that it has on its own. -/
theorem join_rows (target : Target) {right : Reference} {query : Query}
    (accepted : sourceQuery target right = .ok query) {pairs : List (String × String)}
    (given : pairs ≠ []) (type : String) :
    ((∃ stages, stepStages target (.join right type (some pairs)) = .ok stages) ↔
      type ∈ ["inner", "left", "left outer"]) ∧
    ∀ stages, stepStages target (.join right type (some pairs)) = .ok stages →
      ∀ (engine : Engine) (context : Context) (rows : List (Fields Value)), engine.Compares →
        (∀ left ∈ rows, Joinable (pairs.map (·.1)) left) →
        ((∀ left ∈ rows, ∀ right ∈ engine.rows query (joinContext engine context pairs left),
            Joinable (pairs.map (·.2)) right) →
          engine.run stages context rows = rows.flatMap fun left =>
            engine.joined (type != "inner") pairs
              (engine.rows query (joinContext engine context pairs left)) left) ∧
        (engine.Heedful → Stage.allAvoid (joinVariables pairs) query.stages →
          (∀ right ∈ engine.rows query context, Joinable (pairs.map (·.2)) right) →
          engine.run stages context rows =
            rows.flatMap (engine.joined (type != "inner") pairs (engine.rows query context))) := by
  have staged : stepStages target (.join right type (some pairs)) = join type pairs query := by
    cases pairs with
    | nil => exact absurd rfl given
    | cons pair rest =>
      rw [stepStages, accepted]
      rfl
  rw [staged]
  refine ⟨join_accepted_iff type query, fun stages returned engine context rows compares ofLeft =>
    ⟨fun ofRight => run_join compares ofLeft ofRight returned, fun heedful unmentioned ofRight => ?_⟩⟩
  have same : ∀ left : Fields Value,
      engine.rows query (joinContext engine context pairs left) = engine.rows query context :=
    rows_joinContext heedful unmentioned
  have inside : ∀ left ∈ rows,
      ∀ right ∈ engine.rows query (joinContext engine context pairs left),
        Joinable (pairs.map (·.2)) right := by
    intro left _ right member
    rw [same left] at member
    exact ofRight right member
  rw [run_join compares ofLeft inside returned]
  simp only [same]

-- A join inside the other query binds the variable that it shares with the join around it anew.
example : ∃ query, sourceQuery ⟨.usual, false⟩ (.inline [.domain "customers",
      .join (.named "cities") "inner" (some [("city", "id")])]) = .ok query ∧
    Stage.allAvoid (joinVariables [("customer", "id")]) query.stages := ⟨_, rfl, by decide⟩

/-- An engine for rows of small whole numbers in which these are the same if they compare equal. -/
def comparing : Engine where
  __ := Engine.whole
  same first second := Engine.wholeOf first == Engine.wholeOf second
  same_equivalence := ⟨fun _ => beq_self_eq_true _,
    fun same => beq_iff_eq.mpr (beq_iff_eq.mp same).symm,
    fun same other => beq_iff_eq.mpr ((beq_iff_eq.mp same).trans (beq_iff_eq.mp other))⟩

theorem compares_comparing : comparing.Compares where
  equal _ _ _ _ _ _ := rfl
  every _ := rfl

theorem heedful_comparing : comparing.Heedful := fun _ _ _ _ _ _ => rfl

/-- Two orders, the second of a customer that there is not. -/
def orders : List (Fields Value) :=
  [[("customer", .int 2), ("price", .int 9)], [("customer", .int 3), ("price", .int 1)]]

theorem join_rows_customers : ∃ stages,
    stepStages ⟨.usual, false⟩
        (.join (.inline [.domain "customers"]) "left" (some [("customer", "id")])) = .ok stages ∧
      comparing.run stages Pipeline.shop orders =
        [[("city", .int 4), ("customer", .int 2), ("id", .int 2), ("price", .int 9)],
          [("customer", .int 3), ("price", .int 1)]] := by
  have accepted : sourceQuery ⟨.usual, false⟩ (.inline [.domain "customers"]) =
      .ok ⟨"customers", []⟩ := rfl
  obtain ⟨stages, staged⟩ := (join_rows ⟨.usual, false⟩ accepted
    (List.cons_ne_nil ("customer", "id") []) "left").1.mpr (by decide)
  have ofLeft : ∀ left ∈ orders, Joinable ["customer"] left := by
    refine List.forall_mem_cons.mpr ⟨?_, List.forall_mem_singleton.mpr ?_⟩
    · exact ⟨by decide, by decide, rfl, List.forall_mem_singleton.mpr ⟨.int 2, rfl, rfl, nofun⟩⟩
    · exact ⟨by decide, by decide, rfl, List.forall_mem_singleton.mpr ⟨.int 3, rfl, rfl, nofun⟩⟩
  have ofRight : ∀ right ∈ comparing.rows ⟨"customers", []⟩ Pipeline.shop,
      Joinable ["id"] right := by
    refine List.forall_mem_cons.mpr ⟨?_, List.forall_mem_singleton.mpr ?_⟩
    · exact ⟨by decide, by decide, rfl, List.forall_mem_singleton.mpr ⟨.int 1, rfl, rfl, nofun⟩⟩
    · exact ⟨by decide, by decide, rfl, List.forall_mem_singleton.mpr ⟨.int 2, rfl, rfl, nofun⟩⟩
  have run := ((join_rows ⟨.usual, false⟩ accepted (List.cons_ne_nil _ _) "left").2 stages staged
    comparing Pipeline.shop orders compares_comparing ofLeft).2 heedful_comparing rfl ofRight
  exact ⟨stages, staged, run⟩

end Staging

end StepQuery
