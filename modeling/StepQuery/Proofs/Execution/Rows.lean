import StepQuery.Proofs.Execution.Temporary

/-!
What stages make of a row and of rows together.  Fields that are written or removed by name are found,
or not found, under that name alone; rows that are gathered without a key are all in one group, and an
array of rows that is unwound and put in the place of its row gives the rows again.
-/

namespace StepQuery

namespace Fields

section Lookup

variable {α : Type}

theorem get?_filter_names (chosen : String → Bool) (fields : Fields α) (name : String) :
    get? (fields.filter fun entry => chosen entry.1) name =
      if chosen name then get? fields name else none := by
  induction fields with
  | nil => split <;> rfl
  | cons entry rest inductionHypothesis =>
    by_cases same : entry.1 = name
    · subst same
      by_cases picked : chosen entry.1
      · simp [picked, get?_cons]
      · simpa [picked] using inductionHypothesis
    · by_cases picked : chosen entry.1
      · simpa [picked, get?_cons, same] using inductionHypothesis
      · simpa [picked, get?_cons, same] using inductionHypothesis

theorem get?_erase (name : String) (fields : Fields α) (other : String) :
    get? (erase name fields) other = if name = other then none else get? fields other := by
  rw [erase, get?_filter_names fun entry => entry != name]
  by_cases same : name = other
  · rw [if_pos same, if_neg (by simp [same])]
  · rw [if_neg same, if_pos (bne_iff_ne.mpr (Ne.symm same))]

theorem erase_of_absent {name : String} {fields : Fields α} (absent : get? fields name = none) :
    erase name fields = fields := by
  rw [erase, List.filter_eq_self]
  intro entry member
  have other : entry.1 ≠ name := fun same =>
    get?_eq_none_iff.mp absent (same ▸ List.mem_map_of_mem member)
  exact bne_iff_ne.mpr other

theorem erase_set (name : String) (value : α) (fields : Fields α) :
    erase name (set name value fields) = erase name fields := by
  induction fields with
  | nil => simp [set, erase]
  | cons entry rest inductionHypothesis =>
    rw [set_cons]
    by_cases same : name = entry.1
    · rw [if_pos same]
      simp [erase, same]
    · rw [if_neg same]
      by_cases below : name < entry.1
      · rw [if_pos below]
        simp [erase]
      · rw [if_neg below]
        simpa [erase, Ne.symm same] using inductionHypothesis

theorem get?_place (name : String) (value : Option α) (fields : Fields α) (other : String) :
    get? (place name value fields) other = if name = other then value else get? fields other := by
  cases value with
  | some value => exact get?_set name value fields other
  | none => exact get?_erase name fields other

end Lookup

section Overlay

variable {α : Type} {fields others : Fields α}

/-- Nothing is found below the first name. -/
theorem get?_of_below {name : String} (below : ∀ entry ∈ fields, name < entry.1) :
    get? fields name = none := by
  rw [get?_eq_none_iff]
  intro within
  obtain ⟨entry, member, rfl⟩ := List.mem_map.mp within
  exact lt_irrefl _ (below entry member)

/-- Of two maps the second counts where it holds something. -/
theorem get?_overlay (ascending : Ascending others) (fields : Fields α) (name : String) :
    get? (overlay fields others) name = (get? others name).or (get? fields name) := by
  have entries : ofList others = others := ascending.ofList_eq
  rw [overlay, get?_foldl_set, entries]

theorem Ascending.overlay (ascending : Ascending fields) (others : Fields α) :
    Ascending (fields.overlay others) :=
  List.foldlRecOn (motive := Ascending) others _ ascending
    fun _ made entry _ => made.set entry.1 entry.2

theorem Ascending.erase (ascending : Ascending fields) (name : String) :
    Ascending (fields.erase name) :=
  ascending.filter _

theorem Ascending.place (ascending : Ascending fields) (name : String) (value : Option α) :
    Ascending (fields.place name value) := by
  cases value with
  | some value => exact ascending.set name value
  | none => exact ascending.erase name

theorem nil_overlay (ascending : Ascending others) : overlay [] others = others :=
  ascending.ofList_eq

end Overlay

end Fields

/-- Terms that are made of items come to what each of them comes to. -/
theorem Server.evaluateEach_map {Row Item : Type} {server : Server Row} {row : Row} {items : List Item}
    {term : Item → Term} {value : Item → Option Value}
    (each : ∀ item ∈ items, server.evaluate row (term item).data = some (value item)) :
    server.evaluateEach row (Term.dataOf (items.map term)) = some (items.map value) := by
  induction items with
  | nil => rfl
  | cons item rest inductionHypothesis =>
    obtain ⟨first, later⟩ := List.forall_mem_cons.mp each
    rw [List.map_cons, Term.dataOf_cons, evaluateEach_cons, first, inductionHypothesis later]
    rfl

namespace Engine

variable {engine : Engine} {context : Context} {row : Fields Value}

section Columns

theorem change_write {name : String} (field : isFieldName name) (value : Option Value)
    (made : Fields Value) :
    engine.change row (.write value) (pathNames name) made = made.place name value := by
  rw [pathNames_of_isFieldName field]
  rfl

theorem change_remove {name : String} (field : isFieldName name) (made : Fields Value) :
    engine.change row .remove (pathNames name) made = made.erase name := by
  rw [pathNames_of_isFieldName field]
  rfl

theorem read_column_below {outer inner : String} (field : isFieldName outer)
    (below : isFieldName inner) {document : Fields Value} (held : row.get? outer = some (.map document)) :
    engine.read context row (Term.column (outer ++ "." ++ inner)) = document.get? inner := by
  have names := pathNames_below field below
  have path : isFieldPath (outer ++ "." ++ inner) := by
    rw [isFieldPath, names, List.all_cons, List.all_cons, List.all_nil, field, below]
    rfl
  rw [Engine.read, Server.evaluate_column]
  change View.reach ⟨row, context.bound⟩ (outer ++ "." ++ inner) = _
  rw [View.reach_of_unmarked (isMarked_of_isFieldPath path), names, Fields.reach, held]
  · rfl
  · exact List.cons_ne_nil _ _

/-- What is found in a row to which columns have been added, each read from the row as it was. -/
theorem get?_addFields {fields : Fields Term} (ascending : Fields.Ascending fields)
    (plain : ∀ field ∈ fields, isFieldName field.1) (name : String) :
    (engine.addFields fields context row).get? name =
      (fields.get? name).elim (row.get? name) (engine.read context row) := by
  suffices general : ∀ made : Fields Value,
      Fields.get? (fields.foldl (fun made field => engine.change row
        (.write (engine.read context row field.2)) (pathNames field.1) made) made) name =
        (fields.get? name).elim (made.get? name) (engine.read context row) from
    general row
  induction fields with
  | nil => exact fun made => rfl
  | cons field rest inductionHypothesis =>
    intro made
    obtain ⟨above, later⟩ := List.pairwise_cons.mp ascending
    obtain ⟨first, others⟩ := List.forall_mem_cons.mp plain
    rw [List.foldl_cons, inductionHypothesis later others, change_write first, Fields.get?_place,
      Fields.get?_cons]
    by_cases same : field.1 = name
    · subst same
      rw [Fields.get?_of_below above, if_pos rfl, if_pos rfl]
      rfl
    · rw [if_neg same, if_neg same]

theorem change_keep {name : String} (field : isFieldName name) (made : Fields Value) :
    engine.change row .keep (pathNames name) made = made.place name (row.get? name) := by
  rw [pathNames_of_isFieldName field]
  rfl

/-- What a projection shows under a name for which it has a term: a column as it is, what is computed,
or nothing more than there was. -/
def shown (engine : Engine) (context : Context) (row : Fields Value) (name : String) (term : Term)
    (before : Option Value) : Option Value :=
  match term.flag? with
  | some false => before
  | some true => row.get? name
  | none => engine.read context row term

theorem get?_take {field : String × Term} (plain : isFieldName field.1) (made : Fields Value)
    (name : String) : (engine.take context row made field).get? name =
      if field.1 = name then engine.shown context row name field.2 (made.get? name)
      else made.get? name := by
  unfold take shown
  cases flag : field.2.flag? with
  | none =>
    dsimp only
    rw [change_write plain, Fields.get?_place]
  | some keeps =>
    cases keeps with
    | false =>
      dsimp only
      rw [ite_self]
    | true =>
      dsimp only
      rw [change_keep plain, Fields.get?_place]
      split
      next same => rw [same]
      next => rfl

/-- What is found in a row that has been made of columns kept or computed, each from the row as it
was. -/
theorem get?_foldl_take {fields : Fields Term} (ascending : fields.Ascending)
    (plain : ∀ field ∈ fields, isFieldName field.1) (row made : Fields Value) (name : String) :
    Fields.get? (fields.foldl (engine.take context row) made) name =
      (fields.get? name).elim (made.get? name) fun term =>
        engine.shown context row name term (made.get? name) := by
  induction fields generalizing made with
  | nil => rfl
  | cons field rest inductionHypothesis =>
    obtain ⟨above, later⟩ := List.pairwise_cons.mp ascending
    obtain ⟨first, others⟩ := List.forall_mem_cons.mp plain
    rw [List.foldl_cons, inductionHypothesis later others, get?_take first, Fields.get?_cons]
    by_cases same : field.1 = name
    · subst same
      rw [Fields.get?_of_below above, if_pos rfl, if_pos rfl]
      rfl
    · rw [if_neg same, if_neg same]

/-- What is found in a row from which columns have been removed. -/
theorem get?_exclude {fields : Fields Term} (plain : ∀ field ∈ fields, isFieldName field.1)
    (row : Fields Value) (name : String) :
    (engine.exclude fields row).get? name =
      if name ∈ fields.names then none else row.get? name := by
  suffices general : ∀ made : Fields Value,
      Fields.get? (fields.foldl (fun made field =>
        engine.change row .remove (pathNames field.1) made) made) name =
        if name ∈ fields.names then none else made.get? name from
    general row
  induction fields with
  | nil => exact fun made => rfl
  | cons field rest inductionHypothesis =>
    intro made
    obtain ⟨first, others⟩ := List.forall_mem_cons.mp plain
    rw [List.foldl_cons, inductionHypothesis others, change_remove first, Fields.get?_erase]
    have cons : name ∈ Fields.names (field :: rest) ↔ name = field.1 ∨ name ∈ Fields.names rest :=
      List.mem_cons
    by_cases within : name ∈ Fields.names rest
    · rw [if_pos within, if_pos (cons.mpr (.inr within))]
    · rw [if_neg within]
      by_cases same : field.1 = name
      · rw [if_pos same, if_pos (cons.mpr (.inl same.symm))]
      · have kept : name ∉ Fields.names (field :: rest) :=
          fun removed => (cons.mp removed).elim (fun first => same first.symm) within
        rw [if_neg same, if_neg kept]

/-- What is kept of a row or computed; its identity need not be named to be kept. -/
theorem get?_select {fields : Fields Term} (ascending : fields.Ascending)
    (plain : ∀ field ∈ fields, isFieldName field.1) (name : String) :
    (engine.select fields context row).get? name =
      (fields.get? name).elim (if "_id" = name then row.get? "_id" else none) fun term =>
        engine.shown context row name term none := by
  rw [select, get?_foldl_take ascending plain]
  by_cases identity : "_id" = name
  · subst identity
    rw [if_pos rfl]
    cases asked : fields.get? "_id" with
    | none => exact (Fields.get?_place "_id" _ _ _).trans (if_pos rfl)
    | some term =>
      rw [Option.elim_some, Option.elim_some, Option.bind_some]
      unfold shown
      cases flag : term.flag? with
      | none => rfl
      | some keeps => cases keeps <;> rfl
  · have unnamed : Fields.get? (if ((fields.get? "_id").bind Term.flag? == some false) then []
        else Fields.place "_id" (row.get? "_id") []) name = none := by
      split
      · rfl
      · rw [Fields.get?_place, if_neg identity, Fields.get?_nil]
    rw [if_neg identity, unnamed]

/-- What a projection makes of a row all of whose columns it names. -/
theorem get?_project {fields : Fields Term} (ascending : fields.Ascending)
    (plain : ∀ field ∈ fields, isFieldName field.1)
    (covered : ∀ name, fields.get? name = none → row.get? name = none) (name : String) :
    (engine.project fields context row).get? name =
      (fields.get? name).bind fun term => engine.shown context row name term none := by
  unfold project
  split
  next removes =>
    rw [get?_exclude plain]
    cases asked : fields.get? name with
    | none =>
      rw [if_neg (Fields.get?_eq_none_iff.mp asked), covered name asked]
      rfl
    | some term =>
      have member : (name, term) ∈ fields := Fields.mem_of_get? asked
      have removed : term.flag? = some false := by simpa using List.all_eq_true.mp removes _ member
      have named : name ∈ fields.names := List.mem_map_of_mem member
      rw [if_pos named, Option.bind_some, shown, removed]
  next =>
    rw [get?_select ascending plain]
    cases asked : fields.get? name with
    | none =>
      rw [Option.elim_none, Option.bind_none, ite_eq_right_iff]
      rintro rfl
      exact covered _ asked
    | some term => rfl

theorem ascending_change (change : Change) (path : List String) {made : Fields Value}
    (ascending : made.Ascending) : (engine.change row change path made).Ascending := by
  match path with
  | [] => exact ascending
  | [name] =>
    cases change with
    | write value => exact ascending.place name value
    | keep => exact ascending.place name _
    | remove => exact ascending.erase name
  | name :: next :: below => exact ascending.place name _

theorem ascending_project (fields : List (String × Term)) (ascending : row.Ascending) :
    (engine.project fields context row).Ascending := by
  unfold project
  split
  · exact List.foldlRecOn (motive := Fields.Ascending) fields _ ascending
      fun _ made field _ => ascending_change _ _ made
  · refine List.foldlRecOn (motive := Fields.Ascending) fields _ ?_ ?_
    · split
      · exact List.Pairwise.nil
      · exact Fields.Ascending.place List.Pairwise.nil _ _
    · intro made sorted field _
      unfold take
      split
      · exact sorted
      · exact ascending_change _ _ sorted
      · exact ascending_change _ _ sorted

theorem run_project_single (engine : Engine) (context : Context) {name : String}
    (field : isFieldName name) (term : Term) (rows : List (Fields Value)) :
    engine.run [.project [(name, term)]] context rows =
      rows.map (engine.project [(name, term)] context) := by
  have path : ([(name, term)].all fun field => isFieldPath field.1) = true := by
    rw [List.all_cons, isFieldPath_of_isFieldName field]
    rfl
  rw [run_project, path]
  rfl

/-- A projection that only removes. -/
theorem project_of_removes {fields : List (String × Term)}
    (removes : ∀ field ∈ fields, field.2.flag? = some false) :
    engine.project fields context = engine.exclude fields := by
  funext row
  rw [project, if_pos]
  exact List.all_eq_true.mpr fun field member => by simp [removes field member]

end Columns

section Together

/-- Rows of the key of the first group go to it, and the others to the groups behind it. -/
theorem foldl_enter (key : Fields Value → Value) (held : Value) (members : List (Fields Value))
    (behind : List (Value × List (Fields Value))) (rows : List (Fields Value)) :
    rows.foldl (fun groups row => engine.enter (key row) row groups) ((held, members) :: behind) =
      (held, members ++ rows.filter fun row => engine.same held (key row)) ::
        (rows.filter fun row => !engine.same held (key row)).foldl
          (fun groups row => engine.enter (key row) row groups) behind := by
  induction rows generalizing members behind with
  | nil => simp
  | cons row rest inductionHypothesis =>
    rw [List.foldl_cons, enter]
    by_cases shared : engine.same held (key row)
    · simp [shared, inductionHypothesis]
    · simp [shared, inductionHypothesis]

/-- The first group has all rows of its key. -/
theorem gathered_cons (key : Fields Value → Value) (row : Fields Value) (rest : List (Fields Value)) :
    engine.gathered key (row :: rest) =
      (key row, row :: rest.filter fun other => engine.same (key row) (key other)) ::
        engine.gathered key (rest.filter fun other => !engine.same (key row) (key other)) :=
  foldl_enter key (key row) [row] [] rest

theorem gathered_const (key : Value) (rows : List (Fields Value)) :
    engine.gathered (fun _ => key) rows = if rows = [] then [] else [(key, rows)] := by
  have reflexive : engine.same key key = true := engine.same_equivalence.refl key
  cases rows with
  | nil => rfl
  | cons first rest =>
    rw [gathered_cons, if_neg (List.cons_ne_nil _ _)]
    simp [reflexive, gathered]

/-- Rows that are gathered by nothing are one group, unless there are none. -/
theorem run_group_together {fields : List (String × Term)}
    (named : ∀ field ∈ fields, isFieldName field.1)
    (together : Fields.get? fields "_id" = some Term.null) (rows : List (Fields Value)) :
    engine.run [.group fields] context rows =
      if rows = [] then [] else [engine.groupRow fields context (.null, rows)] := by
  have key : engine.groupKey fields context = fun _ => .null := by
    funext row
    rw [groupKey, together]
    rfl
  rw [run_group, group, if_pos (List.all_eq_true.mpr named), key, gathered_const]
  split
  · rw [List.perm_nil.mp (engine.deal_perm [])]
    rfl
  · rw [List.perm_singleton.mp (engine.deal_perm [(.null, rows)])]
    rfl

end Together

section Arrays

/-- A row that holds an array becomes a row for each item; if there is none, it may be kept without
the array. -/
theorem unwound_list {name : String} (keepsEmpty : Bool) {items : List Value}
    (held : row.get? name = some (.list items)) :
    engine.unwound ⟨[name], none, keepsEmpty⟩ row =
      if items = [] then (if keepsEmpty then [row.erase name] else [])
      else items.map fun item => row.set name item := by
  have reached : row.reach [name] = some (.list items) := held
  unfold unwound
  dsimp only
  rw [reached]
  cases items with
  | nil => rfl
  | cons item rest =>
    rw [if_neg (List.cons_ne_nil _ _)]
    change (item :: rest).zipIdx.map ((fun item => row.set name item) ∘ Prod.fst) = _
    rw [← List.map_map, List.zipIdx_map_fst]

theorem concatenate?_lists (lists : List (List (Fields Value))) :
    Operator.concatenate? (lists.map fun rows => some (.list (rows.map .map))) =
      some (lists.flatten.map .map) := by
  induction lists with
  | nil => rfl
  | cons rows rest inductionHypothesis =>
    rw [List.map_cons, Operator.concatenate?, inductionHypothesis, List.flatten_cons, List.map_append]
    rfl

/-- Columns of arrays, put together in their order. -/
theorem read_concatArrays {entries : List (String × List (Fields Value))}
    (each : ∀ entry ∈ entries, isFieldName entry.1 ∧
      row.get? entry.1 = some (.list (entry.2.map .map))) :
    engine.read context row (Term.call "$concatArrays" (entries.map fun entry => Term.column entry.1)) =
      some (.list ((entries.flatMap (·.2)).map .map)) := by
  have evaluated : engine.server.evaluateEach ⟨row, context.bound⟩
      (Term.dataOf (entries.map fun entry => Term.column entry.1)) =
        some ((entries.map (·.2)).map fun rows => some (.list (rows.map .map))) := by
    rw [List.map_map]
    refine Server.evaluateEach_map fun entry member => ?_
    obtain ⟨field, found⟩ := each entry member
    rw [Server.evaluate_column]
    exact congrArg some ((View.reach_of_isFieldName field _).trans found)
  rw [Engine.read, Server.evaluate_call (by decide) (by decide) (by decide), evaluated]
  change some (((Operator.concatenate? _).map Value.list).getD .null) = _
  rw [concatenate?_lists, List.flatMap_def]
  rfl

theorem replaceRoot_column {name : String} (field : isFieldName name) {document : Fields Value}
    (held : row.get? name = some (.map document)) :
    engine.replaceRoot (Term.column name) context row = some document := by
  rw [replaceRoot_eq_some, read_column engine context field, held]

/-- What stages that put the items of an array in the place of their row make of rows that hold rows
in it: these rows, in their order. -/
theorem run_restored {Item : Type} {name : String} (field : isFieldName name) {items : List Item}
    {make : Item → Fields Value} (held : Item → List (Fields Value))
    (holds : ∀ item ∈ items, (make item).get? name = some (.list ((held item).map .map))) :
    engine.run [.unwind (Term.column name), .replaceRoot (Term.column name)] context
        (items.map make) = items.flatMap held := by
  have one : ∀ item ∈ items, (engine.unwound ⟨[name], none, false⟩ (make item)).filterMap
      (engine.replaceRoot (Term.column name) context) = held item := by
    intro item member
    have replaced : engine.replaceRoot (Term.column name) context ∘
        (fun value => (make item).set name value) ∘ Value.map = some := by
      funext document
      have set : ((make item).set name (.map document)).get? name = some (.map document) :=
        Fields.get?_set_self name _ (make item)
      exact replaceRoot_column field set
    rw [unwound_list false (holds item member)]
    cases given : held item with
    | nil => rfl
    | cons document documents =>
      rw [List.map_cons, if_neg (List.cons_ne_nil _ _), ← List.map_cons, List.map_map,
        List.filterMap_map, replaced, List.filterMap_some]
  rw [run_cons, run_unwind engine context _ _ (Unwinding.ofValue?_column field), run_replaceRoot,
    List.filterMap_flatMap, List.flatMap_map]
  exact List.flatMap_congr one

end Arrays

end Engine

end StepQuery
