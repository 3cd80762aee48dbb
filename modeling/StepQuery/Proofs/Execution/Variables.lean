import StepQuery.Proofs.Execution.Rows

/-!
Which variables are read.  A path begins at a variable if it is marked itself, so that its text has two
marks.  Expressions, match documents and stages that mention none of some hidden variables come to the
same whatever these are bound to.  The variables that a lookup binds are hidden no longer in its stages:
there they are the same again, because what they are bound to is.
-/

namespace StepQuery

/-- The variable that a marked path begins at. -/
def startingVariable (path : String) : Option String :=
  match path.toList with
  | '$' :: name => (pathNames (String.ofList name)).head?
  | _ => none

/-- Whether a path begins at none of the hidden variables. -/
def avoidsPath (hidden : List String) (path : String) : Bool :=
  (startingVariable path).all fun name => !hidden.contains name

namespace Value

mutual

/-- Whether no text of a value, read as a path, and no name in it begins at a hidden variable. -/
def avoids (hidden : List String) : Value → Bool
  | .text content =>
    match content.toList with
    | '$' :: path => avoidsPath hidden (String.ofList path)
    | _ => true
  | .list items => allAvoid hidden items
  | .map fields => fieldsAvoid hidden fields
  | _ => true

def allAvoid (hidden : List String) : List Value → Bool
  | [] => true
  | item :: rest => avoids hidden item && allAvoid hidden rest

def fieldsAvoid (hidden : List String) : List (String × Value) → Bool
  | [] => true
  | (name, item) :: rest =>
    avoidsPath hidden name && avoids hidden item && fieldsAvoid hidden rest

end

theorem allAvoid_iff {hidden : List String} {items : List Value} :
    allAvoid hidden items ↔ ∀ item ∈ items, item.avoids hidden := by
  induction items with
  | nil => simp [allAvoid]
  | cons item rest inductionHypothesis =>
    rw [allAvoid, Bool.and_eq_true, inductionHypothesis, List.forall_mem_cons]

theorem fieldsAvoid_iff {hidden : List String} {fields : List (String × Value)} :
    fieldsAvoid hidden fields ↔
      ∀ field ∈ fields, avoidsPath hidden field.1 ∧ field.2.avoids hidden := by
  induction fields with
  | nil => simp [fieldsAvoid]
  | cons field rest inductionHypothesis =>
    rw [fieldsAvoid, Bool.and_eq_true, Bool.and_eq_true, inductionHypothesis, List.forall_mem_cons]

end Value

namespace Term

variable {hidden : List String}

theorem avoids_entry {name : String} {term : Term} :
    (Term.document [(name, term)]).data.avoids hidden ↔
      avoidsPath hidden name ∧ term.data.avoids hidden := by
  rw [data_entry, Value.avoids, Value.fieldsAvoid_iff, List.forall_mem_singleton]

theorem avoids_of_mem {fields : List (String × Term)}
    (avoids : Value.fieldsAvoid hidden (dataOfFields fields)) {field : String × Term}
    (member : field ∈ fields) : field.2.data.avoids hidden := by
  rw [Value.fieldsAvoid_iff, dataOfFields_eq, List.forall_mem_map] at avoids
  exact (avoids field member).2

end Term

namespace Stage

mutual

/-- Whether a stage mentions none of the hidden variables, unless it binds them itself. -/
def avoids (hidden : List String) : Stage → Bool
  | .matching fields | .addFields fields | .project fields | .group fields | .custom fields =>
    Value.fieldsAvoid hidden (Term.dataOfFields fields)
  | .sort _ | .unwind _ => true
  | .replaceRoot root => root.data.avoids hidden
  | .lookup _ bindings stages _ =>
    Value.fieldsAvoid hidden (Term.dataOfFields (bindings.getD [])) &&
      allAvoid (hidden.filter fun name => !(Fields.names (bindings.getD [])).contains name) stages

def allAvoid (hidden : List String) : List Stage → Bool
  | [] => true
  | stage :: rest => avoids hidden stage && allAvoid hidden rest

end

end Stage

namespace Server

variable {Row : Type} {server : Server Row} {row other : Row} {hidden : List String}

/-- Two rows in which paths that begin at no hidden variable reach the same. -/
def Alike (server : Server Row) (hidden : List String) (row other : Row) : Prop :=
  ∀ path, avoidsPath hidden path → server.reach row path = server.reach other path

theorem avoids_path (hidden : List String) (column : String) :
    (Value.text (Term.path column)).avoids hidden = avoidsPath hidden column := by
  rw [Value.avoids, toList_path]
  exact congrArg (avoidsPath hidden) String.ofList_toList

theorem readText_congr (alike : server.Alike hidden row other) {content : String}
    (avoids : (Value.text content).avoids hidden) :
    server.readText row content = server.readText other content := by
  cases marked : isMarked content with
  | false => rw [readText_of_unmarked marked, readText_of_unmarked marked]
  | true =>
    obtain ⟨column, rfl⟩ := exists_path_of_isMarked marked
    rw [avoids_path] at avoids
    rw [readText_path, readText_path, alike column avoids]

theorem evaluateEach_congr {items : List Value}
    (each : ∀ item ∈ items, server.evaluate row item = server.evaluate other item) :
    server.evaluateEach row items = server.evaluateEach other items := by
  induction items with
  | nil => rfl
  | cons item rest inductionHypothesis =>
    obtain ⟨first, later⟩ := List.forall_mem_cons.mp each
    rw [evaluateEach_cons, evaluateEach_cons, first, inductionHypothesis later]

theorem evaluateFields_congr {fields : List (String × Value)}
    (each : ∀ field ∈ fields, server.evaluate row field.2 = server.evaluate other field.2) :
    server.evaluateFields row fields = server.evaluateFields other fields := by
  induction fields with
  | nil => rfl
  | cons field rest inductionHypothesis =>
    obtain ⟨first, later⟩ := List.forall_mem_cons.mp each
    rw [evaluateFields, evaluateFields, first, inductionHypothesis later]

theorem choose_congr {otherwise : Option (Option Value)} {branches : List Value}
    (avoids : Value.allAvoid hidden branches)
    (each : ∀ value, sizeOf value < sizeOf branches → value.avoids hidden →
      server.evaluate row value = server.evaluate other value) :
    server.choose row otherwise branches = server.choose other otherwise branches := by
  induction branches with
  | nil => rfl
  | cons branch rest inductionHypothesis =>
    rw [Value.allAvoid, Bool.and_eq_true] at avoids
    have later := inductionHypothesis avoids.2 fun value smaller =>
      each value (by simp only [List.cons.sizeOf_spec]; omega)
    unfold choose
    split
    next impossible => cases impossible
    next test result _ same =>
      cases same
      have first := avoids.1
      simp only [Value.avoids, Value.fieldsAvoid, Bool.and_eq_true] at first
      rw [each test (by simp; omega) first.1.2, each result (by simp; omega) first.2.1.2, later]
    next => rfl

theorem apply_congr {name : String} {argument : Value} (avoids : argument.avoids hidden)
    (each : ∀ value, sizeOf value < sizeOf argument → value.avoids hidden →
      server.evaluate row value = server.evaluate other value) {read : Option (Option Value)} :
    server.apply row read name argument = server.apply other read name argument := by
  unfold apply
  split
  next => rfl
  next first second =>
    simp only [Value.avoids, Value.allAvoid, Bool.and_eq_true] at avoids
    rw [each first (by simp; omega) avoids.1, each second (by simp; omega) avoids.2.1]
  next branches otherwise =>
    simp only [Value.avoids, Value.fieldsAvoid, Bool.and_eq_true] at avoids
    rw [each otherwise (by simp; omega) avoids.2.1.2,
      choose_congr avoids.1.2 fun value smaller => each value (by simp; omega)]
  next input pattern =>
    simp only [Value.avoids, Value.fieldsAvoid, Bool.and_eq_true] at avoids
    rw [each input (by simp; omega) avoids.1.2, each pattern (by simp; omega) avoids.2.1.2]
  next items _ _ =>
    rw [Value.avoids, Value.allAvoid_iff] at avoids
    rw [evaluateEach_congr fun item member => each item
      (by have below := List.sizeOf_lt_of_mem member; simp; omega) (avoids item member)]
  next => rfl

/-- Expressions that mention no hidden variable come to the same.  The induction is on the size, for an
operator looks into its argument at several depths. -/
theorem evaluate_congr (alike : server.Alike hidden row other) (value : Value)
    (avoids : value.avoids hidden) : server.evaluate row value = server.evaluate other value := by
  induction size : sizeOf value using Nat.strong_induction_on generalizing value with
  | _ bound inductionHypothesis =>
    subst size
    have smaller : ∀ inner, sizeOf inner < sizeOf value → inner.avoids hidden →
        server.evaluate row inner = server.evaluate other inner :=
      fun inner below avoids => inductionHypothesis (sizeOf inner) below inner avoids rfl
    cases value with
    | text content =>
      rw [evaluate, evaluate, readText_congr alike avoids]
    | list items =>
      rw [Value.avoids, Value.allAvoid_iff] at avoids
      rw [evaluate, evaluate, evaluateEach_congr fun item member => smaller item
        (by have below := List.sizeOf_lt_of_mem member; simp; omega) (avoids item member)]
    | map fields =>
      rw [Value.avoids, Value.fieldsAvoid_iff] at avoids
      have within : ∀ field ∈ fields, sizeOf field.2 < sizeOf fields := by
        intro field member
        have below := List.sizeOf_lt_of_mem member
        have part : sizeOf field.2 < sizeOf field := by
          cases field
          simp
        exact part.trans below
      have each : ∀ field ∈ fields,
          server.evaluate row field.2 = server.evaluate other field.2 := fun field member =>
        smaller field.2 (by have below := within field member; simp; omega) (avoids field member).2
      rw [evaluate, evaluate, evaluateFields_congr each]
      rcases fields with _ | ⟨⟨name, argument⟩, _ | _⟩
      · rfl
      · have ofArgument : argument.avoids hidden := (avoids (name, argument) List.mem_cons_self).2
        rw [evaluateOperator, evaluateOperator, each (name, argument) List.mem_cons_self,
          apply_congr ofArgument fun inner below => smaller inner (by simp; omega)]
      · rfl
    | _ => rw [evaluate, evaluate] <;> nofun

mutual

/-- Match documents that mention no hidden variable are satisfied alike. -/
theorem satisfies_congr (alike : server.Alike hidden row other) : (value : Value) →
    value.avoids hidden → server.satisfies row value = server.satisfies other value
  | .map fields, avoids => by
    rw [Value.avoids] at avoids
    rw [satisfies, satisfies, satisfiesAll_congr alike fields avoids]
  | .null, _ | .bool _, _ | .text _, _ | .int _, _ | .uint _, _ | .single _, _ | .double _, _
  | .decimal _, _ | .bytes _, _ | .date _, _ | .list _, _ => by rw [satisfies, satisfies] <;> nofun

theorem satisfiesAll_congr (alike : server.Alike hidden row other) :
    (fields : List (String × Value)) → Value.fieldsAvoid hidden fields →
    server.satisfiesAll row fields = server.satisfiesAll other fields
  | [], _ => by rw [satisfiesAll, satisfiesAll]
  | (name, demand) :: rest, avoids => by
    simp only [Value.fieldsAvoid, Bool.and_eq_true] at avoids
    rw [satisfiesAll, satisfiesAll, satisfiesField_congr alike avoids.1.1 demand avoids.1.2,
      satisfiesAll_congr alike rest avoids.2]

theorem satisfiesField_congr (alike : server.Alike hidden row other) {name : String}
    (path : avoidsPath hidden name) : (demand : Value) → demand.avoids hidden →
    server.satisfiesField row name demand = server.satisfiesField other name demand
  | .list items, avoids => by
    rw [Value.avoids] at avoids
    have each := satisfiesEach_congr alike items avoids
    by_cases conjunction : name = "$and"
    · rw [conjunction, satisfiesField, satisfiesField, each]
    by_cases disjunction : name = "$or"
    · rw [disjunction, satisfiesField, satisfiesField, each]
    · rw [satisfiesField, satisfiesField, alike name path] <;> simp [conjunction, disjunction]
  | .null, _ | .bool _, _ | .text _, _ | .int _, _ | .uint _, _ | .single _, _ | .double _, _
  | .decimal _, _ | .bytes _, _ | .date _, _ | .map _, _ => by
    rw [satisfiesField, satisfiesField, alike name path] <;> nofun

theorem satisfiesEach_congr (alike : server.Alike hidden row other) : (items : List Value) →
    Value.allAvoid hidden items → server.satisfiesEach row items = server.satisfiesEach other items
  | [], _ => by rw [satisfiesEach, satisfiesEach]
  | item :: rest, avoids => by
    rw [Value.allAvoid, Bool.and_eq_true] at avoids
    rw [satisfiesEach, satisfiesEach, satisfies_congr alike item avoids.1,
      satisfiesEach_congr alike rest avoids.2]

end

end Server

/-- Two contexts that differ in hidden variables at most. -/
structure Context.Alike (hidden : List String) (context other : Context) : Prop where
  collections : context.collections = other.collections
  bound : ∀ name, name ∉ hidden → context.bound.get? name = other.bound.get? name

theorem Fields.reach_congr {fields others : Fields Value} {name : String}
    (same : fields.get? name = others.get? name) (rest : List String) :
    fields.reach (name :: rest) = others.reach (name :: rest) := by
  cases rest with
  | nil => exact same
  | cons next below => rw [reach, reach, same] <;> exact List.cons_ne_nil _ _

theorem View.reach_variable {name : String} (field : isFieldName name) (other : name ≠ "ROOT")
    (view : View) : view.reach (Term.path name) = view.bound.get? name := by
  have reached : view.reach (Term.path name) =
      (Fields.set "ROOT" (.map view.row) view.bound).reach (pathNames name) := by
    rw [reach, Server.toList_path]
    simp only [String.ofList_toList]
  rw [reached, pathNames_of_isFieldName field]
  exact Fields.get?_set_of_ne (Ne.symm other) _ _

namespace Engine

variable {engine : Engine} {context other : Context} {hidden : List String}

/-- What is documented of stages written by hand: they see no variables but those they mention. -/
def Heedful (engine : Engine) : Prop :=
  ∀ fields hidden, Value.fieldsAvoid hidden (Term.dataOfFields fields) →
    ∀ context other : Context, context.Alike hidden other →
      engine.custom fields context = engine.custom fields other

/-- The variables of a lookup, before those around it. -/
theorem get?_bind (context : Context) (row : Fields Value) (bindings : List (String × Term))
    (name : String) : (engine.bind context row bindings).get? name =
      (Fields.get? bindings name).elim (context.bound.get? name) (engine.read context row) := by
  induction bindings with
  | nil => rfl
  | cons binding rest inductionHypothesis =>
    rw [bind, Fields.get?_place, inductionHypothesis, Fields.get?_cons]
    split <;> rfl

section Reading

variable (engine) (alike : context.Alike hidden other)

include alike

theorem alike_server (row : Fields Value) :
    engine.server.Alike hidden ⟨row, context.bound⟩ ⟨row, other.bound⟩ := by
  intro path avoids
  change View.reach _ path = View.reach _ path
  unfold View.reach
  split
  next name marked =>
    cases names : pathNames (String.ofList name) with
    | nil => exact absurd (List.map_eq_nil_iff.mp names) (List.splitOn_ne_nil _ _)
    | cons head rest =>
      have visible : head ∉ hidden := by
        simpa [avoidsPath, startingVariable, marked, names] using avoids
      apply Fields.reach_congr
      rw [Fields.get?_set, Fields.get?_set, alike.bound head visible]
  next => rfl

theorem read_congr {term : Term} (avoids : term.data.avoids hidden) (row : Fields Value) :
    engine.read context row term = engine.read other row term := by
  rw [read, read, Server.evaluate_congr (alike_server engine alike row) _ avoids]

theorem read_congr_of_mem {fields : List (String × Term)}
    (avoids : Value.fieldsAvoid hidden (Term.dataOfFields fields)) {field : String × Term}
    (member : field ∈ fields) (row : Fields Value) :
    engine.read context row field.2 = engine.read other row field.2 :=
  read_congr engine alike (Term.avoids_of_mem avoids member) row

theorem holds_congr {term : Term} (avoids : term.data.avoids hidden) (row : Fields Value) :
    engine.holds context term row = engine.holds other term row := by
  unfold holds
  split
  next expression => rw [read_congr engine alike (Term.avoids_entry.mp avoids).2]
  next => rw [Server.satisfies_congr (alike_server engine alike row) _ avoids]

theorem satisfies_congr (term : Term) (avoids : term.data.avoids hidden) (row : Fields Value) :
    engine.meaning.satisfies context term row = engine.meaning.satisfies other term row := by
  induction size : sizeOf term using Nat.strong_induction_on generalizing term with
  | _ bound inductionHypothesis =>
    subst size
    change Stage.satisfiesBy engine.holds context term row =
      Stage.satisfiesBy engine.holds other term row
    unfold Stage.satisfiesBy
    split
    next parts =>
      have ofParts := (Term.avoids_entry.mp avoids).2
      rw [Term.data_array, Value.avoids, Value.allAvoid_iff, Term.dataOf_eq,
        List.forall_mem_map] at ofParts
      have each : ∀ part ∈ parts, engine.meaning.satisfies context part row =
          engine.meaning.satisfies other part row := by
        intro part member
        have below := List.sizeOf_lt_of_mem member
        exact inductionHypothesis (sizeOf part) (by simp; omega) part (ofParts part member) rfl
      rw [Stage.satisfiesAllBy_eq, Stage.satisfiesAllBy_eq, Bool.eq_iff_iff, List.all_eq_true,
        List.all_eq_true]
      exact forall₂_congr fun part member => Bool.eq_iff_iff.mp (each part member)
    next => exact holds_congr engine alike avoids row

end Reading

section Stages

variable (alike : context.Alike hidden other) {fields : List (String × Term)}

include alike

theorem addFields_congr (avoids : Value.fieldsAvoid hidden (Term.dataOfFields fields)) :
    engine.addFields fields context = engine.addFields fields other := by
  funext row
  rw [addFields, addFields]
  refine List.foldl_ext _ _ _ fun made field member => ?_
  rw [read_congr_of_mem engine alike avoids member]

theorem project_congr (avoids : Value.fieldsAvoid hidden (Term.dataOfFields fields)) :
    engine.project fields context = engine.project fields other := by
  funext row
  have selected : engine.select fields context row = engine.select fields other row := by
    rw [select, select]
    refine List.foldl_ext _ _ _ fun made field member => ?_
    rw [take, take, read_congr_of_mem engine alike avoids member]
  rw [project, project, selected]

theorem accumulated_congr {term : Term} (avoids : term.data.avoids hidden)
    (members : List (Fields Value)) :
    engine.accumulated context members term = engine.accumulated other members term := by
  unfold accumulated
  split
  next argument => rw [funext (read_congr engine alike (Term.avoids_entry.mp avoids).2)]
  next operator argument _ => rw [funext (read_congr engine alike (Term.avoids_entry.mp avoids).2)]
  next => rfl

theorem group_congr (avoids : Value.fieldsAvoid hidden (Term.dataOfFields fields)) :
    engine.group fields context = engine.group fields other := by
  have key : engine.groupKey fields context = engine.groupKey fields other := by
    funext row
    rw [groupKey, groupKey]
    cases found : Fields.get? fields "_id" with
    | none => rfl
    | some term =>
      have member := Fields.mem_of_get? found
      exact congrArg (·.getD .null) (read_congr_of_mem engine alike avoids member row)
  have made : engine.groupRow fields context = engine.groupRow fields other := by
    funext group
    refine List.filterMap_congr fun field member => ?_
    rw [accumulated_congr alike (Term.avoids_of_mem avoids member)]
  funext rows
  rw [group, group, key, made]

theorem alike_bind {bindings : List (String × Term)}
    (avoids : Value.fieldsAvoid hidden (Term.dataOfFields bindings)) (row : Fields Value) :
    Context.Alike (hidden.filter fun name => !(Fields.names bindings).contains name)
      ⟨context.collections, engine.bind context row bindings⟩
      ⟨other.collections, engine.bind other row bindings⟩ where
  collections := alike.collections
  bound name visible := by
    rw [get?_bind, get?_bind]
    cases found : Fields.get? bindings name with
    | some term => exact read_congr_of_mem engine alike avoids (Fields.mem_of_get? found) row
    | none =>
      have unbound : name ∉ Fields.names bindings := Fields.get?_eq_none_iff.mp found
      exact alike.bound name fun within => visible (List.mem_filter.mpr ⟨within, by simpa using unbound⟩)

variable (heedful : engine.Heedful)

include heedful

theorem transform_congr (stage : Stage) (avoids : stage.avoids hidden) :
    engine.transform stage context = engine.transform stage other := by
  funext rows
  cases stage with
  | addFields fields =>
    rw [Stage.avoids] at avoids
    rw [transform, transform, addFields_congr alike avoids]
  | project fields =>
    rw [Stage.avoids] at avoids
    rw [transform, transform, project_congr alike avoids]
  | group fields =>
    rw [Stage.avoids] at avoids
    rw [transform, transform, group_congr alike avoids]
  | replaceRoot root =>
    rw [Stage.avoids] at avoids
    have replaced : engine.replaceRoot root context = engine.replaceRoot root other := by
      funext row
      rw [replaceRoot, replaceRoot, read_congr engine alike avoids]
    rw [transform, transform, replaced]
  | custom fields =>
    rw [Stage.avoids] at avoids
    rw [transform, transform, heedful fields hidden avoids context other alike]
  | matching | sort | unwind | lookup => rfl

end Stages

mutual

/-- A stage that mentions no hidden variable makes the same of rows. -/
theorem runStage_congr (heedful : engine.Heedful) : (stage : Stage) → {hidden : List String} →
    stage.avoids hidden → {context other : Context} → context.Alike hidden other →
    ∀ rows, engine.run [stage] context rows = engine.run [stage] other rows
  | .lookup source bindings stages target, hidden, avoids, context, other, alike, rows => by
    rw [Stage.avoids, Bool.and_eq_true] at avoids
    have found : ∀ row : Fields Value, engine.run stages
        ⟨context.collections, engine.bind context row (bindings.getD [])⟩ =
          engine.run stages ⟨other.collections, engine.bind other row (bindings.getD [])⟩ := by
      intro row
      exact funext (run_congr heedful stages avoids.2 (alike_bind alike avoids.1 row))
    rw [run_lookup, run_lookup, alike.collections]
    simp only [alike.collections] at found
    simp only [found]
  | .matching condition, hidden, avoids, context, other, alike, rows => by
    have document : (Term.document condition).data.avoids hidden := by
      rw [Stage.avoids] at avoids
      rw [Term.data, Value.avoids, avoids]
    rw [run_matching, run_matching]
    have verdict := satisfies_congr engine alike (.document condition) document
    rw [funext verdict]
  | .addFields _, _, avoids, _, _, alike, rows
  | .project _, _, avoids, _, _, alike, rows
  | .group _, _, avoids, _, _, alike, rows
  | .sort _, _, avoids, _, _, alike, rows
  | .unwind _, _, avoids, _, _, alike, rows
  | .replaceRoot _, _, avoids, _, _, alike, rows
  | .custom _, _, avoids, _, _, alike, rows =>
    congrFun (transform_congr alike heedful _ avoids) rows

/-- Stages that mention no hidden variable make the same of rows. -/
theorem run_congr (heedful : engine.Heedful) : (stages : List Stage) → {hidden : List String} →
    Stage.allAvoid hidden stages → {context other : Context} → context.Alike hidden other →
    ∀ rows, engine.run stages context rows = engine.run stages other rows
  | [], _, _, _, _, _, _ => rfl
  | stage :: rest, hidden, avoids, context, other, alike, rows => by
    rw [Stage.allAvoid, Bool.and_eq_true] at avoids
    rw [run_cons, run_cons engine other, runStage_congr heedful stage avoids.1 alike,
      run_congr heedful rest avoids.2 alike]

end

end Engine

end StepQuery
