import Mathlib.Data.List.Nodup
import Mathlib.Data.String.Basic
import StepQuery.Value

/-!
Named entries as finite maps: what looking a name up finds after an entry has been written, and that
entries written one after the other come out in ascending order of their names.
-/

namespace StepQuery.Fields

variable {α : Type}

@[simp]
theorem get?_nil (name : String) : get? ([] : Fields α) name = none := rfl

theorem get?_cons (entry : String × α) (rest : Fields α) (name : String) :
    get? (entry :: rest) name = if entry.1 = name then some entry.2 else get? rest name := by
  by_cases same : entry.1 = name <;> simp [get?, same]

theorem get?_eq_none_iff {fields : Fields α} {name : String} :
    get? fields name = none ↔ name ∉ names fields := by
  induction fields with
  | nil => simp [names]
  | cons entry rest inductionHypothesis =>
    rw [get?_cons, names, List.map_cons, List.mem_cons, not_or]
    by_cases same : entry.1 = name
    · simp [same]
    · rw [if_neg same, inductionHypothesis]
      exact ⟨fun absent => ⟨Ne.symm same, absent⟩, And.right⟩

@[simp]
theorem get?_set_self (name : String) (value : α) (fields : Fields α) :
    get? (set name value fields) name = some value := by
  induction fields with
  | nil => simp [set, get?_cons]
  | cons entry rest inductionHypothesis =>
    simp only [set]
    split
    · simp [get?_cons]
    · rename_i different
      split
      · simp [get?_cons]
      · rw [get?_cons, if_neg (Ne.symm different)]
        exact inductionHypothesis

theorem get?_set_of_ne {name other : String} (different : name ≠ other) (value : α)
    (fields : Fields α) : get? (set name value fields) other = get? fields other := by
  induction fields with
  | nil => simp [set, get?_cons, different]
  | cons entry rest inductionHypothesis =>
    simp only [set]
    split
    · rename_i same
      simp [get?_cons, ← same, different]
    · split
      · simp [get?_cons, different]
      · rw [get?_cons, get?_cons, inductionHypothesis]

theorem get?_set (name : String) (value : α) (fields : Fields α) (other : String) :
    get? (set name value fields) other = if name = other then some value else get? fields other := by
  by_cases same : name = other
  · rw [if_pos same, ← same, get?_set_self]
  · rw [if_neg same, get?_set_of_ne same]

/-- The names are ascending, and thus distinct. -/
abbrev Ascending (fields : Fields α) : Prop :=
  fields.Pairwise fun first second => first.1 < second.1

theorem set_cons (name : String) (value : α) (held : String × α) (rest : Fields α) :
    set name value (held :: rest) =
      if name = held.1 then (name, value) :: rest
      else if name < held.1 then (name, value) :: held :: rest
      else held :: set name value rest := rfl

theorem mem_set {name : String} {value : α} {fields : Fields α} {entry : String × α}
    (member : entry ∈ set name value fields) : entry = (name, value) ∨ entry ∈ fields := by
  induction fields with
  | nil => exact .inl (List.mem_singleton.mp member)
  | cons held rest inductionHypothesis =>
    rw [set_cons] at member
    split at member
    · rcases List.mem_cons.mp member with first | later
      · exact .inl first
      · exact .inr (List.mem_cons_of_mem _ later)
    split at member
    · exact List.mem_cons.mp member
    · rcases List.mem_cons.mp member with first | later
      · exact .inr (first ▸ List.mem_cons_self)
      · rcases inductionHypothesis later with new | old
        · exact .inl new
        · exact .inr (List.mem_cons_of_mem _ old)

theorem Ascending.set {fields : Fields α} (ascending : Ascending fields) (name : String)
    (value : α) : Ascending (fields.set name value) := by
  induction fields with
  | nil => exact List.pairwise_singleton _ _
  | cons held rest inductionHypothesis =>
    obtain ⟨above, others⟩ := List.pairwise_cons.mp ascending
    rw [set_cons]
    split
    next same =>
      exact List.pairwise_cons.mpr ⟨fun entry within => same ▸ above entry within, others⟩
    next different =>
      split
      next below =>
        refine List.pairwise_cons.mpr ⟨?_, ascending⟩
        intro entry within
        rcases List.mem_cons.mp within with rfl | later
        · exact below
        · exact lt_trans below (above entry later)
      next notBelow =>
        have after : held.1 < name := lt_of_le_of_ne (not_lt.mp notBelow) (Ne.symm different)
        refine List.pairwise_cons.mpr ⟨?_, inductionHypothesis others⟩
        intro entry within
        rcases mem_set within with rfl | later
        · exact after
        · exact above entry later

theorem ascending_ofList (entries : List (String × α)) : Ascending (ofList entries) := by
  unfold ofList
  suffices general : ∀ fields : Fields α, Ascending fields →
      Ascending (entries.foldl (fun fields entry => set entry.1 entry.2 fields) fields) from
    general [] List.Pairwise.nil
  induction entries with
  | nil => exact fun fields ascending => ascending
  | cons entry rest inductionHypothesis =>
    exact fun fields ascending => inductionHypothesis _ (ascending.set entry.1 entry.2)

theorem Ascending.nodup_names {fields : Fields α} (ascending : Ascending fields) :
    (names fields).Nodup :=
  List.pairwise_map.mpr (ascending.imp fun below => below.ne)

/-- There is one entry of a name at most. -/
theorem Ascending.eq_of_mem {fields : Fields α} (ascending : Ascending fields)
    {entry other : String × α} (member : entry ∈ fields) (isOther : other ∈ fields)
    (named : entry.1 = other.1) : entry = other :=
  List.inj_on_of_nodup_map ascending.nodup_names member isOther named

/-- Entries are determined by which there are. -/
theorem Ascending.ext {fields others : Fields α} (ascending : Ascending fields)
    (ascending' : Ascending others) (same : ∀ entry, entry ∈ fields ↔ entry ∈ others) :
    fields = others := by
  have perm : fields.Perm others :=
    (List.perm_ext_iff_of_nodup (List.Nodup.of_map _ ascending.nodup_names)
      (List.Nodup.of_map _ ascending'.nodup_names)).mpr same
  exact perm.eq_of_pairwise (fun _ _ _ _ below above => absurd below above.not_gt) ascending ascending'

theorem mem_of_get? {fields : Fields α} {name : String} {value : α}
    (found : get? fields name = some value) : (name, value) ∈ fields := by
  induction fields with
  | nil => cases found
  | cons entry rest inductionHypothesis =>
    rw [get?_cons] at found
    split at found
    next same =>
      cases found
      exact same ▸ List.mem_cons_self
    next => exact List.mem_cons_of_mem _ (inductionHypothesis found)

theorem get?_of_mem {fields : Fields α} (ascending : Ascending fields) {entry : String × α}
    (member : entry ∈ fields) : get? fields entry.1 = some entry.2 := by
  cases found : get? fields entry.1 with
  | none => exact absurd (List.mem_map_of_mem member) (get?_eq_none_iff.mp found)
  | some value =>
    have same := ascending.eq_of_mem (mem_of_get? found) member rfl
    exact congrArg (fun held => some held.2) same

/-- A map is determined by what is found in it. -/
theorem Ascending.ext_get? {fields others : Fields α} (ascending : Ascending fields)
    (ascending' : Ascending others) (same : ∀ name, get? fields name = get? others name) :
    fields = others := by
  refine ascending.ext ascending' fun entry => ⟨fun member => ?_, fun member => ?_⟩
  · exact mem_of_get? ((same entry.1).symm.trans (get?_of_mem ascending member))
  · exact mem_of_get? ((same entry.1).trans (get?_of_mem ascending' member))

theorem mem_ofList {entries : List (String × α)} {entry : String × α}
    (member : entry ∈ ofList entries) : entry ∈ entries := by
  unfold ofList at member
  suffices general : ∀ fields : Fields α,
      entry ∈ entries.foldl (fun fields entry => set entry.1 entry.2 fields) fields →
        entry ∈ fields ∨ entry ∈ entries from
    (general [] member).resolve_left List.not_mem_nil
  clear member
  induction entries with
  | nil => exact fun fields within => .inl within
  | cons first rest inductionHypothesis =>
    intro fields within
    rcases inductionHypothesis _ within with held | later
    · rcases mem_set held with rfl | old
      · exact .inr List.mem_cons_self
      · exact .inl old
    · exact .inr (List.mem_cons_of_mem _ later)

/-- An entry whose name is above all others is written at the end. -/
theorem set_of_above {name : String} (value : α) {fields : Fields α}
    (above : ∀ entry ∈ fields, entry.1 < name) :
    set name value fields = fields ++ [(name, value)] := by
  induction fields with
  | nil => rfl
  | cons held rest inductionHypothesis =>
    have below : held.1 < name := above held List.mem_cons_self
    rw [set_cons, if_neg below.ne', if_neg below.le.not_gt,
      inductionHypothesis fun entry within => above entry (List.mem_cons_of_mem _ within)]
    rfl

theorem Ascending.ofList_eq {fields : Fields α} (ascending : Ascending fields) :
    ofList fields = fields := by
  unfold ofList
  suffices general : ∀ before : Fields α, Ascending (before ++ fields) →
      fields.foldl (fun fields entry => Fields.set entry.1 entry.2 fields) before =
        before ++ fields from
    general [] ascending
  clear ascending
  induction fields with
  | nil => simp
  | cons entry rest inductionHypothesis =>
    intro before ascending
    have above : ∀ held ∈ before, held.1 < entry.1 := fun held within =>
      (List.pairwise_append.mp ascending).2.2 held within entry List.mem_cons_self
    rw [List.foldl_cons, set_of_above entry.2 above, inductionHypothesis _ (by simpa using ascending)]
    simp

/-- An entry whose name is below all others is written in front. -/
theorem set_of_below {name : String} (value : α) {fields : Fields α}
    (below : ∀ entry ∈ fields, name < entry.1) :
    set name value fields = (name, value) :: fields := by
  cases fields with
  | nil => rfl
  | cons held rest =>
    have above : name < held.1 := below held List.mem_cons_self
    rw [set_cons, if_neg above.ne, if_pos above]

/-- Entries of other names can be left out before or after writing. -/
theorem filter_set {name dropped : String} (kept : name ≠ dropped) (value : α) {fields : Fields α}
    (ascending : Ascending fields) :
    (set name value fields).filter (fun entry => entry.1 != dropped) =
      set name value (fields.filter fun entry => entry.1 != dropped) := by
  induction fields with
  | nil => simp [set, kept]
  | cons held rest inductionHypothesis =>
    obtain ⟨above, others⟩ := List.pairwise_cons.mp ascending
    by_cases leaves : held.1 = dropped
    · have differs : name ≠ held.1 := leaves ▸ kept
      rw [set_cons, if_neg differs, List.filter_cons_of_neg (by simp [leaves])]
      split
      next below =>
        rw [List.filter_cons_of_pos (by simpa using kept), List.filter_cons_of_neg (by simp [leaves]),
          set_of_below]
        exact fun entry within => lt_trans below (above entry (List.mem_of_mem_filter within))
      next =>
        rw [List.filter_cons_of_neg (by simp [leaves]), inductionHypothesis others]
    · rw [set_cons, List.filter_cons_of_pos (by simpa using leaves), set_cons]
      split
      next => rw [List.filter_cons_of_pos (by simpa using kept)]
      split
      next =>
        rw [List.filter_cons_of_pos (by simpa using kept),
          List.filter_cons_of_pos (by simpa using leaves)]
      next =>
        rw [List.filter_cons_of_pos (by simpa using leaves), inductionHypothesis others]

/-- Leaving out the one entry of a name that is written first. -/
theorem filter_ofList_cons (name : String) (value : α) {entries : List (String × α)}
    (others : ∀ entry ∈ entries, entry.1 ≠ name) :
    (ofList ((name, value) :: entries)).filter (fun entry => entry.1 != name) =
      ofList entries := by
  suffices general : ∀ fields : Fields α, Ascending fields →
      (entries.foldl (fun fields entry => set entry.1 entry.2 fields) fields).filter
          (fun entry => entry.1 != name) =
        entries.foldl (fun fields entry => set entry.1 entry.2 fields)
          (fields.filter fun entry => entry.1 != name) by
    have result := general [(name, value)] (List.pairwise_singleton _ _)
    rw [List.filter_cons_of_neg (by simp)] at result
    exact result
  induction entries with
  | nil => exact fun fields ascending => rfl
  | cons entry rest inductionHypothesis =>
    intro fields ascending
    obtain ⟨first, later⟩ := List.forall_mem_cons.mp others
    rw [List.foldl_cons, inductionHypothesis later _ (ascending.set entry.1 entry.2),
      filter_set first entry.2 ascending]
    rfl

/-- Of entries that are written behind others, those count where there are any of a name. -/
theorem get?_foldl_set (entries : List (String × α)) (fields : Fields α) (name : String) :
    get? (entries.foldl (fun fields entry => set entry.1 entry.2 fields) fields) name =
      (get? (ofList entries) name).or (get? fields name) := by
  unfold ofList
  induction entries generalizing fields with
  | nil => rfl
  | cons entry rest inductionHypothesis =>
    rw [List.foldl_cons, List.foldl_cons, inductionHypothesis, inductionHypothesis (set _ _ []),
      Option.or_assoc, get?_set, get?_set]
    split <;> rfl

theorem get?_ofList_behind (before after : List (String × α)) (name : String) :
    get? (ofList (before ++ after)) name =
      (get? (ofList after) name).or (get? (ofList before) name) := by
  rw [ofList, List.foldl_append]
  exact get?_foldl_set after _ name

theorem mem_names_set {name : String} {value : α} {fields : Fields α} {other : String} :
    other ∈ names (set name value fields) ↔ other = name ∨ other ∈ names fields := by
  rw [← not_iff_not, not_or, ← get?_eq_none_iff, ← get?_eq_none_iff]
  by_cases same : name = other
  · simp [same]
  · rw [get?_set_of_ne same]
    exact ⟨fun absent => ⟨Ne.symm same, absent⟩, And.right⟩

theorem mem_names_ofList {name : String} {entries : List (String × α)} :
    name ∈ names (ofList entries) ↔ name ∈ entries.map (·.1) := by
  suffices general : ∀ fields : Fields α,
      name ∈ names (entries.foldl (fun fields entry => set entry.1 entry.2 fields) fields) ↔
        name ∈ names fields ∨ name ∈ entries.map (·.1) from
    (general []).trans (by simp [names])
  induction entries with
  | nil => simp
  | cons entry rest inductionHypothesis =>
    intro fields
    rw [List.foldl_cons, inductionHypothesis, mem_names_set, List.map_cons, List.mem_cons]
    tauto

theorem get?_ofList_eq_none_iff {entries : List (String × α)} {name : String} :
    get? (ofList entries) name = none ↔ ∀ entry ∈ entries, entry.1 ≠ name := by
  rw [get?_eq_none_iff, mem_names_ofList]
  constructor
  · exact fun absent entry member same => absent (List.mem_map.mpr ⟨entry, member, same⟩)
  · intro others within
    obtain ⟨entry, member, same⟩ := List.mem_map.mp within
    exact others entry member same

/-- An entry that nothing behind it writes over is found. -/
theorem get?_ofList_append (before : List (String × α)) (name : String) (value : α)
    {after : List (String × α)} (others : ∀ entry ∈ after, entry.1 ≠ name) :
    get? (ofList (before ++ (name, value) :: after)) name = some value := by
  rw [← List.singleton_append, ← List.append_assoc, get?_ofList_behind,
    get?_ofList_eq_none_iff.mpr others, Option.none_or, get?_ofList_behind]
  change Option.or (get? (set name value []) name) _ = _
  rw [get?_set_self]
  rfl

/-- Where all entries of a name hold the same, it is found. -/
theorem get?_ofList_of_agree {entries : List (String × α)} {name : String} {value : α}
    (member : (name, value) ∈ entries)
    (agree : ∀ entry ∈ entries, entry.1 = name → entry.2 = value) :
    get? (ofList entries) name = some value := by
  cases found : get? (ofList entries) name with
  | none => exact absurd rfl (get?_ofList_eq_none_iff.mp found _ member)
  | some held => exact congrArg some (agree _ (mem_ofList (mem_of_get? found)) rfl)

/-- Where no name is written twice, every entry is found. -/
theorem get?_ofList_of_nodup {entries : List (String × α)} (distinct : (entries.map (·.1)).Nodup)
    {entry : String × α} (member : entry ∈ entries) :
    get? (ofList entries) entry.1 = some entry.2 :=
  get?_ofList_of_agree member fun _ within same =>
    congrArg Prod.snd (List.inj_on_of_nodup_map distinct within member same)

/-- Of entries whose values depend on their names, it does not matter which counts. -/
theorem get?_ofList_map (make : String → α) {names : List String} {name : String}
    (member : name ∈ names) :
    get? (ofList (names.map fun name => (name, make name))) name = some (make name) := by
  refine get?_ofList_of_agree (List.mem_map.mpr ⟨name, member, rfl⟩) ?_
  intro entry within same
  obtain ⟨other, _, rfl⟩ := List.mem_map.mp within
  exact congrArg make same

theorem get?_ofList_cons (name : String) (value : α) {entries : List (String × α)}
    (others : ∀ entry ∈ entries, entry.1 ≠ name) :
    get? (ofList ((name, value) :: entries)) name = some value :=
  get?_ofList_append [] name value others

theorem map_set {β : Type} (change : α → β) (name : String) (value : α) (fields : Fields α) :
    (set name value fields).map (fun entry => (entry.1, change entry.2)) =
      set name (change value) (fields.map fun entry => (entry.1, change entry.2)) := by
  induction fields with
  | nil => rfl
  | cons held rest inductionHypothesis =>
    rw [List.map_cons, set_cons, set_cons]
    split
    · rfl
    split
    · rfl
    · rw [List.map_cons, inductionHypothesis]

theorem map_ofList {β : Type} (change : α → β) (entries : List (String × α)) :
    (ofList entries).map (fun entry => (entry.1, change entry.2)) =
      ofList (entries.map fun entry => (entry.1, change entry.2)) := by
  suffices general : ∀ fields : Fields α,
      (entries.foldl (fun fields entry => set entry.1 entry.2 fields) fields).map
          (fun entry => (entry.1, change entry.2)) =
        (entries.map fun entry => (entry.1, change entry.2)).foldl
          (fun fields entry => set entry.1 entry.2 fields)
          (fields.map fun entry => (entry.1, change entry.2)) from
    general []
  induction entries with
  | nil => exact fun fields => rfl
  | cons entry rest inductionHypothesis =>
    intro fields
    rw [List.foldl_cons, inductionHypothesis, map_set]
    rfl

theorem perm_set_of_notMem {name : String} (value : α) {fields : Fields α}
    (new : name ∉ names fields) : (set name value fields).Perm ((name, value) :: fields) := by
  induction fields with
  | nil => exact .refl _
  | cons held rest inductionHypothesis =>
    rw [names, List.map_cons, List.mem_cons, not_or] at new
    rw [set_cons, if_neg new.1]
    split
    · exact .refl _
    · exact ((inductionHypothesis new.2).cons held).trans (.swap _ _ _)

/-- Entries of different names are all kept. -/
theorem perm_ofList {entries : List (String × α)} (distinct : (entries.map (·.1)).Nodup) :
    (ofList entries).Perm entries := by
  unfold ofList
  suffices general : ∀ fields : Fields α, ((fields ++ entries).map (·.1)).Nodup →
      (entries.foldl (fun fields entry => set entry.1 entry.2 fields) fields).Perm
        (fields ++ entries) from
    general [] distinct
  clear distinct
  induction entries with
  | nil => exact fun fields _ => by rw [List.append_nil]; exact .refl _
  | cons entry rest inductionHypothesis =>
    intro fields distinct
    have moved : (fields ++ entry :: rest).Perm (entry :: fields ++ rest) := List.perm_middle
    have new : entry.1 ∉ names fields := by
      have separate := (moved.map (·.1)).nodup_iff.mp distinct
      rw [List.cons_append, List.map_cons, List.nodup_cons, List.map_append,
        List.mem_append, not_or] at separate
      exact separate.1.1
    have placed := (perm_set_of_notMem entry.2 new).append_right rest
    refine (inductionHypothesis _ ?_).trans (placed.trans moved.symm)
    exact ((placed.trans moved.symm).map (·.1)).nodup_iff.mpr distinct

theorem set_ne_nil (name : String) (value : α) (fields : Fields α) : set name value fields ≠ [] := by
  cases fields with
  | nil => exact List.cons_ne_nil _ _
  | cons held rest =>
    rw [set_cons]
    split
    · exact List.cons_ne_nil _ _
    · split <;> exact List.cons_ne_nil _ _

@[simp]
theorem isEmpty_ofList (entries : List (String × α)) :
    (ofList entries).isEmpty = entries.isEmpty := by
  cases entries with
  | nil => rfl
  | cons entry rest =>
    suffices general : ∀ (entries : List (String × α)) (fields : Fields α), fields ≠ [] →
        entries.foldl (fun fields entry => set entry.1 entry.2 fields) fields ≠ [] from
      List.isEmpty_eq_false_iff.mpr (general rest _ (List.cons_ne_nil _ _))
    intro entries
    induction entries with
    | nil => exact fun fields given => given
    | cons entry rest inductionHypothesis =>
      exact fun fields _ => inductionHypothesis _ (set_ne_nil entry.1 entry.2 fields)

/-- What holds of the values made for some names can be read off the entries. -/
theorem all_ofList_map (make : String → α) (check : α → Bool) (names : List String) :
    ((ofList (names.map fun name => (name, make name))).all fun entry => check entry.2) =
      names.all fun name => check (make name) := by
  rw [Bool.eq_iff_iff, List.all_eq_true, List.all_eq_true]
  constructor
  · intro each name member
    exact each _ (mem_of_get? (get?_ofList_map make member))
  · intro each entry member
    obtain ⟨name, within, rfl⟩ := List.mem_map.mp (mem_ofList member)
    exact each name within

theorem all_ofList_of_all {check : String × α → Bool} {entries : List (String × α)}
    (each : ∀ entry ∈ entries, check entry) : (ofList entries).all check = true :=
  List.all_eq_true.mpr fun entry member => each entry (mem_ofList member)

theorem get?_filterMap {β : Type} {make : String × α → Option β} {fields : Fields α} {name : String}
    {value : α} {made : β} (held : get? fields name = some value)
    (makes : make (name, value) = some made) :
    get? (fields.filterMap fun field => (make field).map fun found => (field.1, found)) name =
      some made := by
  induction fields with
  | nil => cases held
  | cons field rest inductionHypothesis =>
    obtain ⟨first, item⟩ := field
    rw [get?_cons] at held
    rw [List.filterMap_cons]
    split at held
    next same =>
      cases held
      subst same
      simp [makes, get?_cons]
    next different =>
      cases make (first, item) with
      | none => exact inductionHypothesis held
      | some found =>
        rw [Option.map_some]
        exact (get?_cons _ _ _).trans ((if_neg different).trans (inductionHypothesis held))

end StepQuery.Fields
