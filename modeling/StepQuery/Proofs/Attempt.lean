import StepQuery.Failure

/-!
Attempts, seen through their results: when an attempt put together from others succeeds, and when two
attempts come out alike.
-/

namespace StepQuery

namespace Failure

/-- Passing a place of no kind leaves the kinds as they are. -/
theorem kinds_within {place : Place} (plain : place.kind? = none) (failure : Failure) :
    (failure.within place).kinds = failure.kinds := by
  cases failure with
  | refusal places cause => simp [within, kinds, plain]
  | notFinite number => rfl

/-- A failure that passed places of no kind has the kind of its cause and no other. -/
theorem kinds_refusal {places : List Place} {cause : Cause} {kind : Kind}
    (caused : cause.kind? = some kind) (outside : ∀ place ∈ places, place.kind? = none) :
    (refusal places cause).kinds = [kind] := by
  induction places with
  | nil =>
    rw [kinds, caused]
    cases kind <;> decide
  | cons place rest inductionHypothesis =>
    obtain ⟨plain, others⟩ := List.forall_mem_cons.mp outside
    exact (kinds_within plain (refusal rest cause)).trans (inductionHypothesis others)

end Failure

namespace Attempt

variable {α β γ δ : Type}

@[simp]
theorem inside_ok (place : Place) (value : α) :
    inside place (.ok value : Attempt α) = .ok value := rfl

@[simp]
theorem inside_eq_ok {place : Place} {attempt : Attempt α} {value : α} :
    inside place attempt = .ok value ↔ attempt = .ok value := by
  cases attempt with
  | error failure => exact ⟨nofun, nofun⟩
  | ok found => exact Iff.rfl

@[simp]
theorem ok_bind (value : α) (next : α → Attempt β) :
    ((.ok value : Attempt α) >>= next) = next value := rfl

theorem pure_eq_ok (value : α) : (pure value : Attempt α) = .ok value := rfl

theorem bind_eq_ok {attempt : Attempt α} {next : α → Attempt β} {result : β} :
    (attempt >>= next) = .ok result ↔ ∃ value, attempt = .ok value ∧ next value = .ok result := by
  cases attempt with
  | error failure => exact ⟨fun same => (by cases same), fun ⟨_, same, _⟩ => (by cases same)⟩
  | ok value => simp

theorem bind_eq_error {attempt : Attempt α} {next : α → Attempt β} {failure : Failure} :
    (attempt >>= next) = .error failure ↔
      attempt = .error failure ∨ ∃ value, attempt = .ok value ∧ next value = .error failure := by
  cases attempt with
  | error other => exact ⟨fun same => .inl (by cases same; rfl), fun
      | .inl same => by cases same; rfl
      | .inr ⟨_, same, _⟩ => by cases same⟩
  | ok value => simp

theorem exists_error_iff {attempt : Attempt α} :
    (∃ failure, attempt = .error failure) ↔ ¬∃ value, attempt = .ok value := by
  cases attempt <;> simp

@[simp]
theorem map_ok (value : α) (next : α → β) :
    (.ok value : Attempt α).map next = .ok (next value) := rfl

theorem map_eq_ok {attempt : Attempt α} {next : α → β} {result : β} :
    attempt.map next = .ok result ↔ ∃ value, attempt = .ok value ∧ next value = result := by
  cases attempt <;> simp [Except.map]

@[simp]
theorem fail_ne_ok {cause : Cause} {value : α} : fail cause ≠ .ok value := nofun

/-- Both attempts fail in the same way, or both succeed with related results. -/
def Agree (related : α → β → Prop) : Attempt α → Attempt β → Prop
  | .ok result, .ok other => related result other
  | .error failure, .error failure' => failure = failure'
  | _, _ => False

theorem agree_self {related : α → α → Prop} {attempt : Attempt α}
    (relates : ∀ result, attempt = .ok result → related result result) :
    Agree related attempt attempt := by
  cases attempt with
  | error failure => exact rfl
  | ok result => exact relates result rfl

theorem agree_inside {related : α → β → Prop} {attempt : Attempt α} {other : Attempt β}
    (place : Place) (agree : Agree related attempt other) :
    Agree related (inside place attempt) (inside place other) := by
  cases attempt <;> cases other
  · exact congrArg (Failure.within place) agree
  · exact agree
  · exact agree
  · exact agree

theorem agree_bind {related : α → β → Prop} {ending : γ → δ → Prop} {attempt : Attempt α}
    {other : Attempt β} {next : α → Attempt γ} {next' : β → Attempt δ}
    (first : Agree related attempt other)
    (second : ∀ result result', related result result' → Agree ending (next result) (next' result')) :
    Agree ending (attempt >>= next) (other >>= next') := by
  cases attempt <;> cases other
  · exact first
  · exact False.elim first
  · exact False.elim first
  · exact second _ _ first

/-- An attempt that comes to a result or to a refusal, and stops at no number. -/
def Settles (attempt : Attempt α) : Prop := ∀ number, attempt ≠ .error (.notFinite number)

/-- Whether an attempt stops at a number. -/
def isStopped : Attempt α → Bool
  | .error (.notFinite _) => true
  | _ => false

theorem exists_of_isStopped {attempt : Attempt α} (stopped : isStopped attempt) :
    ∃ number, attempt = .error (.notFinite number) := by
  unfold isStopped at stopped
  split at stopped
  · exact ⟨_, rfl⟩
  · cases stopped

@[simp]
theorem settles_ok (value : α) : Settles (.ok value : Attempt α) := nofun

@[simp]
theorem settles_fail (cause : Cause) : Settles (fail cause : Attempt α) := nofun

@[simp]
theorem inside_eq_notFinite {place : Place} {attempt : Attempt α} {number : Float} :
    inside place attempt = .error (.notFinite number) ↔ attempt = .error (.notFinite number) := by
  cases attempt with
  | ok value => exact ⟨nofun, nofun⟩
  | error failure =>
    cases failure with
    | refusal places cause => exact ⟨nofun, nofun⟩
    | notFinite other => exact Iff.rfl

theorem bind_eq_notFinite {attempt : Attempt α} {next : α → Attempt β} {number : Float} :
    (attempt >>= next) = .error (.notFinite number) ↔
      attempt = .error (.notFinite number) ∨
        ∃ value, attempt = .ok value ∧ next value = .error (.notFinite number) :=
  bind_eq_error

theorem settles_inside {attempt : Attempt α} (place : Place) (settles : Settles attempt) :
    Settles (inside place attempt) := fun number => by
  rw [ne_eq, inside_eq_notFinite]
  exact settles number

theorem settles_bind {attempt : Attempt α} {next : α → Attempt β} (first : Settles attempt)
    (second : ∀ value, Settles (next value)) : Settles (attempt >>= next) := by
  intro number stopped
  rcases bind_eq_notFinite.mp stopped with early | ⟨value, _, late⟩
  · exact first number early
  · exact second value number late

/-- The failure of an attempt that fails. -/
def failure? : Attempt α → Option Failure
  | .ok _ => none
  | .error failure => some failure

theorem failure?_eq_some {attempt : Attempt α} {failure : Failure} :
    failure? attempt = some failure ↔ attempt = .error failure := by
  cases attempt <;> simp [failure?]

/-- What comes second fails only where what comes first does not. -/
theorem failure?_bind {attempt : Attempt α} {next : α → Attempt β} {later : Option Failure}
    (second : ∀ value, failure? (next value) = later) :
    failure? (attempt >>= next) = (failure? attempt).or later := by
  cases attempt with
  | error failure => rfl
  | ok value => exact second value

theorem failure?_bind_pure (attempt : Attempt α) (finish : α → β) :
    failure? (attempt >>= fun value => pure (finish value)) = failure? attempt := by
  cases attempt <;> rfl

/-- An attempt whose failures are all of one kind. -/
def RefusesAs (kind : Kind) (attempt : Attempt α) : Prop :=
  ∀ failure, attempt = .error failure → failure.kinds = [kind]

theorem refusesAs_ok {kind : Kind} {value : α} : RefusesAs kind (.ok value : Attempt α) := nofun

theorem refusesAs_fail {kind : Kind} {cause : Cause} (caused : cause.kind? = some kind) :
    RefusesAs kind (fail cause : Attempt α) := by
  rintro failure ⟨⟩
  exact Failure.kinds_refusal caused nofun

theorem refusesAs_inside {kind : Kind} {place : Place} {attempt : Attempt α}
    (plain : place.kind? = none) (refuses : RefusesAs kind attempt) :
    RefusesAs kind (inside place attempt) := by
  intro failure failed
  cases attempt with
  | ok value => cases failed
  | error first =>
    cases failed
    rw [Failure.kinds_within plain]
    exact refuses first rfl

theorem refusesAs_bind {kind : Kind} {attempt : Attempt α} {next : α → Attempt β}
    (first : RefusesAs kind attempt) (second : ∀ value, RefusesAs kind (next value)) :
    RefusesAs kind (attempt >>= next) := by
  intro failure failed
  rcases bind_eq_error.mp failed with early | ⟨value, _, late⟩
  · exact first failure early
  · exact second value failure late

theorem refusesAs_map {kind : Kind} {attempt : Attempt α} {next : α → β} (refuses : RefusesAs kind attempt) :
    RefusesAs kind (attempt.map next) := by
  intro failure failed
  cases attempt with
  | ok value => cases failed
  | error =>
    cases failed
    exact refuses _ rfl

/-- One attempt succeeds exactly where another does and something more is allowed, and then with the
same result. -/
def Gated (allowed : Prop) (attempt full : Attempt α) : Prop :=
  ∀ result, attempt = .ok result ↔ full = .ok result ∧ allowed

theorem gated_self {allowed : Prop} (given : allowed) (attempt : Attempt α) :
    Gated allowed attempt attempt := fun _ => (and_iff_left given).symm

theorem gated_congr {allowed permitted : Prop} {attempt full : Attempt α}
    (same : allowed ↔ permitted) (gated : Gated permitted attempt full) :
    Gated allowed attempt full := fun result => by rw [gated result, same]

theorem gated_inside {allowed : Prop} {attempt full : Attempt α} (place : Place)
    (gated : Gated allowed attempt full) :
    Gated allowed (inside place attempt) (inside place full) := fun result => by
  rw [inside_eq_ok, inside_eq_ok, gated result]

theorem gated_bind {allowed permitted : Prop} {attempt full : Attempt α} {next next' : α → Attempt β}
    (first : Gated allowed attempt full)
    (second : ∀ result, Gated permitted (next result) (next' result)) :
    Gated (allowed ∧ permitted) (attempt >>= next) (full >>= next') := by
  intro result
  rw [bind_eq_ok, bind_eq_ok]
  constructor
  · rintro ⟨value, tried, finished⟩
    obtain ⟨tried, given⟩ := (first value).mp tried
    obtain ⟨finished, permits⟩ := (second value result).mp finished
    exact ⟨⟨value, tried, finished⟩, given, permits⟩
  · rintro ⟨⟨value, tried, finished⟩, given, permits⟩
    exact ⟨value, (first value).mpr ⟨tried, given⟩, (second value result).mpr ⟨finished, permits⟩⟩

/-- What follows the gated attempt asks for nothing more. -/
theorem gated_bind_same {allowed : Prop} {attempt full : Attempt α} (gated : Gated allowed attempt full)
    (next : α → Attempt β) : Gated allowed (attempt >>= next) (full >>= next) :=
  gated_congr (and_true allowed).to_iff.symm
    (gated_bind gated fun value => gated_self trivial (next value))

end Attempt

end StepQuery
