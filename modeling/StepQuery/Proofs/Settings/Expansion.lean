import Mathlib.Data.List.TakeWhile
import StepQuery.Settings.Environment

/-!
Texts that mention variables of the environment.  A text is cut from left to right into mentions and
characters that are copied.  Expanding goes over a text twice, first for the names in braces and then,
in what that gave, for the others, so that the values of the former are gone over as well.  It puts the
value of every variable in the place of its mention exactly when the second pass finds what a pass over
the text itself would find.
-/

namespace StepQuery.Environment

def beginsName (text : List Char) : Bool := text.head?.any isNameStart

/-- Whether a name in front of a text ends there. -/
def endsName (text : List Char) : Bool := text.head?.all (!isNamePart ·)

/-- A part of a text: a character that is copied, or the mention of a variable. -/
inductive Part where
  | copied (character : Char)
  | braced (name : List Char)
  | plain (name : List Char)

/-- Texts that open with a mention. -/
inductive Opens : List Char → Prop
  | braced {name rest} (present : name ≠ []) (closed : '\x7d' ∉ name) :
      Opens ('$' :: '\x7b' :: (name ++ '\x7d' :: rest))
  | plain {rest} (begins : beginsName rest) : Opens ('$' :: rest)

/-- A text cut into parts, from left to right.  A name without braces is as long as it can be. -/
inductive Cut : List Char → List Part → Prop
  | nil : Cut [] []
  | braced {name text parts} (present : name ≠ []) (closed : '\x7d' ∉ name) (later : Cut text parts) :
      Cut ('$' :: '\x7b' :: (name ++ '\x7d' :: text)) (.braced name :: parts)
  | plain {name text parts} (begins : beginsName name) (each : name.all isNamePart)
      (ends : endsName text) (later : Cut text parts) :
      Cut ('$' :: (name ++ text)) (.plain name :: parts)
  | copied {character text parts} (other : ¬Opens (character :: text)) (later : Cut text parts) :
      Cut (character :: text) (.copied character :: parts)

namespace Part

variable (values : String → String)

/-- What stands for a part when every mention is replaced by its value. -/
def filled : Part → List Char
  | .copied character => [character]
  | .braced name | .plain name => (values (String.ofList name)).toList

/-- What stands for a part when names in braces alone are replaced. -/
def unbraced : Part → List Char
  | .copied character => [character]
  | .braced name => (values (String.ofList name)).toList
  | .plain name => '$' :: name

def bracedName? : Part → Option String
  | .braced name => some (String.ofList name)
  | _ => none

def plainName? : Part → Option String
  | .plain name => some (String.ofList name)
  | _ => none

end Part

/-- No dollar sign of a text stands before a name, whatever part of it the text that follows makes. -/
def Inert (follow : List Char) : List Char → Prop
  | [] => True
  | character :: behind =>
    (character = '$' → beginsName (behind ++ follow) = false) ∧ Inert follow behind

/-- Whether going over a part again, once the names in braces are replaced, finds the mention that the
part is and no other. -/
def Part.IsKept (values : String → String) (follow : List Char) : Part → Prop
  | .copied character => Inert follow [character]
  | .braced name => Inert follow (values (String.ofList name)).toList
  | .plain _ => endsName follow

/-- Every part is kept, before what the parts behind it have become. -/
def Undisturbed (values : String → String) : List Part → Prop
  | [] => True
  | part :: later =>
    part.IsKept values (later.flatMap (Part.unbraced values)) ∧ Undisturbed values later

/-- The names that stand behind the dollar signs of a text. -/
def followed : List Char → List String
  | [] => []
  | character :: rest =>
    if character = '$' ∧ beginsName rest then
      String.ofList (rest.takeWhile isNamePart) :: followed rest
    else followed rest

/-! ## Recognised mentions -/

section Recognition

variable {name text : List Char} {character : Char}

theorem isNamePart_of_isNameStart (starts : isNameStart character) : isNamePart character := by
  simp only [isNameStart, isNamePart, Char.isAlphanum, Bool.or_eq_true] at starts ⊢
  exact starts.imp_left .inl

theorem ne_dollar_of_isNamePart (part : isNamePart character) : character ≠ '$' := by
  rintro rfl
  contradiction

theorem exists_of_beginsName (begins : beginsName text) :
    ∃ first rest, text = first :: rest ∧ isNameStart first := by
  cases text with
  | nil => contradiction
  | cons first rest => exact ⟨first, rest, rfl, by simpa [beginsName] using begins⟩

theorem beginsName_append (begins : beginsName name) (text : List Char) : beginsName (name ++ text) := by
  obtain ⟨first, rest, rfl, starts⟩ := exists_of_beginsName begins
  simpa [beginsName] using starts

theorem takeWhile_append_eq_self_iff (each : name.all isNamePart) :
    (name ++ text).takeWhile isNamePart = name ↔ endsName text := by
  rw [List.takeWhile_append_of_pos (List.all_eq_true.mp each), List.append_right_eq_self]
  cases text with
  | nil => simp [endsName]
  | cons first rest => cases named : isNamePart first <;> simp [endsName, named]

theorem braced?_mention (present : name ≠ []) (closed : '\x7d' ∉ name) (text : List Char) :
    braced? ('$' :: '\x7b' :: (name ++ '\x7d' :: text)) = some (String.ofList name, name.length + 3) := by
  have taken : (name ++ '\x7d' :: text).takeWhile (· != '\x7d') = name := by
    rw [List.takeWhile_append_of_pos fun character member => by
      simpa using ne_of_mem_of_not_mem member closed]
    simp
  simp [braced?, taken, present]

theorem exists_name (begins : beginsName text) :
    ∃ name after, text = name ++ after ∧ beginsName name ∧ name.all isNamePart ∧ endsName after := by
  obtain ⟨first, rest, rfl, starts⟩ := exists_of_beginsName begins
  have cut : first :: rest = (first :: rest.takeWhile isNamePart) ++ rest.dropWhile isNamePart := by simp
  have each : (first :: rest.takeWhile isNamePart).all isNamePart := by
    simp [isNamePart_of_isNameStart starts]
  refine ⟨_, _, cut, by simpa [beginsName] using starts, each, ?_⟩
  rw [← takeWhile_append_eq_self_iff each, ← cut,
    List.takeWhile_cons_of_pos (isNamePart_of_isNameStart starts)]

theorem opens_of_braced? {found : String × Nat} (recognised : braced? text = some found) :
    Opens text := by
  unfold braced? at recognised
  split at recognised
  · next rest =>
    dsimp only at recognised
    split at recognised
    · contradiction
    · next bounds =>
      simp only [Bool.or_eq_true, List.isEmpty_iff, beq_iff_eq, not_or] at bounds
      have cut := List.takeWhile_append_dropWhile (p := (· != '\x7d')) (l := rest)
      have stopped := List.head?_dropWhile_not (· != '\x7d') rest
      cases remaining : rest.dropWhile (· != '\x7d') with
      | nil =>
        rw [remaining, List.append_nil] at cut
        exact absurd (congrArg List.length cut) bounds.2
      | cons first behind =>
        rw [remaining] at cut stopped
        obtain rfl : first = '\x7d' := by simpa using stopped
        rw [← cut]
        exact .braced bounds.1 fun member => by simpa using List.mem_takeWhile_imp member
  · contradiction

theorem braced?_eq_none (other : ¬Opens text) : braced? text = none :=
  Option.eq_none_iff_forall_ne_some.mpr fun _ recognised => other (opens_of_braced? recognised)

theorem braced?_eq_none_of_beginsName (begins : beginsName text) : braced? ('$' :: text) = none := by
  obtain ⟨first, rest, rfl, starts⟩ := exists_of_beginsName begins
  unfold braced?
  split
  · next same =>
    cases same
    contradiction
  · rfl

theorem braced?_eq_none_of_isNamePart (part : isNamePart character) (text : List Char) :
    braced? (character :: text) = none := by
  unfold braced?
  split
  · next same =>
    cases same
    contradiction
  · rfl

theorem plain?_mention (begins : beginsName name) (each : name.all isNamePart) (ends : endsName text) :
    plain? ('$' :: (name ++ text)) = some (String.ofList name, name.length + 1) := by
  have taken := (takeWhile_append_eq_self_iff each).mpr ends
  obtain ⟨first, rest, rfl, starts⟩ := exists_of_beginsName begins
  rw [List.cons_append, List.takeWhile_cons_of_pos (isNamePart_of_isNameStart starts),
    List.cons.injEq] at taken
  simp [plain?, starts, taken.2]

theorem plain?_eq_none (other : character = '$' → beginsName text = false) :
    plain? (character :: text) = none := by
  unfold plain?
  split
  · next first rest same =>
    cases same
    simpa [beginsName] using other rfl
  · rfl

end Recognition

section Passes

variable {recognise? : List Char → Option (String × Nat)} {values : String → String}
  {text result : List Char} {names : List String}

/-- The value of a variable, with a note of its name. -/
def noting (values : String → String) (name : String) : StateM (List String) String := do
  modify (· ++ [name])
  return values name

/-- What a pass puts in the place of a mention. -/
def replacement (values : String → String) (name : String) : StateM (List String) (List Char) := do
  return (← noting values name).toList

theorem replacement_run (values : String → String) (name : String) (asked : List String) :
    (replacement values name).run asked = pure ((values name).toList, asked ++ [name]) := rfl

/-- Replacing what is recognised in a text gives a text, and asks for variables one after the other. -/
def Passes (recognise? : List Char → Option (String × Nat)) (values : String → String)
    (text result : List Char) (names : List String) : Prop :=
  ∀ asked, (replace recognise? (replacement values) 0 text).run asked = pure (result, asked ++ names)

theorem replace_skip {m : Type → Type} [Monad m] {α : Type} (recognise? : List Char → Option (α × Nat))
    (meaning : α → m (List Char)) (skip : Nat) (text : List Char) :
    replace recognise? meaning skip text = replace recognise? meaning 0 (text.drop skip) := by
  induction text generalizing skip with
  | nil => rw [List.drop_nil, replace, replace]
  | cons character rest inductionHypothesis =>
    cases skip with
    | zero => rfl
    | succ skip => rw [replace, inductionHypothesis, List.drop_succ_cons]

theorem passes_nil : Passes recognise? values [] [] [] := by
  intro asked
  rw [replace, List.append_nil]
  rfl

theorem Passes.copied {character : Char} (passes : Passes recognise? values text result names)
    (other : recognise? (character :: text) = none) :
    Passes recognise? values (character :: text) (character :: result) names := by
  intro asked
  rw [replace, other]
  simp [passes asked]

theorem Passes.replaced {name : String} {spelling : List Char}
    (passes : Passes recognise? values text result names) (present : spelling ≠ [])
    (found : recognise? (spelling ++ text) = some (name, spelling.length)) :
    Passes recognise? values (spelling ++ text) ((values name).toList ++ result) (name :: names) := by
  intro asked
  obtain ⟨first, others, rfl⟩ := List.exists_cons_of_ne_nil present
  have behind : (others ++ text).drop ((first :: others).length - 1) = text := by simp
  rw [List.cons_append] at found ⊢
  rw [replace, found]
  dsimp only
  rw [replace_skip, behind]
  simp [replacement_run, passes (asked ++ [name])]

end Passes

section Following

variable {values : String → String} {name text result follow inserted : List Char}
  {names : List String}

theorem followed_append_name (each : name.all isNamePart) : followed (name ++ text) = followed text := by
  induction name with
  | nil => rfl
  | cons character rest inductionHypothesis =>
    simp only [List.all_cons, Bool.and_eq_true] at each
    rw [List.cons_append, followed, if_neg fun ⟨dollar, _⟩ => ne_dollar_of_isNamePart each.1 dollar,
      inductionHypothesis each.2]

theorem followed_mention (begins : beginsName name) (each : name.all isNamePart) (text : List Char) :
    followed ('$' :: (name ++ text)) =
      String.ofList ((name ++ text).takeWhile isNamePart) :: followed text := by
  rw [followed, if_pos ⟨rfl, beginsName_append begins text⟩, followed_append_name each]

/-- What an inserted text adds to the names behind dollar signs. -/
theorem exists_followed_append (follow inserted : List Char) :
    ∃ added, followed (inserted ++ follow) = added ++ followed follow ∧
      (added = [] ↔ Inert follow inserted) := by
  induction inserted with
  | nil => exact ⟨[], rfl, by simp [Inert]⟩
  | cons character behind inductionHypothesis =>
    obtain ⟨added, same, empty⟩ := inductionHypothesis
    rw [List.cons_append, followed, Inert, ← empty]
    split
    · next mentioned => exact ⟨_ :: added, by rw [same, List.cons_append], by simp [mentioned]⟩
    · next other =>
      refine ⟨added, same, ?_⟩
      simp only [not_and, Bool.not_eq_true] at other
      exact (and_iff_right other).symm

theorem inert_of_followed (same : followed (inserted ++ follow) = names)
    (enough : names.length ≤ (followed follow).length) :
    Inert follow inserted ∧ followed follow = names := by
  obtain ⟨added, split, empty⟩ := exists_followed_append follow inserted
  subst same
  rw [split, List.length_append] at enough
  obtain rfl : added = [] := List.eq_nil_of_length_eq_zero (by omega)
  exact ⟨empty.mp rfl, split.symm⟩

/-- The second pass asks for the names behind dollar signs. -/
theorem exists_passes_plain (values : String → String) (text : List Char) :
    ∃ result, Passes plain? values text result (followed text) := by
  induction length : text.length using Nat.strong_induction_on generalizing text with
  | _ bound inductionHypothesis =>
    subst length
    cases text with
    | nil => exact ⟨[], passes_nil⟩
    | cons character rest =>
      rw [followed]
      split
      · next mentioned =>
        obtain ⟨rfl, begins⟩ := mentioned
        obtain ⟨name, after, rfl, begins, each, ends⟩ := exists_name begins
        obtain ⟨result, passes⟩ := inductionHypothesis after.length
          (by simp only [List.length_cons, List.length_append]; omega) after rfl
        rw [(takeWhile_append_eq_self_iff each).mpr ends, followed_append_name each]
        exact ⟨_, passes.replaced (List.cons_ne_nil '$' name) (plain?_mention begins each ends)⟩
      · next other =>
        obtain ⟨result, passes⟩ := inductionHypothesis rest.length (Nat.lt_succ_self _) rest rfl
        exact ⟨_, passes.copied (plain?_eq_none (by simpa using other))⟩

/-- The first pass goes over names without braces. -/
theorem Passes.copied_name (passes : Passes braced? values text result names)
    (each : name.all isNamePart) : Passes braced? values (name ++ text) (name ++ result) names := by
  induction name with
  | nil => exact passes
  | cons character rest inductionHypothesis =>
    simp only [List.all_cons, Bool.and_eq_true] at each
    exact (inductionHypothesis each.2).copied (braced?_eq_none_of_isNamePart each.1 _)

/-- The second pass goes over texts whose dollar signs stand before no name. -/
theorem Passes.copied_inert (passes : Passes plain? values text result names)
    (inert : Inert text inserted) : Passes plain? values (inserted ++ text) (inserted ++ result) names := by
  induction inserted with
  | nil => exact passes
  | cons character behind inductionHypothesis =>
    exact (inductionHypothesis inert.2).copied (plain?_eq_none inert.1)

end Following

section Cutting

variable {values : String → String} {text : List Char} {parts : List Part}

theorem exists_cut (text : List Char) : ∃ parts, Cut text parts := by
  -- A mention is longer than one character, so the induction is on the length.
  induction length : text.length using Nat.strong_induction_on generalizing text with
  | _ bound inductionHypothesis =>
    subst length
    cases text with
    | nil => exact ⟨[], .nil⟩
    | cons character rest =>
      have later : ∀ text, text.length < (character :: rest).length → ∃ parts, Cut text parts :=
        fun text shorter => inductionHypothesis _ shorter text rfl
      by_cases opens : Opens (character :: rest)
      · cases opens with
        | @braced name rest present closed =>
          obtain ⟨parts, cut⟩ := later rest (by simp only [List.length_cons, List.length_append]; omega)
          exact ⟨_, .braced present closed cut⟩
        | plain begins =>
          obtain ⟨name, after, rfl, begins, each, ends⟩ := exists_name begins
          obtain ⟨parts, cut⟩ := later after (by simp only [List.length_cons, List.length_append]; omega)
          exact ⟨_, .plain begins each ends cut⟩
      · obtain ⟨parts, cut⟩ := later rest (Nat.lt_succ_self _)
        exact ⟨_, .copied opens cut⟩

/-- The first pass replaces the names in braces. -/
theorem Cut.passes_braced (cut : Cut text parts) :
    Passes braced? values text (parts.flatMap (Part.unbraced values))
      (parts.filterMap Part.bracedName?) := by
  induction cut with
  | nil => exact passes_nil
  | @braced name text parts present closed later inductionHypothesis =>
    have spelled : '$' :: '\x7b' :: (name ++ '\x7d' :: text) =
        ('$' :: '\x7b' :: (name ++ ['\x7d'])) ++ text := by simp
    have found := braced?_mention present closed text
    rw [spelled] at found ⊢
    exact inductionHypothesis.replaced (List.cons_ne_nil _ _) (by simpa using found)
  | @plain name text parts begins each ends later inductionHypothesis =>
    exact (inductionHypothesis.copied_name each).copied
      (braced?_eq_none_of_beginsName (beginsName_append begins text))
  | copied other later inductionHypothesis => exact inductionHypothesis.copied (braced?_eq_none other)

/-- The second pass replaces the names without braces, if it does not disturb the rest. -/
theorem Cut.passes_plain (cut : Cut text parts) (kept : Undisturbed values parts) :
    Passes plain? values (parts.flatMap (Part.unbraced values)) (parts.flatMap (Part.filled values))
      (parts.filterMap Part.plainName?) := by
  induction cut with
  | nil => exact passes_nil
  | braced present closed later inductionHypothesis =>
    exact (inductionHypothesis kept.2).copied_inert kept.1
  | @plain name text parts begins each ends later inductionHypothesis =>
    exact (inductionHypothesis kept.2).replaced (List.cons_ne_nil '$' name)
      (plain?_mention begins each kept.1)
  | copied other later inductionHypothesis => exact (inductionHypothesis kept.2).copied_inert kept.1

theorem Cut.length_followed (cut : Cut text parts) (values : String → String) :
    (parts.filterMap Part.plainName?).length ≤
      (followed (parts.flatMap (Part.unbraced values))).length := by
  have inserted : ∀ inserted follow, (followed follow).length ≤ (followed (inserted ++ follow)).length := by
    intro inserted follow
    obtain ⟨added, same, -⟩ := exists_followed_append follow inserted
    rw [same, List.length_append]
    exact Nat.le_add_left _ _
  induction cut with
  | nil => exact Nat.le_refl _
  | braced present closed later inductionHypothesis => exact inductionHypothesis.trans (inserted _ _)
  | plain begins each ends later inductionHypothesis =>
    rw [List.flatMap_cons, Part.unbraced, List.cons_append, followed_mention begins each]
    exact Nat.succ_le_succ inductionHypothesis
  | copied other later inductionHypothesis => exact inductionHypothesis.trans (inserted _ _)

/-- Dollar signs stand before no other names than those of the text only if nothing is disturbed. -/
theorem Cut.undisturbed (cut : Cut text parts)
    (same : followed (parts.flatMap (Part.unbraced values)) = parts.filterMap Part.plainName?) :
    Undisturbed values parts := by
  induction cut with
  | nil => trivial
  | braced present closed later inductionHypothesis =>
    obtain ⟨inert, same⟩ := inert_of_followed same (later.length_followed values)
    exact ⟨inert, inductionHypothesis same⟩
  | plain begins each ends later inductionHypothesis =>
    rw [List.flatMap_cons, Part.unbraced, List.cons_append, followed_mention begins each] at same
    obtain ⟨taken, same⟩ := List.cons.inj same
    exact ⟨(takeWhile_append_eq_self_iff each).mp (String.ofList_inj.mp taken), inductionHypothesis same⟩
  | copied other later inductionHypothesis =>
    obtain ⟨inert, same⟩ := inert_of_followed same (later.length_followed values)
    exact ⟨inert, inductionHypothesis same⟩

end Cutting

/-- Noting the variables asked for does not change what they are replaced by. -/
theorem exists_replace_run (recognise? : List Char → Option (String × Nat)) (values : String → String)
    (skip : Nat) (text : List Char) (asked : List String) :
    ∃ names, (replace recognise? (replacement values) skip text).run asked =
      pure (Id.run (replace recognise? (fun name => pure (values name).toList) skip text), names) := by
  induction text generalizing skip asked with
  | nil => exact ⟨asked, by rw [replace, replace]; rfl⟩
  | cons character rest inductionHypothesis =>
    cases skip with
    | succ skip =>
      rw [replace, replace]
      exact inductionHypothesis skip asked
    | zero =>
      rw [replace, replace]
      cases recognise? (character :: rest) with
      | none =>
        obtain ⟨names, same⟩ := inductionHypothesis 0 asked
        exact ⟨names, by simp [same]⟩
      | some found =>
        obtain ⟨names, same⟩ := inductionHypothesis (found.2 - 1) (asked ++ [found.1])
        exact ⟨names, by simp [replacement_run, same]⟩

theorem expand_noting (values : String → String) (text : String) :
    expand (noting values) text = (do
      let unbraced ← replace braced? (replacement values) 0 text.toList
      let result ← replace plain? (replacement values) 0 unbraced
      return String.ofList result) := rfl

theorem expand_of_passes {values : String → String} {text : String} {unbraced result : List Char}
    {names others : List String} (first : Passes braced? values text.toList unbraced names)
    (second : Passes plain? values unbraced result others) :
    (expand (noting values) text).run [] = pure (String.ofList result, names ++ others) := by
  rw [expand_noting]
  simp [first [], second names]

theorem exists_expand_run (values : String → String) (text : String) :
    ∃ names, (expand (noting values) text).run [] =
      pure (Id.run (expand (fun name => pure (values name)) text), names) := by
  obtain ⟨asked, first⟩ := exists_replace_run braced? values 0 text.toList []
  obtain ⟨names, second⟩ := exists_replace_run plain? values 0
    (Id.run (replace braced? (fun name => pure (values name).toList) 0 text.toList)) asked
  refine ⟨names, ?_⟩
  rw [expand_noting]
  simp [first, second, expand]

/-- Every text is cut into parts, and expanding it asks for the variables that it mentions and puts their
values in the place of the mentions exactly when the values of names in braces leave the rest as it is:
no dollar sign comes to stand before a name, and no name without braces is lengthened. -/
theorem expand_verbatim_iff (values : String → String) (text : String) :
    (∃ parts, Cut text.toList parts) ∧
    ∀ parts, Cut text.toList parts →
      ((expand (noting values) text).run [] =
          (String.ofList (parts.flatMap (Part.filled values)),
            parts.filterMap Part.bracedName? ++ parts.filterMap Part.plainName?) ↔
        Undisturbed values parts) ∧
      (Undisturbed values parts →
        Id.run (expand (fun name => pure (values name)) text) =
          String.ofList (parts.flatMap (Part.filled values))) := by
  refine ⟨exists_cut _, fun parts cut => ?_⟩
  have kept_verbatim (kept : Undisturbed values parts) :=
    expand_of_passes cut.passes_braced (cut.passes_plain kept)
  refine ⟨⟨fun verbatim => ?_, kept_verbatim⟩, fun kept => ?_⟩
  · obtain ⟨result, second⟩ := exists_passes_plain values (parts.flatMap (Part.unbraced values))
    have expanded := (expand_of_passes cut.passes_braced second).symm.trans verbatim
    exact cut.undisturbed (List.append_cancel_left (Prod.mk.inj expanded).2)
  · obtain ⟨names, noted⟩ := exists_expand_run values text
    exact (Prod.mk.inj (noted.symm.trans (kept_verbatim kept))).1

/-- A value that ends in a dollar sign is kept before a slash, and the value of a name without braces
whatever it is. -/
theorem expand_verbatim_dollars :
    Cut "$\x7bDIR\x7d/$NAME.".toList
      [.braced ['D', 'I', 'R'], .copied '/', .plain ['N', 'A', 'M', 'E'], .copied '.'] ∧
    (expand (noting fun name => if name = "DIR" then "/srv/$" else if name = "NAME" then "$HOME" else "")
      "$\x7bDIR\x7d/$NAME.").run [] = ("/srv/$/$HOME.", ["DIR", "NAME"]) := by
  have cut : Cut "$\x7bDIR\x7d/$NAME.".toList
      [.braced ['D', 'I', 'R'], .copied '/', .plain ['N', 'A', 'M', 'E'], .copied '.'] := by
    rw [show "$\x7bDIR\x7d/$NAME.".toList =
      ['$', '\x7b', 'D', 'I', 'R', '\x7d', '/', '$', 'N', 'A', 'M', 'E', '.'] by simp]
    refine @Cut.braced ['D', 'I', 'R'] _ _ (by decide) (by decide) (.copied ?_
      (@Cut.plain ['N', 'A', 'M', 'E'] _ _ rfl rfl rfl (.copied ?_ .nil)))
    all_goals rintro ⟨⟩
  refine ⟨cut, (((expand_verbatim_iff _ _).2 _ cut).1.mpr ?kept).trans ?filled⟩
  case kept =>
    simp [Undisturbed, Part.IsKept, Inert, Part.unbraced]
    decide
  case filled => simp [Part.filled, Part.bracedName?, Part.plainName?, List.filterMap]

/-- The value of a name in braces may lengthen the name before it, and its own mentions are replaced. -/
theorem not_expand_verbatim :
    ¬∀ (values : String → String) (text : String) (parts : List Part), Cut text.toList parts →
      Id.run (expand (fun name => pure (values name)) text) =
        String.ofList (parts.flatMap (Part.filled values)) := by
  intro verbatim
  have cut : Cut "$A$\x7bB\x7d".toList [.plain ['A'], .braced ['B']] := by
    rw [show "$A$\x7bB\x7d".toList = ['$', 'A', '$', '\x7b', 'B', '\x7d'] by simp]
    exact @Cut.plain ['A'] _ _ rfl rfl rfl (@Cut.braced ['B'] _ _ (by decide) (by decide) .nil)
  have read := verbatim (fun name => if name = "A" then "/srv" else if name = "B" then "2" else "") _ _ cut
  revert read
  decide

end StepQuery.Environment
