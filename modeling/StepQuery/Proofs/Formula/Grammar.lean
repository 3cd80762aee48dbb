import StepQuery.Formula.Reader
import StepQuery.Proofs.Attempt

/-!
The grammar of formulas.

    sum     = product { ("+" | "-") product }
    product = signed { ("*" | "/" | "%") signed }
    signed  = "-" signed | operand
    operand = number | text | column | "(" sum ")"

It is stated over any alphabet in which words are spelled, so that one grammar serves characters and
tokens.  Over tokens the reader finds what the grammar derives and nothing else; its depth suffices for
every list of tokens, so that it fails only where it complains about a token.
-/

namespace StepQuery

deriving instance DecidableEq for Literal

namespace Formula

/-- A formula without the places of its parts. -/
inductive Tree where
  | number (literal : Literal)
  | text (value : String)
  | column (name : String)
  | negate (operand : Tree)
  | binary (operator : Operator) (left right : Tree)
deriving DecidableEq

/-- The negation of a tree.  A negated number is a number. -/
def Tree.negated : Tree → Tree
  | .number literal => .number literal.negate
  | tree => .negate tree

def tree : Formula → Tree
  | .number _ literal => .number literal
  | .text _ value => .text value
  | .column _ name => .column name
  | .negate _ operand => .negate (tree operand)
  | .binary _ operator left right => .binary operator (tree left) (tree right)

theorem tree_negation (start : Nat) (operand : Formula) :
    (negation start operand).tree = operand.tree.negated := by
  cases operand <;> rfl

/-- The levels of the grammar, from the one that binds least. -/
inductive Level where
  | sum
  | product
  | signed
  | operand

section Grammar

variable {Letter : Type}

/-- A tree is derived from a text at a level, given how words are spelled. -/
inductive Derives (spelled : Word → List Letter → Prop) : Level → List Letter → Tree → Prop
  | sum {text tree} (single : Derives spelled .product text tree) : Derives spelled .sum text tree
  | addition {operator first second sign left right} (level : isSum operator = true)
      (former : Derives spelled .sum first left) (between : spelled (.operator operator) sign)
      (latter : Derives spelled .product second right) :
      Derives spelled .sum (first ++ sign ++ second) (.binary operator left right)
  | product {text tree} (single : Derives spelled .signed text tree) :
      Derives spelled .product text tree
  | multiplication {operator first second sign left right} (level : isSum operator = false)
      (former : Derives spelled .product first left) (between : spelled (.operator operator) sign)
      (latter : Derives spelled .signed second right) :
      Derives spelled .product (first ++ sign ++ second) (.binary operator left right)
  | signed {text tree} (single : Derives spelled .operand text tree) : Derives spelled .signed text tree
  | minus {sign text tree} (before : spelled (.operator .subtract) sign)
      (operand : Derives spelled .signed text tree) :
      Derives spelled .signed (sign ++ text) tree.negated
  | number {text literal} (word : spelled (.number literal) text) :
      Derives spelled .operand text (.number literal)
  | text {text value} (word : spelled (.text value) text) : Derives spelled .operand text (.text value)
  | column {text name} (word : spelled (.column name) text) :
      Derives spelled .operand text (.column name)
  | parentheses {before text after tree} (opening : spelled .opening before)
      (inner : Derives spelled .sum text tree) (closing : spelled .closing after) :
      Derives spelled .operand (before ++ text ++ after) tree

/-- A tree that is no operation is derived without a sum or a product. -/
theorem Derives.signed_of_not_binary {spelled : Word → List Letter → Prop} {level : Level}
    {text : List Letter} {tree : Tree} (derived : Derives spelled level text tree)
    (single : ∀ operator left right, tree ≠ .binary operator left right) :
    Derives spelled .signed text tree := by
  induction derived with
  | sum _ inductionHypothesis | product _ inductionHypothesis => exact inductionHypothesis single
  | addition | multiplication => exact absurd rfl (single _ _ _)
  | signed operand _ => exact .signed operand
  | minus before operand _ => exact .minus before operand
  | number word => exact .signed (.number word)
  | text word => exact .signed (.text word)
  | column word => exact .signed (.column word)
  | parentheses opening inner closing _ => exact .signed (.parentheses opening inner closing)

/-- Where no word is spelled by nothing, no formula is. -/
theorem Derives.length_pos {spelled : Word → List Letter → Prop} {level : Level} {text : List Letter}
    {tree : Tree} (derived : Derives spelled level text tree)
    (visible : ∀ {word text}, spelled word text → 0 < text.length) : 0 < text.length := by
  induction derived with
  | sum _ shorter | product _ shorter | signed _ shorter => exact shorter
  | number word | text word | column word => exact visible word
  | addition | multiplication | minus | parentheses => simp only [List.length_append]; omega

end Grammar

/-- Over tokens, a word is spelled by one token. -/
def Token.Is (word : Word) (tokens : List Token) : Prop :=
  ∃ token : Token, tokens = [token] ∧ token.word = word

theorem Derives.used_pos {level : Level} {used : List Token} {tree : Tree}
    (derived : Derives Token.Is level used tree) : 0 < used.length := by
  apply derived.length_pos
  rintro _ _ ⟨token, rfl, _⟩
  exact Nat.one_pos

/-- An operand begins with no operator. -/
theorem Derives.exists_first {used : List Token} {tree : Tree}
    (derived : Derives Token.Is .operand used tree) :
    ∃ token rest, used = token :: rest ∧ ∀ operator, token.word ≠ .operator operator := by
  cases derived with
  | number word | text word | column word =>
    obtain ⟨token, rfl, same⟩ := word
    exact ⟨token, [], rfl, by simp [same]⟩
  | parentheses opening _ _ =>
    obtain ⟨token, rfl, same⟩ := opening
    exact ⟨token, _, rfl, by simp [same]⟩

section Soundness

/-- What the grammar makes of tokens, with the places of the parts: a word stands where its token does,
an operation reaches from its first operand or its sign to its last operand, and parentheses leave no
trace. -/
inductive Reads : Level → List Token → Formula → Prop
  | sum {tokens formula} (single : Reads .product tokens formula) : Reads .sum tokens formula
  | addition {operator first second token left right} (level : isSum operator = true)
      (former : Reads .sum first left) (between : token.word = .operator operator)
      (latter : Reads .product second right) :
      Reads .sum (first ++ [token] ++ second) (combine operator left right)
  | product {tokens formula} (single : Reads .signed tokens formula) : Reads .product tokens formula
  | multiplication {operator first second token left right} (level : isSum operator = false)
      (former : Reads .product first left) (between : token.word = .operator operator)
      (latter : Reads .signed second right) :
      Reads .product (first ++ [token] ++ second) (combine operator left right)
  | signed {tokens formula} (single : Reads .operand tokens formula) : Reads .signed tokens formula
  | minus {token tokens formula} (before : token.word = .operator .subtract)
      (operand : Reads .signed tokens formula) :
      Reads .signed ([token] ++ tokens) (negation token.span.offset formula)
  | number {token literal} (word : token.word = .number literal) :
      Reads .operand [token] (.number token.span literal)
  | text {token value} (word : token.word = .text value) :
      Reads .operand [token] (.text token.span value)
  | column {token name} (word : token.word = .column name) :
      Reads .operand [token] (.column token.span name)
  | parentheses {first tokens last formula} (opening : first.word = .opening)
      (inner : Reads .sum tokens formula) (closing : last.word = .closing) :
      Reads .operand ([first] ++ tokens ++ [last]) formula

/-- Without the places of its parts a formula is derived. -/
theorem Reads.derives {level : Level} {used : List Token} {formula : Formula}
    (reads : Reads level used formula) : Derives Token.Is level used formula.tree := by
  induction reads with
  | sum _ inductionHypothesis => exact .sum inductionHypothesis
  | addition level _ between _ former latter => exact .addition level former ⟨_, rfl, between⟩ latter
  | product _ inductionHypothesis => exact .product inductionHypothesis
  | multiplication level _ between _ former latter =>
    exact .multiplication level former ⟨_, rfl, between⟩ latter
  | signed _ inductionHypothesis => exact .signed inductionHypothesis
  | minus before _ inductionHypothesis =>
    rw [tree_negation]
    exact .minus ⟨_, rfl, before⟩ inductionHypothesis
  | number word => exact .number ⟨_, rfl, word⟩
  | text word => exact .text ⟨_, rfl, word⟩
  | column word => exact .column ⟨_, rfl, word⟩
  | parentheses opening _ closing inductionHypothesis =>
    exact .parentheses ⟨_, rfl, opening⟩ inductionHypothesis ⟨_, rfl, closing⟩

/-- The tokens up to a rest are read as a formula. -/
def Consumes (level : Level) (tokens : List Token) (formula : Formula) (rest : List Token) : Prop :=
  ∃ used, tokens = used ++ rest ∧ Reads level used formula

/-- The tokens up to a rest carry on what has been read in the tokens before. -/
def CarriesOn (level : Level) (left : Formula) (tokens : List Token) (formula : Formula)
    (rest : List Token) : Prop :=
  ∀ before, Reads level before left →
    ∃ used, tokens = used ++ rest ∧ Reads level (before ++ used) formula

variable {finish : Nat}

mutual

theorem consumes_sum : ∀ {depth : Nat} {tokens rest : List Token} {formula : Formula},
    sum finish depth tokens = .ok (formula, rest) → Consumes .sum tokens formula rest
  | 0, _, _, _, read => nomatch read
  | depth + 1, tokens, rest, formula, read => by
    rw [sum] at read
    obtain ⟨⟨left, later⟩, first, others⟩ := Attempt.bind_eq_ok.mp read
    obtain ⟨used, rfl, reads⟩ := consumes_product first
    obtain ⟨more, rfl, reads⟩ := carriesOn_sumRest others _ (.sum reads)
    exact ⟨used ++ more, (List.append_assoc _ _ _).symm, reads⟩

theorem carriesOn_sumRest : ∀ {depth : Nat} {left formula : Formula} {tokens rest : List Token},
    sumRest finish depth left tokens = .ok (formula, rest) →
      CarriesOn .sum left tokens formula rest
  | 0, _, _, _, _, read => nomatch read
  | depth + 1, left, formula, tokens, rest, read => by
    intro before reads
    unfold sumRest at read
    split at read
    next operator first span others =>
      split at read
      next level =>
        obtain ⟨⟨right, later⟩, second, following⟩ := Attempt.bind_eq_ok.mp read
        obtain ⟨used, rfl, factor⟩ := consumes_product second
        have both : Reads .sum (before ++ [⟨.operator operator, first, span⟩] ++ used)
            (combine operator left right) :=
          .addition level reads rfl factor
        obtain ⟨more, rfl, whole⟩ := carriesOn_sumRest following _ both
        refine ⟨⟨.operator operator, first, span⟩ :: used ++ more, ?_, ?_⟩
        · rw [List.cons_append, List.cons_append, List.append_assoc]
        · simpa using whole
      next =>
        cases read
        exact ⟨[], rfl, by rwa [List.append_nil]⟩
    next =>
      cases read
      exact ⟨[], rfl, by rwa [List.append_nil]⟩

theorem consumes_product : ∀ {depth : Nat} {tokens rest : List Token} {formula : Formula},
    product finish depth tokens = .ok (formula, rest) → Consumes .product tokens formula rest
  | 0, _, _, _, read => nomatch read
  | depth + 1, tokens, rest, formula, read => by
    rw [product] at read
    obtain ⟨⟨left, later⟩, first, others⟩ := Attempt.bind_eq_ok.mp read
    obtain ⟨used, rfl, reads⟩ := consumes_signed first
    obtain ⟨more, rfl, reads⟩ := carriesOn_productRest others _ (.product reads)
    exact ⟨used ++ more, (List.append_assoc _ _ _).symm, reads⟩

theorem carriesOn_productRest : ∀ {depth : Nat} {left formula : Formula} {tokens rest : List Token},
    productRest finish depth left tokens = .ok (formula, rest) →
      CarriesOn .product left tokens formula rest
  | 0, _, _, _, _, read => nomatch read
  | depth + 1, left, formula, tokens, rest, read => by
    intro before reads
    unfold productRest at read
    split at read
    next operator first span others =>
      split at read
      next =>
        cases read
        exact ⟨[], rfl, by rwa [List.append_nil]⟩
      next level =>
        obtain ⟨⟨right, later⟩, second, following⟩ := Attempt.bind_eq_ok.mp read
        obtain ⟨used, rfl, factor⟩ := consumes_signed second
        have both : Reads .product (before ++ [⟨.operator operator, first, span⟩] ++ used)
            (combine operator left right) :=
          .multiplication (Bool.eq_false_iff.mpr level) reads rfl factor
        obtain ⟨more, rfl, whole⟩ := carriesOn_productRest following _ both
        refine ⟨⟨.operator operator, first, span⟩ :: used ++ more, ?_, ?_⟩
        · rw [List.cons_append, List.cons_append, List.append_assoc]
        · simpa using whole
    next =>
      cases read
      exact ⟨[], rfl, by rwa [List.append_nil]⟩

theorem consumes_signed : ∀ {depth : Nat} {tokens rest : List Token} {formula : Formula},
    signed finish depth tokens = .ok (formula, rest) → Consumes .signed tokens formula rest
  | 0, _, _, _, read => nomatch read
  | depth + 1, tokens, rest, formula, read => by
    unfold signed at read
    split at read
    next first span others =>
      obtain ⟨⟨inner, later⟩, after, result⟩ := Attempt.bind_eq_ok.mp read
      cases result
      obtain ⟨used, rfl, reads⟩ := consumes_signed after
      exact ⟨⟨.operator .subtract, first, span⟩ :: used, rfl, .minus rfl reads⟩
    next =>
      obtain ⟨used, rfl, reads⟩ := consumes_operand read
      exact ⟨used, rfl, .signed reads⟩

theorem consumes_operand : ∀ {depth : Nat} {tokens rest : List Token} {formula : Formula},
    operand finish depth tokens = .ok (formula, rest) → Consumes .operand tokens formula rest
  | 0, _, _, _, read => nomatch read
  | depth + 1, tokens, rest, formula, read => by
    unfold operand at read
    split at read
    next => cases read
    next token others =>
      split at read
      next literal word =>
        cases read
        exact ⟨[token], rfl, .number word⟩
      next value word =>
        cases read
        exact ⟨[token], rfl, .text word⟩
      next name word =>
        cases read
        exact ⟨[token], rfl, .column word⟩
      next word =>
        obtain ⟨⟨inner, later⟩, within, result⟩ := Attempt.bind_eq_ok.mp read
        dsimp only at result
        split at result
        next first span behind =>
          cases result
          obtain ⟨used, rfl, reads⟩ := consumes_sum within
          refine ⟨token :: used ++ [⟨.closing, first, span⟩], by simp, ?_⟩
          exact .parentheses word reads rfl
        next => cases result
      all_goals cases read

end

end Soundness

section Completeness

variable {finish : Nat}

/-- No operator of a product comes first. -/
def EndsProduct (rest : List Token) : Prop :=
  ∀ token ∈ rest.head?, ∀ operator, token.word = .operator operator → isSum operator = true

/-- What the reader makes of tokens, whatever follows them, in a depth of four for each.  Sums and
products go on with what follows. -/
def Reaches (finish : Nat) : Level → List Token → Tree → Prop
  | .sum, used, tree => ∀ rest depth, EndsProduct rest → 4 * used.length ≤ depth →
      ∃ formula later, formula.tree = tree ∧ depth ≤ later + used.length ∧
        sum finish depth (used ++ rest) = sumRest finish later formula rest
  | .product, used, tree => ∀ rest depth, 4 * used.length ≤ depth + 1 →
      ∃ formula later, formula.tree = tree ∧ depth ≤ later + used.length ∧
        product finish depth (used ++ rest) = productRest finish later formula rest
  | .signed, used, tree => ∀ rest depth, 4 * used.length ≤ depth + 2 →
      ∃ formula, formula.tree = tree ∧ signed finish depth (used ++ rest) = .ok (formula, rest)
  | .operand, used, tree => ∀ rest depth, 4 * used.length ≤ depth + 3 →
      ∃ formula, formula.tree = tree ∧ operand finish depth (used ++ rest) = .ok (formula, rest)

theorem sumRest_of_ends {rest : List Token} {depth : Nat} (formula : Formula)
    (ends : ∀ token ∈ rest.head?, ∀ operator, token.word ≠ .operator operator) :
    sumRest finish (depth + 1) formula rest = .ok (formula, rest) := by
  unfold sumRest
  split
  next operator first span others => exact absurd rfl (ends _ rfl operator)
  next => rfl

theorem productRest_of_ends {rest : List Token} {depth : Nat} (formula : Formula)
    (ends : EndsProduct rest) :
    productRest finish (depth + 1) formula rest = .ok (formula, rest) := by
  unfold productRest
  split
  next operator first span others => rw [if_pos (ends _ rfl operator rfl)]
  next => rfl

theorem reaches_of_derives {level : Level} {used : List Token} {tree : Tree}
    (derived : Derives Token.Is level used tree) : Reaches finish level used tree := by
  induction derived with
  | @sum used tree single inductionHypothesis =>
    intro rest depth ends enough
    have present := single.used_pos
    obtain ⟨depth, rfl⟩ : ∃ less, depth = less + 1 := ⟨depth - 1, by omega⟩
    obtain ⟨formula, later, same, deep, read⟩ := inductionHypothesis rest depth (by omega)
    obtain ⟨later, rfl⟩ : ∃ less, later = less + 1 := ⟨later - 1, by omega⟩
    refine ⟨formula, depth, same, by omega, ?_⟩
    rw [sum, read, productRest_of_ends formula ends]
    rfl
  | @addition operator first second sign left right level _ between _ former latter =>
    obtain ⟨⟨_, character, span⟩, rfl, rfl⟩ := between
    intro rest depth ends enough
    simp only [List.length_append, List.length_singleton] at enough ⊢
    have operates : EndsProduct (⟨.operator operator, character, span⟩ :: (second ++ rest)) := by
      rintro _ ⟨⟩ _ ⟨⟩
      exact level
    obtain ⟨formula, later, rfl, deep, read⟩ := former _ depth operates (by omega)
    obtain ⟨later, rfl⟩ : ∃ less, later = less + 1 := ⟨later - 1, by omega⟩
    obtain ⟨other, last, rfl, lastDeep, lastRead⟩ := latter rest later (by omega)
    obtain ⟨last, rfl⟩ : ∃ less, last = less + 1 := ⟨last - 1, by omega⟩
    refine ⟨combine operator formula other, later, rfl, by omega, ?_⟩
    rw [List.append_assoc, List.append_assoc, List.singleton_append, read, sumRest, if_pos level,
      lastRead, productRest_of_ends other ends]
    rfl
  | @product used tree single inductionHypothesis =>
    intro rest depth enough
    have present := single.used_pos
    obtain ⟨depth, rfl⟩ : ∃ less, depth = less + 1 := ⟨depth - 1, by omega⟩
    obtain ⟨formula, same, read⟩ := inductionHypothesis rest depth (by omega)
    refine ⟨formula, depth, same, by omega, ?_⟩
    rw [product, read]
    rfl
  | @multiplication operator first second sign left right level _ between _ former latter =>
    obtain ⟨⟨_, character, span⟩, rfl, rfl⟩ := between
    intro rest depth enough
    simp only [List.length_append, List.length_singleton] at enough ⊢
    obtain ⟨formula, later, rfl, deep, read⟩ :=
      former (⟨.operator operator, character, span⟩ :: (second ++ rest)) depth (by omega)
    obtain ⟨later, rfl⟩ : ∃ less, later = less + 1 := ⟨later - 1, by omega⟩
    obtain ⟨other, rfl, lastRead⟩ := latter rest later (by omega)
    refine ⟨combine operator formula other, later, rfl, by omega, ?_⟩
    rw [List.append_assoc, List.append_assoc, List.singleton_append, read, productRest,
      if_neg (Bool.eq_false_iff.mp level), lastRead]
    rfl
  | @signed used tree derived inductionHypothesis =>
    intro rest depth enough
    have present := derived.used_pos
    obtain ⟨depth, rfl⟩ : ∃ less, depth = less + 1 := ⟨depth - 1, by omega⟩
    obtain ⟨formula, same, read⟩ := inductionHypothesis rest depth (by omega)
    obtain ⟨token, others, rfl, operand⟩ := derived.exists_first
    refine ⟨formula, same, ?_⟩
    rw [← read, List.cons_append, signed]
    rintro first span rest ⟨⟩
    exact operand .subtract rfl
  | @minus sign used tree before _ inductionHypothesis =>
    obtain ⟨⟨_, character, span⟩, rfl, rfl⟩ := before
    intro rest depth enough
    rw [List.length_append, List.length_singleton] at enough
    obtain ⟨depth, rfl⟩ : ∃ less, depth = less + 1 := ⟨depth - 1, by omega⟩
    obtain ⟨formula, rfl, read⟩ := inductionHypothesis rest depth (by omega)
    refine ⟨negation span.offset formula, tree_negation _ _, ?_⟩
    rw [List.append_assoc, List.singleton_append, signed, read]
    rfl
  | number word | text word | column word =>
    obtain ⟨⟨_, character, span⟩, rfl, rfl⟩ := word
    intro rest depth enough
    rw [List.length_singleton] at enough
    obtain ⟨depth, rfl⟩ : ∃ less, depth = less + 1 := ⟨depth - 1, by omega⟩
    exact ⟨_, rfl, rfl⟩
  | @parentheses before used after tree opening _ closing inductionHypothesis =>
    obtain ⟨⟨_, first, start⟩, rfl, rfl⟩ := opening
    obtain ⟨⟨_, last, stop⟩, rfl, rfl⟩ := closing
    intro rest depth enough
    simp only [List.length_append, List.length_singleton] at enough
    obtain ⟨depth, rfl⟩ : ∃ less, depth = less + 1 := ⟨depth - 1, by omega⟩
    have closes : ∀ token ∈ (⟨.closing, last, stop⟩ :: rest : List Token).head?,
        ∀ operator, token.word ≠ .operator operator := by
      rintro _ ⟨⟩ _ ⟨⟩
    obtain ⟨formula, later, rfl, deep, read⟩ := inductionHypothesis (⟨.closing, last, stop⟩ :: rest)
      depth (fun token first operator same => absurd same (closes token first operator)) (by omega)
    obtain ⟨later, rfl⟩ : ∃ less, later = less + 1 := ⟨later - 1, by omega⟩
    refine ⟨formula, rfl, ?_⟩
    rw [List.append_assoc, List.append_assoc, List.singleton_append, List.singleton_append, operand]
    dsimp only
    rw [read, sumRest_of_ends formula closes]
    rfl

end Completeness

section Failures

/-- A failure that says what is wrong at a place of the text. -/
def IsSyntaxError (failure : Failure) : Prop :=
  ∃ problem position, failure = .refusal [] (.formulaSyntax problem position)

theorem Consumes.length_lt {level : Level} {tokens rest : List Token} {formula : Formula}
    (consumes : Consumes level tokens formula rest) : rest.length < tokens.length := by
  obtain ⟨used, rfl, reads⟩ := consumes
  have present := reads.derives.used_pos
  rw [List.length_append]
  omega

variable {finish : Nat} {failure : Failure}

/-! The depth is never used up: each bound below is what a reader leaves to those it calls. -/

mutual

theorem isSyntaxError_sum : ∀ {depth : Nat} {tokens : List Token},
    4 * tokens.length + 4 ≤ depth → sum finish depth tokens = .error failure → IsSyntaxError failure
  | depth + 1, tokens, enough, failed => by
    rw [sum] at failed
    rcases Attempt.bind_eq_error.mp failed with early | ⟨⟨left, later⟩, first, late⟩
    · exact isSyntaxError_product (by omega) early
    · have shorter := (consumes_product first).length_lt
      exact isSyntaxError_sumRest (by omega) late

theorem isSyntaxError_sumRest : ∀ {depth : Nat} {left : Formula} {tokens : List Token},
    4 * tokens.length + 1 ≤ depth → sumRest finish depth left tokens = .error failure →
      IsSyntaxError failure
  | depth + 1, left, tokens, enough, failed => by
    unfold sumRest at failed
    split at failed
    next operator first span others =>
      rw [List.length_cons] at enough
      split at failed
      next =>
        rcases Attempt.bind_eq_error.mp failed with early | ⟨⟨right, later⟩, second, late⟩
        · exact isSyntaxError_product (by omega) early
        · have shorter := (consumes_product second).length_lt
          exact isSyntaxError_sumRest (by omega) late
      next => cases failed
    next => cases failed

theorem isSyntaxError_product : ∀ {depth : Nat} {tokens : List Token},
    4 * tokens.length + 3 ≤ depth → product finish depth tokens = .error failure →
      IsSyntaxError failure
  | depth + 1, tokens, enough, failed => by
    rw [product] at failed
    rcases Attempt.bind_eq_error.mp failed with early | ⟨⟨left, later⟩, first, late⟩
    · exact isSyntaxError_signed (by omega) early
    · have shorter := (consumes_signed first).length_lt
      exact isSyntaxError_productRest (by omega) late

theorem isSyntaxError_productRest : ∀ {depth : Nat} {left : Formula} {tokens : List Token},
    4 * tokens.length + 1 ≤ depth → productRest finish depth left tokens = .error failure →
      IsSyntaxError failure
  | depth + 1, left, tokens, enough, failed => by
    unfold productRest at failed
    split at failed
    next operator first span others =>
      rw [List.length_cons] at enough
      split at failed
      next => cases failed
      next =>
        rcases Attempt.bind_eq_error.mp failed with early | ⟨⟨right, later⟩, second, late⟩
        · exact isSyntaxError_signed (by omega) early
        · have shorter := (consumes_signed second).length_lt
          exact isSyntaxError_productRest (by omega) late
    next => cases failed

theorem isSyntaxError_signed : ∀ {depth : Nat} {tokens : List Token},
    4 * tokens.length + 2 ≤ depth → signed finish depth tokens = .error failure →
      IsSyntaxError failure
  | depth + 1, tokens, enough, failed => by
    unfold signed at failed
    split at failed
    next first span others =>
      rw [List.length_cons] at enough
      rcases Attempt.bind_eq_error.mp failed with early | ⟨_, _, late⟩
      · exact isSyntaxError_signed (by omega) early
      · cases late
    next => exact isSyntaxError_operand (by omega) failed

theorem isSyntaxError_operand : ∀ {depth : Nat} {tokens : List Token},
    4 * tokens.length + 1 ≤ depth → operand finish depth tokens = .error failure →
      IsSyntaxError failure
  | depth + 1, tokens, enough, failed => by
    unfold operand at failed
    split at failed
    next =>
      cases failed
      exact ⟨_, _, rfl⟩
    next token others =>
      rw [List.length_cons] at enough
      cases word : token.word with
      | number | text | column => simp [word] at failed
      | opening =>
        simp only [word] at failed
        rcases Attempt.bind_eq_error.mp failed with early | ⟨⟨inner, later⟩, within, late⟩
        · exact isSyntaxError_sum (by omega) early
        · dsimp only at late
          split at late
          next => cases late
          next =>
            cases late
            exact ⟨_, _, rfl⟩
      | operator | closing | stray | fault =>
        simp only [word] at failed
        cases failed
        exact ⟨_, _, rfl⟩

end

end Failures

end Formula

end StepQuery
