import ArithFrontEnd.Proofs.Expression.Lexemes
import ArithFrontEnd.Proofs.Expression.Readings

/-!
# Recognition without bounds

Recursive descent carries a proof that the tokens after a part of an expression are fewer.  Without
it, each part has an equation in terms of its own parts, and the bound is a theorem.  The tests are
those of the recursive evaluation.

## Main definitions

* `Outcome`, `outcomeOf` — the tokens past a part, and a descent without its bound.
* `pastSum`, `pastTerm`, `pastFactor` — the parts of an expression.

## Main results

* `pastSum_cons`, `pastTerm_eq`, `pastFactor_cons` — the equations.
* `pastTerms_of_not`, `pastSumRest_of_not` — what becomes of parts that do not come next.
* `recognize_eq` — tokens are one expression if nothing is left of them.
-/

namespace ArithFrontEnd.Expression

/-- The tokens past a part of an expression, or why there is no such part. -/
abbrev Outcome := Except DescentError (List Token)

/-- A descent without its bound for the tokens that follow. -/
def outcomeOf {P : List Token → Prop} (e : Except DescentError { rest : List Token // P rest }) :
    Outcome := e.map Subtype.val

/-- The tokens past a sum with an optional sign. -/
def pastSum (tokens : List Token) : Outcome := outcomeOf (descendSum tokens)

/-- The tokens past the terms that follow the first one of a sum. -/
def pastSumRest (tokens : List Token) : Outcome := outcomeOf (descendSumRest tokens)

/-- The tokens past a term. -/
def pastTerm (tokens : List Token) : Outcome := outcomeOf (descendTerm tokens)

/-- The tokens past the factors that follow the first one of a term. -/
def pastTermRest (tokens : List Token) : Outcome := outcomeOf (descendTermRest tokens)

/-- The tokens past a factor. -/
def pastFactor (tokens : List Token) : Outcome := outcomeOf (descendFactor tokens)

/-- The tokens past a closing parenthesis. -/
def pastClosing (tokens : List Token) : Outcome := outcomeOf (takeClosing tokens)

/-- The tokens past a sum without a sign. -/
def pastTerms (tokens : List Token) : Outcome := (pastTerm tokens).bind pastSumRest

/-! ### Bounds -/

variable {token : Token} {tokens rest : List Token}

theorem bound_of_outcomeOf {P : List Token → Prop}
    {e : Except DescentError { rest : List Token // P rest }} (h : outcomeOf e = .ok rest) :
    P rest := by
  cases e with
  | error e => cases h
  | ok result =>
    obtain ⟨rest', hrest⟩ := result
    obtain rfl := Except.ok.inj h
    exact hrest

theorem length_of_pastTerm (h : pastTerm tokens = .ok rest) : rest.length < tokens.length :=
  bound_of_outcomeOf h

theorem length_of_pastFactor (h : pastFactor tokens = .ok rest) : rest.length < tokens.length :=
  bound_of_outcomeOf h

/-! ### Equations -/

/-- A token with one of these texts is an operator if all of them are. -/
theorem isSome_operator? {symbols : List String}
    (h : ∀ symbol ∈ symbols, (BinaryOp.ofSymbol? symbol).isSome = true) :
    (if token.isOneOf .operator symbols then BinaryOp.ofSymbol? token.text else none).isSome =
      token.isOneOf .operator symbols := by
  split
  · next hone =>
    rw [hone]
    exact h token.text (isOneOf_iff.1 hone).2
  · next hone => rw [Bool.eq_false_iff.2 hone, Option.isSome_none]

/-- A sign of addition or subtraction is the operator of a sum. -/
theorem isAdditive_eq (token : Token) : isAdditive token = (sumOperator? token).isSome :=
  (isSome_operator? (by decide)).symm

/-- A sign of multiplication or division is the operator of a term. -/
theorem isMultiplicative_eq (token : Token) :
    isMultiplicative token = (termOperator? token).isSome :=
  (isSome_operator? (by decide)).symm

theorem pastClosing_nil : pastClosing [] = .error ⟨.closing, []⟩ := rfl

theorem pastClosing_cons (token : Token) (rest : List Token) :
    pastClosing (token :: rest) =
      if isClosing token then .ok rest else .error ⟨.closing, token :: rest⟩ := by
  rw [pastClosing, takeClosing]
  split <;> rfl

theorem pastTerms_eq (tokens : List Token) :
    pastTerms tokens =
      match descendTerm tokens with
      | .error d => .error d
      | .ok ⟨after, _⟩ => outcomeOf (descendSumRest after) := by
  rw [pastTerms, pastTerm]
  rcases descendTerm tokens with d | ⟨after, h⟩ <;> rfl

theorem pastSumRest_nil : pastSumRest [] = .ok [] := by
  rw [pastSumRest, descendSumRest]
  rfl

theorem pastSumRest_cons (token : Token) (rest : List Token) :
    pastSumRest (token :: rest) =
      match sumOperator? token with
      | none => .ok (token :: rest)
      | some _ => pastTerms rest := by
  rw [pastSumRest, descendSumRest, isAdditive_eq]
  cases sumOperator? token with
  | none => rfl
  | some op =>
    simp only [Option.isSome_some, if_true, pastTerms_eq]
    rcases descendTerm rest with d | ⟨after, h⟩
    · rfl
    · dsimp only
      cases descendSumRest after <;> rfl

theorem pastSum_nil : pastSum [] = .error ⟨.factor, []⟩ := by
  rw [pastSum, descendSum]
  rfl

theorem pastSum_cons (token : Token) (rest : List Token) :
    pastSum (token :: rest) =
      match sumOperator? token with
      | none => pastTerms (token :: rest)
      | some _ => pastTerms rest := by
  rw [pastSum, descendSum, isAdditive_eq]
  cases sumOperator? token with
  | none =>
    simp only [Option.isSome_none, Bool.false_eq_true, if_false, pastTerms_eq]
    rcases descendTerm (token :: rest) with d | ⟨after, h⟩
    · rfl
    · dsimp only
      cases descendSumRest after <;> rfl
  | some op =>
    simp only [Option.isSome_some, if_true, pastTerms_eq]
    rcases descendTerm rest with d | ⟨after, h⟩
    · rfl
    · dsimp only
      cases descendSumRest after <;> rfl

theorem pastTerm_eq (tokens : List Token) :
    pastTerm tokens = (pastFactor tokens).bind pastTermRest := by
  rw [pastTerm, descendTerm, pastFactor]
  rcases descendFactor tokens with d | ⟨after, h⟩
  · rfl
  · simp only [outcomeOf, Except.map, Except.bind, pastTermRest]
    cases descendTermRest after <;> rfl

theorem pastTermRest_nil : pastTermRest [] = .ok [] := by
  rw [pastTermRest, descendTermRest]
  rfl

theorem pastTermRest_cons (token : Token) (rest : List Token) :
    pastTermRest (token :: rest) =
      match termOperator? token with
      | none => .ok (token :: rest)
      | some _ => (pastFactor rest).bind pastTermRest := by
  rw [pastTermRest, descendTermRest, isMultiplicative_eq]
  cases termOperator? token with
  | none => rfl
  | some op =>
    simp only [Option.isSome_some, if_true, pastFactor]
    rcases descendFactor rest with d | ⟨after, h⟩
    · rfl
    · simp only [outcomeOf, Except.map, Except.bind, pastTermRest]
      cases descendTermRest after <;> rfl

theorem pastFactor_nil : pastFactor [] = .error ⟨.factor, []⟩ := by
  rw [pastFactor, descendFactor]
  rfl

theorem pastFactor_cons (token : Token) (rest : List Token) :
    pastFactor (token :: rest) =
      if isAtom token then .ok rest
      else if isOpening token then (pastSum rest).bind pastClosing
      else .error ⟨.factor, token :: rest⟩ := by
  rw [pastFactor, descendFactor]
  split
  · rfl
  · split
    · rw [pastSum]
      rcases descendSum rest with d | ⟨inner, h⟩
      · rfl
      · simp only [outcomeOf, Except.map, Except.bind, pastClosing]
        cases takeClosing inner <;> rfl
    · rfl

/-! ### What comes next -/

theorem pastFactor_of_not (h : ¬ StartsFactor tokens) :
    pastFactor tokens = .error ⟨.factor, tokens⟩ := by
  cases tokens with
  | nil => exact pastFactor_nil
  | cons token rest =>
    rw [startsFactor_cons_iff, not_or] at h
    rw [pastFactor_cons, if_neg h.1, if_neg h.2]

theorem pastTerm_of_not (h : ¬ StartsFactor tokens) :
    pastTerm tokens = .error ⟨.factor, tokens⟩ := by
  rw [pastTerm_eq, pastFactor_of_not h]
  rfl

theorem pastTerms_of_not (h : ¬ StartsFactor tokens) :
    pastTerms tokens = .error ⟨.factor, tokens⟩ := by
  rw [pastTerms, pastTerm_of_not h]
  rfl

/-- Where a term is not complete, no sign comes next. -/
theorem pastSumRest_of_not (h : ¬ completesTerm tokens = true) :
    pastSumRest tokens = .ok tokens := by
  cases tokens with
  | nil => exact absurd rfl h
  | cons token rest =>
    rw [completesTerm, Bool.or_eq_true, not_or, Option.not_isSome_iff_eq_none] at h
    rw [pastSumRest_cons, h.1]

/-- Where a term is not complete, no closing parenthesis comes next. -/
theorem pastClosing_of_not (h : ¬ completesTerm tokens = true) :
    pastClosing tokens = .error ⟨.closing, tokens⟩ := by
  cases tokens with
  | nil => exact absurd rfl h
  | cons token rest =>
    rw [completesTerm, Bool.or_eq_true, not_or] at h
    rw [pastClosing_cons, if_neg h.2]

/-! ### All tokens -/

/-- Tokens are one expression if nothing is left of them. -/
theorem recognize_eq (tokens : List Token) :
    recognize tokens = match pastSum tokens with
      | .error d => .error d
      | .ok [] => .ok ()
      | .ok (token :: rest) => .error ⟨.ending, token :: rest⟩ := by
  rw [recognize, pastSum]
  rcases descendSum tokens with d | ⟨rest, hrest⟩
  · rfl
  · cases rest <;> rfl

end ArithFrontEnd.Expression
