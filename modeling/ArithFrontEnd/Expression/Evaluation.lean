import ArithFrontEnd.Arithmetic.Numeral
import ArithFrontEnd.Arithmetic.Operator
import ArithFrontEnd.Engine.Error
import ArithFrontEnd.Expression.Descent

/-!
# Evaluating expressions by recursive descent

The value of an expression is found while it is taken from the head of a list of tokens. Operators
associate to the left, and a minus sign in front negates the whole sum after it. The first
difficulty from left to right decides why an expression has no value:

* an identifier has no known value, and neither has a number that is too large;
* a product or quotient is computed as soon as its right factor has been read;
* a sum or difference is computed once the token after its right term shows that the term is
  complete, and a negation once the sum is complete.

## Main definitions

* `Evaluation` — a value with the tokens that follow, or why there is none.
* `valueOfSum`, `valueOfTerm`, `valueOfFactor` — the values of the parts of an expression.
* `value` — the value of a list of tokens that is one expression.
-/

namespace ArithFrontEnd.Expression

/-- How a message shows what comes next: a token, or the end of the input. -/
def shownHead : List Token → String
  | [] => "#"
  | token :: _ => s!"`{token.text}'"

/-- The part of an expression with this name cannot start with what comes next. -/
def cannotStart (part : String) (tokens : List Token) : ParseError :=
  .noProduction part (shownHead tokens)

/-- The value of a part of an expression and the tokens after it, which are fewer than those before
it, or why there is no value. -/
abbrev Evaluation (tokens : List Token) :=
  Except ParseError (Value × { rest : List Token // rest.length < tokens.length })

/-- The value of a part of an expression that may be empty, and the tokens after it. -/
abbrev RestEvaluation (tokens : List Token) :=
  Except ParseError (Value × { rest : List Token // rest.length ≤ tokens.length })

/-- The value of an atom: that of a number which is small enough. -/
def valueOfAtom (token : Token) : Except ParseError Value :=
  match token.kind, Numeral.value? token.text with
  | .number, some v => .ok v
  | _, _ => .error (.unknownValue (shownHead [token]))

/-- The operator of a sum that the token is. -/
def sumOperator? (token : Token) : Option BinaryOp :=
  if isAdditive token then BinaryOp.ofSymbol? token.text else none

/-- The operator of a term that the token is. -/
def termOperator? (token : Token) : Option BinaryOp :=
  if isMultiplicative token then BinaryOp.ofSymbol? token.text else none

/-- The value of an operator between two values. -/
def combine (op : BinaryOp) (a b : Value) : Except ParseError Value :=
  match op.apply a b with
  | .ok v => .ok v
  | .error e => .error (.action e)

/-- The value of the opposite sign. -/
def opposite (v : Value) : Except ParseError Value :=
  match Value.ofInt? (-v.toInt) with
  | some w => .ok w
  | none => .error (.action (.overflow .negation))

/-- The value of a sum with this sign in front. -/
def applySign (sign : BinaryOp) (v : Value) : Except ParseError Value :=
  if sign = .sub then opposite v else .ok v

/-- A term is complete when a sign, a closing parenthesis or the end comes next. -/
def completesTerm : List Token → Bool
  | [] => true
  | token :: _ => (sumOperator? token).isSome || isClosing token

/-- The tokens after a closing parenthesis. -/
def afterClosing : (tokens : List Token) →
    Except ParseError { rest : List Token // rest.length < tokens.length }
  | [] => .error (.unexpectedToken ")" (shownHead []))
  | token :: rest =>
    if isClosing token then .ok ⟨rest, length_lt_cons token rest⟩
    else .error (.unexpectedToken ")" (shownHead (token :: rest)))

mutual

/-- The value of a sum with an optional sign. Messages call it `part`. -/
def valueOfSigned (part : String) (tokens : List Token) : Evaluation tokens :=
  match tokens with
  | [] => .error (cannotStart part [])
  | token :: rest =>
    match sumOperator? token with
    | none => valueOfSum part (token :: rest)
    | some sign =>
      match valueOfSum "E'" rest with
      | .error e => .error e
      | .ok (v, ⟨after, h⟩) =>
        (applySign sign v).map fun w => (w, ⟨after, Nat.lt_succ_of_lt h⟩)
termination_by (tokens.length, 4)

/-- The value of a sum. Messages call it `part`. -/
def valueOfSum (part : String) (tokens : List Token) : Evaluation tokens :=
  match valueOfTerm part tokens with
  | .error e => .error e
  | .ok (v, ⟨after, h⟩) =>
    match valueOfSumRest v after with
    | .error e => .error e
    | .ok (w, ⟨last, h'⟩) => .ok (w, ⟨last, Nat.lt_of_le_of_lt h' h⟩)
termination_by (tokens.length, 3)

/-- The value of a sum whose first terms have the value `left`. -/
def valueOfSumRest (left : Value) (tokens : List Token) : RestEvaluation tokens :=
  match tokens with
  | [] => .ok (left, ⟨[], Nat.le_refl _⟩)
  | token :: rest =>
    match sumOperator? token with
    | none => .ok (left, ⟨token :: rest, Nat.le_refl _⟩)
    | some op =>
      match valueOfTerm "T" rest with
      | .error e => .error e
      | .ok (right, ⟨after, h⟩) =>
        match combine op left right with
        | .error e => .error e
        | .ok v =>
          match valueOfSumRest v after with
          | .error e => .error e
          | .ok (w, ⟨last, h'⟩) =>
            .ok (w, ⟨last, Nat.le_succ_of_le (Nat.le_of_lt (Nat.lt_of_le_of_lt h' h))⟩)
termination_by (tokens.length, 0)

/-- The value of a term. Messages call it `part`. -/
def valueOfTerm (part : String) (tokens : List Token) : Evaluation tokens :=
  match valueOfFactor part tokens with
  | .error e => .error e
  | .ok (v, ⟨after, h⟩) =>
    match valueOfTermRest v after with
    | .error e => .error e
    | .ok (w, ⟨last, h'⟩) => .ok (w, ⟨last, Nat.lt_of_le_of_lt h' h⟩)
termination_by (tokens.length, 2)

/-- The value of a term whose first factors have the value `left`. -/
def valueOfTermRest (left : Value) (tokens : List Token) : RestEvaluation tokens :=
  match tokens with
  | [] => .ok (left, ⟨[], Nat.le_refl _⟩)
  | token :: rest =>
    match termOperator? token with
    | none =>
      if completesTerm (token :: rest) then .ok (left, ⟨token :: rest, Nat.le_refl _⟩)
      else .error (cannotStart "T'" (token :: rest))
    | some op =>
      match valueOfFactor "F" rest with
      | .error e => .error e
      | .ok (right, ⟨after, h⟩) =>
        match combine op left right with
        | .error e => .error e
        | .ok v =>
          match valueOfTermRest v after with
          | .error e => .error e
          | .ok (w, ⟨last, h'⟩) =>
            .ok (w, ⟨last, Nat.le_succ_of_le (Nat.le_of_lt (Nat.lt_of_le_of_lt h' h))⟩)
termination_by (tokens.length, 0)

/-- The value of a factor. Messages call it `part`. -/
def valueOfFactor (part : String) (tokens : List Token) : Evaluation tokens :=
  match tokens with
  | [] => .error (cannotStart part [])
  | token :: rest =>
    if isAtom token then
      (valueOfAtom token).map fun v => (v, ⟨rest, Nat.lt_succ_self _⟩)
    else if isOpening token then
      match valueOfSigned "E" rest with
      | .error e => .error e
      | .ok (v, ⟨inner, h⟩) =>
        match afterClosing inner with
        | .error e => .error e
        | .ok ⟨last, h'⟩ => .ok (v, ⟨last, Nat.lt_succ_of_lt (Nat.lt_trans h' h)⟩)
    else
      .error (cannotStart part (token :: rest))
termination_by (tokens.length, 1)

end

/-- The value of a list of tokens that is one expression. -/
def value (tokens : List Token) : Except ParseError Value :=
  match valueOfSigned "S" tokens with
  | .error e => .error e
  | .ok (v, ⟨[], _⟩) => .ok v
  | .ok (_, ⟨token :: rest, _⟩) => .error (.unexpectedToken "#" (shownHead (token :: rest)))

end ArithFrontEnd.Expression
