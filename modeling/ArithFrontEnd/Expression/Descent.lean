import ArithFrontEnd.Log
import ArithFrontEnd.Source.Token

/-!
# Recognizing expressions by recursive descent

There is a function for each part of an expression, which takes that part from the head of a list of
tokens and answers with the tokens that follow:

* an expression is a term with an optional sign in front, and more terms after signs;
* a term is a factor, and more factors after signs of multiplication or division;
* a factor is an identifier, a number or an expression in parentheses.

## Main definitions

* `Missing`, `DescentError` — in which way and where tokens fail to form an expression.
* `descendSum`, `descendTerm`, `descendFactor` — the parts of an expression.
* `recognize`, `recognizeEvents` — whether the tokens form one expression, and the log.
-/

namespace ArithFrontEnd.Expression

/-- What recursive descent can miss. -/
inductive Missing
  /-- The end of the tokens, after an expression. -/
  | ending
  /-- The closing parenthesis after an expression in parentheses. -/
  | closing
  /-- A factor. -/
  | factor
  deriving DecidableEq, Repr

/-- How a message names what is missing. -/
def Missing.describe : Missing → String
  | .ending => "end of expression"
  | .closing => "')' after expression"
  | .factor => "identifier, number or '('"

/-- Why a list of tokens is not one expression. -/
structure DescentError where
  /-- What is missing. -/
  missing : Missing
  /-- The tokens that were not taken, the one at fault first; none if the tokens end too early. -/
  rest : List Token
  deriving DecidableEq, Repr

namespace DescentError

/-- The token at fault. -/
def found? (e : DescentError) : Option Token := e.rest.head?

/-- The number of the line of the token at fault. -/
def line? (e : DescentError) : Option Nat := e.found?.map (·.line)

/-- What is said of tokens that are not one expression. -/
def message (e : DescentError) : String :=
  match e.found? with
  | some found =>
    s!"Syntax error! Expecting {e.missing.describe}, but got '{found.text}' instead."
  | none => s!"Syntax error! Expecting {e.missing.describe}, but reach end of expression."

end DescentError

/-- The token is a sign of addition or subtraction. -/
def isAdditive (token : Token) : Bool := token.isOneOf .operator ["+", "-"]

/-- The token is a sign of multiplication or division. -/
def isMultiplicative (token : Token) : Bool := token.isOneOf .operator ["*", "/"]

/-- The token is an identifier or a number. -/
def isAtom (token : Token) : Bool := token.kind == .identifier || token.kind == .number

/-- The token opens a parenthesis. -/
def isOpening (token : Token) : Bool := token.isOneOf .delimiter ["("]

/-- The token closes a parenthesis. -/
def isClosing (token : Token) : Bool := token.isOneOf .delimiter [")"]

/-- The tokens after a part of an expression, fewer than those before it. -/
abbrev Descent (tokens : List Token) :=
  Except DescentError { rest : List Token // rest.length < tokens.length }

theorem length_lt_cons (token : Token) (rest : List Token) :
    rest.length < (token :: rest).length :=
  Nat.lt_succ_self _

/-- The tokens after a closing parenthesis. -/
def takeClosing : (tokens : List Token) → Descent tokens
  | [] => .error ⟨.closing, []⟩
  | token :: rest =>
    if isClosing token then .ok ⟨rest, length_lt_cons token rest⟩
    else .error ⟨.closing, token :: rest⟩

mutual

/-- The tokens after an expression. -/
def descendSum (tokens : List Token) : Descent tokens :=
  match tokens with
  | [] => .error ⟨.factor, []⟩
  | token :: rest =>
    if isAdditive token then
      match descendTerm rest with
      | .error e => .error e
      | .ok ⟨after, h⟩ =>
        match descendSumRest after with
        | .error e => .error e
        | .ok ⟨last, h'⟩ => .ok ⟨last, Nat.lt_succ_of_lt (Nat.lt_of_le_of_lt h' h)⟩
    else
      match descendTerm (token :: rest) with
      | .error e => .error e
      | .ok ⟨after, h⟩ =>
        match descendSumRest after with
        | .error e => .error e
        | .ok ⟨last, h'⟩ => .ok ⟨last, Nat.lt_of_le_of_lt h' h⟩
termination_by (tokens.length, 3)

/-- The tokens after the terms that follow the first one of a sum. -/
def descendSumRest (tokens : List Token) :
    Except DescentError { rest : List Token // rest.length ≤ tokens.length } :=
  match tokens with
  | [] => .ok ⟨[], Nat.le_refl _⟩
  | token :: rest =>
    if isAdditive token then
      match descendTerm rest with
      | .error e => .error e
      | .ok ⟨after, h⟩ =>
        match descendSumRest after with
        | .error e => .error e
        | .ok ⟨last, h'⟩ => .ok ⟨last, Nat.le_succ_of_le (Nat.le_of_lt (Nat.lt_of_le_of_lt h' h))⟩
    else
      .ok ⟨token :: rest, Nat.le_refl _⟩
termination_by (tokens.length, 0)

/-- The tokens after a term. -/
def descendTerm (tokens : List Token) : Descent tokens :=
  match descendFactor tokens with
  | .error e => .error e
  | .ok ⟨after, h⟩ =>
    match descendTermRest after with
    | .error e => .error e
    | .ok ⟨last, h'⟩ => .ok ⟨last, Nat.lt_of_le_of_lt h' h⟩
termination_by (tokens.length, 2)

/-- The tokens after the factors that follow the first one of a term. -/
def descendTermRest (tokens : List Token) :
    Except DescentError { rest : List Token // rest.length ≤ tokens.length } :=
  match tokens with
  | [] => .ok ⟨[], Nat.le_refl _⟩
  | token :: rest =>
    if isMultiplicative token then
      match descendFactor rest with
      | .error e => .error e
      | .ok ⟨after, h⟩ =>
        match descendTermRest after with
        | .error e => .error e
        | .ok ⟨last, h'⟩ => .ok ⟨last, Nat.le_succ_of_le (Nat.le_of_lt (Nat.lt_of_le_of_lt h' h))⟩
    else
      .ok ⟨token :: rest, Nat.le_refl _⟩
termination_by (tokens.length, 0)

/-- The tokens after a factor. -/
def descendFactor (tokens : List Token) : Descent tokens :=
  match tokens with
  | [] => .error ⟨.factor, []⟩
  | token :: rest =>
    if isAtom token then
      .ok ⟨rest, Nat.lt_succ_self _⟩
    else if isOpening token then
      match descendSum rest with
      | .error e => .error e
      | .ok ⟨inner, h⟩ =>
        match takeClosing inner with
        | .error e => .error e
        | .ok ⟨last, h'⟩ => .ok ⟨last, Nat.lt_succ_of_lt (Nat.lt_trans h' h)⟩
    else
      .error ⟨.factor, token :: rest⟩
termination_by (tokens.length, 1)

end

/-- Whether the tokens form one expression. -/
def recognize (tokens : List Token) : Except DescentError Unit :=
  match descendSum tokens with
  | .error e => .error e
  | .ok ⟨[], _⟩ => .ok ()
  | .ok ⟨token :: rest, _⟩ => .error ⟨.ending, token :: rest⟩

/-- The tokens that are not taken when the tokens are looked at as one expression. -/
def untaken (tokens : List Token) : List Token :=
  match recognize tokens with
  | .error e => e.rest
  | .ok () => []

/-- What the log shows of a recognition: every token that is taken, and the success. -/
def recognizeEvents (tokens : List Token) : List Log.Event :=
  let taken := tokens.take (tokens.length - (untaken tokens).length)
  taken.map (fun token => ⟨.trace, s!"consume {token.record}"⟩) ++
    match recognize tokens with
    | .ok () => [⟨.info, "Syntax correct."⟩]
    | .error _ => []

end ArithFrontEnd.Expression
