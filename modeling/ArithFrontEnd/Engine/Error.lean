import ArithFrontEnd.Arithmetic.Operator

/-!
# Why a parse fails

An input is rejected because its tokens do not fit the grammar, because a value cannot be computed,
or because predictions and actions do not fit together.

## Main definitions

* `Fault` — how predictions and actions fail to fit together.
* `ParseError`, `ParseError.category`, `ParseError.message` — all reasons of a rejection.
-/

namespace ArithFrontEnd

/-- How predictions and actions fail to fit together. Names are as messages show them. -/
inductive Fault
  /-- An action has not been registered. -/
  | unregisteredAction (action : String)
  /-- No cell below an action takes its result. -/
  | noRecipient (action : String)
  /-- The value of a token has no cell to go to. -/
  | noCellBelow
  /-- A cell is to be taken away and there is none. -/
  | emptyStack
  /-- The value of a nonterminal is sent to where no cell is. -/
  | routedOutside (nonterminal : String) (offset : UInt64)
  /-- A nonterminal to be expanded has several values. -/
  | carriedValues (nonterminal : String) (count : Nat)
  /-- A nonterminal that has been read has several values. -/
  | synthesizedValues (nonterminal : String) (count : Nat)
  /-- Tokens are left when nothing is expected. -/
  | leftover (count : Nat)
  /-- The input has been read and no value is left. -/
  | noFinalValue
  /-- The predictions lead in circles. -/
  | stepLimit (steps : Nat)
  deriving DecidableEq, Repr

/-- What is said of a fault. -/
def Fault.message : Fault → String
  | .unregisteredAction action => s!"action {action} is not registered"
  | .noRecipient action => s!"no recipient for the result of action {action}"
  | .noCellBelow => "no element below the matched terminal"
  | .emptyStack => "analysis stack is unexpectedly empty"
  | .routedOutside nonterminal offset =>
    s!"inherited attribute of {nonterminal} is routed outside of the stack (offset = {offset})"
  | .carriedValues nonterminal count => s!"{nonterminal} carries {count} values"
  | .synthesizedValues nonterminal count =>
    s!"synthesized attribute of {nonterminal} has {count} values"
  | .leftover count => s!"analysis stack is exhausted with {count} tokens remaining"
  | .noFinalValue => "the start symbol left no value"
  | .stepLimit steps => s!"no verdict after {steps} steps"

/-- Why an input is rejected. -/
inductive ParseError
  /-- A token stands where another terminal, or the end of the input, is expected. -/
  | unexpectedToken (expected found : String)
  /-- A nonterminal has no right-hand side that fits what comes next. -/
  | noProduction (nonterminal found : String)
  /-- The value of a token is needed and cannot be known. -/
  | unknownValue (token : String)
  /-- An action has no value. -/
  | action (e : OperationError)
  /-- Predictions and actions do not fit together. -/
  | internal (fault : Fault)
  deriving DecidableEq, Repr

/-- What is at fault when an input is rejected. -/
inductive ParseError.Category
  /-- The tokens. -/
  | syntactic
  /-- The values. -/
  | semantic
  /-- The predictions and actions. -/
  | internal
  deriving DecidableEq, Repr

namespace ParseError

/-- What is at fault when an input is rejected. -/
def category : ParseError → Category
  | unexpectedToken .. => .syntactic
  | noProduction .. => .syntactic
  | unknownValue .. => .semantic
  | action .. => .semantic
  | internal .. => .internal

/-- What is said of a rejection. -/
def message : ParseError → String
  | unexpectedToken expected found => s!"syntax error: expected {expected}, but found {found}"
  | noProduction nonterminal found =>
    s!"syntax error: no production of {nonterminal} starts with {found}"
  | unknownValue token => s!"semantic error: the value of `{token}` is unknown"
  | action e => s!"semantic error: {e.message}"
  | internal fault => s!"internal error: {fault.message}"

end ParseError

end ArithFrontEnd
