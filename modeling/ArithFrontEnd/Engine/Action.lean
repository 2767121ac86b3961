import ArithFrontEnd.Arithmetic.Operator
import ArithFrontEnd.Log

/-!
# Semantic actions

A semantic action is a function on the list of values that were handed to it. The built-in actions
are those of arithmetic; each takes a fixed number of operands.

## Main definitions

* `Action`, `Action.events` — an action, and what it announces.
* `Action.emit`, `Action.assign`, `Action.negate`, `Action.binary` — the built-in actions.
-/

namespace ArithFrontEnd

/-- A semantic action: a value computed from a list of operands, or the reason why there is none. -/
structure Action where
  /-- The value computed from the operands. -/
  run : List Value → Except OperationError Value
  /-- The value is announced to the user. -/
  announces : Bool

namespace Action

/-- An operation on one operand. -/
def unary (operation : Operation) (f : Value → Except OperationError Value) :
    List Value → Except OperationError Value
  | [] => .error (.tooFewOperands operation 1 0)
  | [v] => f v
  | vs => .error (.tooManyOperands operation 1 vs.length)

/-- Announce the only operand, which is the answer of an evaluation. -/
def emit : Action := ⟨unary .emission .ok, true⟩

/-- Pass the only operand on. -/
def assign : Action := ⟨unary .assignment .ok, false⟩

/-- The operand of the opposite sign. The smallest value has no counterpart. -/
def negate : Action where
  run := unary .negation fun v =>
    match Value.ofInt? (-v.toInt) with
    | some w => .ok w
    | none => .error (.overflow .negation)
  announces := false

/-- An operator between two operands. -/
def binary (op : BinaryOp) : Action where
  run
    | [] => .error (.tooFewOperands op.operation 2 0)
    | [_] => .error (.tooFewOperands op.operation 2 1)
    | [a, b] => op.apply a b
    | vs => .error (.tooManyOperands op.operation 2 vs.length)
  announces := false

/-- What is announced when the action is run on these operands. -/
def events (action : Action) (operands : List Value) : List Log.Event :=
  match action.announces, action.run operands with
  | true, .ok v => [⟨.info, s!"Ans = {v.text}"⟩]
  | _, _ => []

end Action

end ArithFrontEnd
