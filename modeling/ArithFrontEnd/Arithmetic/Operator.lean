import ArithFrontEnd.Arithmetic.Value

/-!
# Operators

The four operators of arithmetic, with the ways in which an operation on values can fail. The same
operators serve the evaluation of expressions and the folding of constants.

## Main definitions

* `Operation`, `OperationError` — what can be asked of values, and why it is refused.
* `BinaryOp`, `BinaryOp.exact`, `BinaryOp.apply` — an operator, its integer, and its value.

## Main results

* `BinaryOp.apply_eq_ok_iff` — **an operator has the value of its exact result**, and none if that
  does not fit or the divisor is zero.
-/

namespace ArithFrontEnd

/-- What can be asked of values. -/
inductive Operation
  /-- The sum of two values. -/
  | addition
  /-- The difference of two values. -/
  | subtraction
  /-- The product of two values. -/
  | multiplication
  /-- The quotient of two values. -/
  | division
  /-- The value of the opposite sign. -/
  | negation
  /-- The value itself. -/
  | assignment
  /-- The value itself, announced. -/
  | emission
  deriving DecidableEq, Repr

/-- The name of an operation in messages. -/
def Operation.name : Operation → String
  | .addition => "addition"
  | .subtraction => "subtraction"
  | .multiplication => "multiplication"
  | .division => "division"
  | .negation => "negation"
  | .assignment => "assignment"
  | .emission => "emit"

/-- Why an operation has no value. -/
inductive OperationError
  /-- Operands are missing. -/
  | tooFewOperands (operation : Operation) (expected found : Nat)
  /-- There are more operands than the operation takes. -/
  | tooManyOperands (operation : Operation) (expected found : Nat)
  /-- The divisor is zero. -/
  | divisionByZero
  /-- The exact result is not a value. -/
  | overflow (operation : Operation)
  deriving DecidableEq, Repr

/-- What is said of an operation without a value. -/
def OperationError.message : OperationError → String
  | .tooFewOperands operation expected found =>
    s!"too few operands for {operation.name}: expected {expected}, found {found}"
  | .tooManyOperands operation expected found =>
    s!"too many operands for {operation.name}: expected {expected}, found {found}"
  | .divisionByZero => "division by zero"
  | .overflow operation => s!"integer overflow in {operation.name}"

/-- An operator between two operands. -/
inductive BinaryOp
  /-- Addition. -/
  | add
  /-- Subtraction. -/
  | sub
  /-- Multiplication. -/
  | mul
  /-- Division. -/
  | div
  deriving DecidableEq, Repr

namespace BinaryOp

/-- The operator written `s`. -/
def ofSymbol? (s : String) : Option BinaryOp :=
  if s = "+" then some .add
  else if s = "-" then some .sub
  else if s = "*" then some .mul
  else if s = "/" then some .div
  else none

/-- How an operator is written. -/
def symbol : BinaryOp → String
  | .add => "+"
  | .sub => "-"
  | .mul => "*"
  | .div => "/"

/-- What the operator asks of its operands. -/
def operation : BinaryOp → Operation
  | .add => .addition
  | .sub => .subtraction
  | .mul => .multiplication
  | .div => .division

/-- The result among the unbounded integers; a quotient is rounded toward zero. -/
def exact : BinaryOp → Int → Int → Int
  | .add, a, b => a + b
  | .sub, a, b => a - b
  | .mul, a, b => a * b
  | .div, a, b => a.tdiv b

/-- Apply an operator to two values. -/
def apply (op : BinaryOp) (a b : Value) : Except OperationError Value :=
  if op = .div ∧ b = 0 then
    .error .divisionByZero
  else
    match Value.ofInt? (op.exact a.toInt b.toInt) with
    | some v => .ok v
    | none => .error (.overflow op.operation)

@[simp] theorem ofSymbol?_symbol (op : BinaryOp) : ofSymbol? op.symbol = some op := by
  cases op <;> rfl

theorem ofSymbol?_eq_some_iff {s : String} {op : BinaryOp} :
    ofSymbol? s = some op ↔ s = op.symbol := by
  constructor
  · intro h
    simp only [ofSymbol?] at h
    repeat' split at h
    all_goals first | contradiction | (cases h; assumption)
  · rintro rfl
    exact ofSymbol?_symbol op

/-- An operator has the value of its exact result, unless that does not fit or the divisor is
zero. -/
theorem apply_eq_ok_iff {op : BinaryOp} {a b v : Value} :
    op.apply a b = .ok v ↔ ¬ (op = .div ∧ b = 0) ∧ v.toInt = op.exact a.toInt b.toInt := by
  unfold apply
  split
  · next h => simp [h]
  · next h =>
    simp only [h, not_false_eq_true, true_and, ← Value.ofInt?_eq_some_iff]
    cases Value.ofInt? (op.exact a.toInt b.toInt) <;> simp

end BinaryOp

end ArithFrontEnd
