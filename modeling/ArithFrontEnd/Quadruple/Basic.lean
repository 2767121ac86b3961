import ArithFrontEnd.Text.Split

/-!
# Quadruples

A quadruple is an instruction of three-address code: an operator, two operands and the name that the
result is given to. A copy has the operator `=` and no second operand. A quadruple is written as a
line of four fields with commas between them.

## Main definitions

* `Quadruple`, `Quadruple.copy` — the instructions.
* `Quadruple.line` — how a quadruple is written.
* `Quadruple.ofLine`, `QuadrupleError` — how a line is read, and why it may be none.
-/

namespace ArithFrontEnd

/-- An instruction of three-address code. -/
structure Quadruple where
  /-- The operator. -/
  op : String
  /-- The first operand. -/
  operand1 : String
  /-- The second operand; empty in a copy. -/
  operand2 : String
  /-- The name that the result is given to. -/
  result : String
  deriving DecidableEq, Repr

/-- A line that has not four fields. -/
structure QuadrupleError where
  /-- The number of the line, counted from one; zero for a line that stands alone. -/
  line : Nat
  /-- The text of the line. -/
  text : String
  /-- The number of fields that the line has. -/
  fields : Nat
  deriving DecidableEq, Repr

/-- What is said of a line that is no quadruple. -/
def QuadrupleError.message (e : QuadrupleError) : String :=
  s!"line {e.line}: expected 4 comma-separated fields, found {e.fields}: `{e.text}'"

namespace Quadruple

/-- The operator of copies. -/
def copyOp : String := "="

/-- The instruction that gives the value of `source` to `target`. -/
def copy (source target : String) : Quadruple := ⟨copyOp, source, "", target⟩

/-- The fields of a quadruple in order. -/
def fields (q : Quadruple) : List String := [q.op, q.operand1, q.operand2, q.result]

/-- How a quadruple is written. -/
def line (q : Quadruple) : String := String.intercalate "," q.fields

/-- The quadruple of a line with this number. A carriage return at the end of the line does not
count. -/
def ofLine (number : Nat) (text : List Char) : Except QuadrupleError Quadruple :=
  let line := Text.stripReturn text
  match Text.fields ',' line with
  | [op, operand1, operand2, result] =>
    .ok ⟨String.ofList op, String.ofList operand1, String.ofList operand2, String.ofList result⟩
  | fields => .error ⟨number, String.ofList line, fields.length⟩

/-- The quadruple of a line that stands alone. -/
def ofString (text : String) : Except QuadrupleError Quadruple := ofLine 0 text.toList

end Quadruple

end ArithFrontEnd
