import ArithFrontEnd.Optimizer.Dag

/-!
# Constants that are known

Some names have the same value after a block in whatever environment it is run: those that are
copies of a numeral, and the results of arithmetic between such values. They are found without a
graph, by going through the instructions once and keeping what is known of each name. A name that
gets a value of which nothing is known is forgotten.

An instruction is refused where what is known of its operands has no result. The others that are
refused are those that are no instructions at all.

## Main definitions

* `Knowledge`, `Knowledge.operand` — the values of names and of operands, as far as they are known.
* `Quadruple.folding?`, `Quadruple.known?` — an operation on known values, and a known result.
* `propagate` — what is known after a block.
* `Quadruple.IsMalformed`, `Quadruple.Refused` — why an instruction is refused.
-/

namespace ArithFrontEnd

/-- The values of names, as far as they are known. -/
abbrev Knowledge := String → Option Value

namespace Knowledge

/-- On entry to a block nothing is known. -/
def nothing : Knowledge := fun _ => none

/-- The value of an operand, if it is known: a numeral stands for itself, and any other text is a
name. -/
def operand (k : Knowledge) (text : String) : Option Value :=
  match Numeral.value? text with
  | some v => some v
  | none => k text

/-- What is known when a name has got another value, which may be unknown. -/
def set (k : Knowledge) (name : String) (v : Option Value) : Knowledge :=
  fun other => if other = name then v else k other

end Knowledge

/-- The operation of an instruction and the values that it is applied to, if it is one of arithmetic
and both values are known. -/
def Quadruple.folding? (k : Knowledge) (q : Quadruple) : Option (BinaryOp × Value × Value) :=
  match BinaryOp.ofSymbol? q.op, k.operand q.operand1, k.operand q.operand2 with
  | some op, some a, some b => some (op, a, b)
  | _, _, _ => none

/-- The result of an instruction, if it is known. -/
def Quadruple.known? (k : Knowledge) (q : Quadruple) : Option Value :=
  if q.op = copyOp then k.operand q.operand1
  else
    match q.folding? k with
    | some (op, a, b) => (op.apply a b).toOption
    | none => none

/-- What is known after an instruction. -/
def Quadruple.learn (k : Knowledge) (q : Quadruple) : Knowledge := k.set q.result (q.known? k)

/-- What is known after a block. -/
def propagate (quads : List Quadruple) : Knowledge := quads.foldl Quadruple.learn .nothing

/-- The quadruple is no instruction: a part is missing, a numeral is assigned, there is one operand
and the operator is no copy, or there are two and it is. -/
def Quadruple.IsMalformed (q : Quadruple) : Prop :=
  q.op = "" ∨ q.operand1 = "" ∨ q.result = "" ∨ (∃ v, Numeral.value? q.result = some v) ∨
    (q.operand2 = "" ∧ q.op ≠ copyOp) ∨ (q.operand2 ≠ "" ∧ q.op = copyOp)

/-- Why the quadruple at a position is refused, given what is known before it. -/
inductive Quadruple.Refused (k : Knowledge) (index : Nat) (q : Quadruple) : OptimizeError → Prop
  /-- It is no instruction. -/
  | malformed {what : Malformed} (h : q.IsMalformed) (hwhat : q.malformed? = some what) :
    Refused k index q (.malformed index q what)
  /-- Its operation has no result for the values that are known of its operands. -/
  | fold {op : BinaryOp} {a b : Value} {cause : OperationError} (h : ¬ q.IsMalformed)
    (hop : q.op = op.symbol) (ha : k.operand q.operand1 = some a)
    (hb : k.operand q.operand2 = some b) (hcause : op.apply a b = .error cause) :
    Refused k index q (.fold index q cause)

end ArithFrontEnd
