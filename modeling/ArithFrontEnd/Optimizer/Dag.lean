import ArithFrontEnd.Arithmetic.Numeral
import ArithFrontEnd.Arithmetic.Operator
import ArithFrontEnd.Log
import ArithFrontEnd.Quadruple.Basic

/-!
# The graph of a basic block

A basic block is a sequence of quadruples that are run from the first to the last. Its graph has a
node for every value that the block works with: a constant, the value that a name has on entry, or
an operator applied to the values of two nodes. Equal values share a node, and an operator of
arithmetic between two constants is the constant that it gives. A node knows which names hold its
value.

## Main definitions

* `NodeValue`, `Node`, `Dag` — the values, the nodes and the graph.
* `Malformed`, `OptimizeError` — why a block has no graph.
* `Dag.operand`, `Dag.combine`, `Dag.assign` — the parts of an instruction.
* `Dag.add`, `Dag.build` — the graph after one more quadruple, and of a block.
* `Dag.buildEvents` — what the log shows of the building of a graph.
-/

namespace ArithFrontEnd

/-- The number of a node: its position in the graph. -/
abbrev NodeId := Nat

/-- How messages show a node. -/
def NodeId.text (id : NodeId) : String := s!"${id}"

/-- What a node stands for. -/
inductive NodeValue
  /-- A constant, written or found by folding. -/
  | constant (v : Value)
  /-- The value that a name has on entry to the block. -/
  | identifier (name : String)
  /-- An operator applied to the values of two nodes. -/
  | operator (op : String) (left right : NodeId)
  deriving DecidableEq, Repr

/-- A node of a graph. -/
structure Node where
  /-- The names that hold the value of the node, in order of assignment. -/
  names : List String
  /-- What the node stands for. -/
  value : NodeValue
  /-- How a constant was written first, if it was. -/
  literal : Option String
  deriving DecidableEq, Repr

/-- The constant that a node stands for. -/
def Node.constant? (node : Node) : Option Value :=
  match node.value with
  | .constant v => some v
  | _ => none

/-- The graph of a basic block. -/
structure Dag where
  /-- The nodes in order of their numbers. -/
  nodes : List Node
  /-- The nodes that hold the values of names. The latest binding of a name comes first. -/
  bindings : List (String × NodeId)
  /-- The nodes that have been given a name, in order of the first assignment. -/
  order : List NodeId
  deriving DecidableEq, Repr

/-- In which way a quadruple is no instruction. -/
inductive Malformed
  /-- There is no operator. -/
  | missingOperator
  /-- There is no first operand. -/
  | missingOperand
  /-- There is no result. -/
  | missingResult
  /-- The result is a numeral. -/
  | literalResult
  /-- There is one operand, and the quadruple is no copy. -/
  | unaryOperator
  /-- There are two operands, and the quadruple is a copy. -/
  | binaryCopy
  deriving DecidableEq, Repr

/-- What is said of a quadruple that is no instruction. -/
def Malformed.reason : Malformed → String
  | .missingOperator => "missing operator"
  | .missingOperand => "missing first operand"
  | .missingResult => "missing result"
  | .literalResult => "a literal cannot be assigned"
  | .unaryOperator => "unary operators are not supported"
  | .binaryCopy => "a copy takes one operand"

/-- Why a block has no graph. -/
inductive OptimizeError
  /-- The constant that an operator gives cannot be computed. -/
  | fold (index : Nat) (quad : Quadruple) (cause : OperationError)
  /-- A quadruple is no instruction. -/
  | malformed (index : Nat) (quad : Quadruple) (what : Malformed)
  deriving DecidableEq, Repr

namespace OptimizeError

/-- The position of the quadruple at fault, counted from zero. -/
def index : OptimizeError → Nat
  | fold index _ _ => index
  | malformed index _ _ => index

/-- What is said of a block without a graph. -/
def message : OptimizeError → String
  | fold index quad cause =>
    s!"quadruple #{index} ({quad.line}): cannot fold constants: {cause.message}"
  | malformed index quad what => s!"quadruple #{index} ({quad.line}): {what.reason}"

end OptimizeError

/-- In which way a quadruple is no instruction, if it is none. -/
def Quadruple.malformed? (q : Quadruple) : Option Malformed :=
  if q.op = "" then some .missingOperator
  else if q.operand1 = "" then some .missingOperand
  else if q.result = "" then some .missingResult
  else if Numeral.isNumeral q.result then some .literalResult
  else if q.operand2 = "" then
    if q.op = copyOp then none else some .unaryOperator
  else
    if q.op = copyOp then some .binaryCopy else none

namespace Dag

/-- The graph of the block without quadruples. -/
def empty : Dag := ⟨[], [], []⟩

/-- The node that holds the value of a name. -/
def lookup (d : Dag) (name : String) : Option NodeId := d.bindings.lookup name

/-- The node of a number. -/
def node? (d : Dag) (id : NodeId) : Option Node := d.nodes[id]?

/-- The constant that the node of a number stands for. -/
def constant? (d : Dag) (id : NodeId) : Option Value := (d.node? id).bind Node.constant?

/-- The node that stands for a value. -/
def find? (d : Dag) (value : NodeValue) : Option NodeId :=
  d.nodes.findIdx? fun node => node.value == value

/-- The node that stands for a value, added if there is none. -/
def intern (d : Dag) (value : NodeValue) (literal : Option String) : NodeId × Dag :=
  match d.find? value with
  | some id => (id, d)
  | none => (d.nodes.length, { d with nodes := d.nodes ++ [⟨[], value, literal⟩] })

/-- The node that holds the value of an operand. A name that is not bound gets a node for its value
on entry, and these names hold that value. -/
def resolve (d : Dag) (text : String) (names : List String) : NodeId × Dag :=
  match d.lookup text with
  | some id => (id, d)
  | none =>
    match Numeral.value? text with
    | some v => d.intern (.constant v) (some text)
    | none =>
      (d.nodes.length,
        { d with
          nodes := d.nodes ++ [⟨names, .identifier text, none⟩]
          bindings := (text, d.nodes.length) :: d.bindings })

/-- The node of an operand of an operator. A name that is read here first holds its value. -/
def operand (d : Dag) (text : String) : NodeId × Dag := d.resolve text [text]

/-- The node of the operand of a copy. A name that is read here first is only passed on, and does
not count as holding its value. -/
def copySource (d : Dag) (text : String) : NodeId × Dag := d.resolve text []

/-- The constant that an operator gives, where it is one of arithmetic and both operands are known
constants. -/
def fold? (d : Dag) (op : String) (left right : NodeId) :
    Option (BinaryOp × Value × Value) :=
  match BinaryOp.ofSymbol? op, d.constant? left, d.constant? right with
  | some op, some a, some b => some (op, a, b)
  | _, _, _ => none

/-- The node of an operator applied to two nodes: the constant that it gives, or a node for the
operator. -/
def combine (d : Dag) (op : String) (left right : NodeId) :
    Except OperationError (NodeId × Dag) :=
  match d.fold? op left right with
  | some (op, a, b) => (op.apply a b).map fun v => d.intern (.constant v) none
  | none => .ok (d.intern (.operator op left right) none)

/-- Take a name from the node that holds its value. -/
def unname (d : Dag) (name : String) : Dag :=
  match d.lookup name with
  | some old =>
    { d with nodes := d.nodes.modify old fun node =>
        { node with names := node.names.filter (· ≠ name) } }
  | none => d

/-- Give a name to a node, besides the names it has. -/
def bind (d : Dag) (name : String) (id : NodeId) : Dag where
  nodes := d.nodes.modify id fun node => { node with names := node.names ++ [name] }
  bindings := (name, id) :: d.bindings
  order := if d.order.contains id then d.order else d.order ++ [id]

/-- Give the value of a node to a name, which loses the value it had. -/
def assign (d : Dag) (name : String) (id : NodeId) : Dag := (d.unname name).bind name id

/-- The graph after one more instruction. -/
def add (index : Nat) (d : Dag) (q : Quadruple) : Except OptimizeError Dag :=
  match q.malformed? with
  | some what => .error (.malformed index q what)
  | none =>
    if q.operand2 = "" then
      let (id, d) := d.copySource q.operand1
      .ok (d.assign q.result id)
    else
      let (left, d) := d.operand q.operand1
      let (right, d) := d.operand q.operand2
      match d.combine q.op left right with
      | .error cause => .error (.fold index q cause)
      | .ok (id, d) => .ok (d.assign q.result id)

/-- The graph after more instructions, the first of which has this position. -/
def addAll (index : Nat) (d : Dag) : List Quadruple → Except OptimizeError Dag
  | [] => .ok d
  | q :: qs =>
    match d.add index q with
    | .error e => .error e
    | .ok d => d.addAll (index + 1) qs

/-- The graph of a block. -/
def build (quads : List Quadruple) : Except OptimizeError Dag := empty.addAll 0 quads

/-! ### The log -/

/-- What the log shows of an operator applied to two nodes. -/
def combineEvents (d : Dag) (op : String) (left right : NodeId) : List Log.Event :=
  match d.fold? op left right with
  | some (op, a, b) =>
    match op.apply a b with
    | .ok v => [⟨.debug, s!"fold {a.text} {op.symbol} {b.text} = {v.text}"⟩]
    | .error _ => []
  | none =>
    match d.find? (.operator op left right) with
    | some id =>
      [⟨.debug, s!"reuse {NodeId.text id} for {NodeId.text left} {op} {NodeId.text right}"⟩]
    | none => []

/-- What the log shows of an instruction. -/
def addEvents (d : Dag) (q : Quadruple) : List Log.Event :=
  match q.malformed? with
  | some _ => []
  | none =>
    if q.operand2 = "" then []
    else
      let (left, d) := d.operand q.operand1
      let (right, d) := d.operand q.operand2
      d.combineEvents q.op left right

/-- What the log shows of more instructions, up to the first that has no value. -/
def addAllEvents (d : Dag) : List Quadruple → List Log.Event
  | [] => []
  | q :: qs =>
    d.addEvents q ++
      match d.add 0 q with
      | .error _ => []
      | .ok d => d.addAllEvents qs

/-- What the log shows of the building of a graph. -/
def buildEvents (quads : List Quadruple) : List Log.Event := empty.addAllEvents quads

end Dag

end ArithFrontEnd
