import ArithFrontEnd.Optimizer.Dag

/-!
# Graphs with an index

Whether a constant or an operator has a node already can be found by a search through the nodes. It
is found faster in two tables that are kept beside the graph, one for constants and one for
operators with their operands, where every new node of these kinds is entered.

An operand that is a new name gets a node with that name; a copy, which only passes the value on,
takes the name away again.

## Main definitions

* `IndexedDag` — a graph with its tables.
* `IndexedDag.constant`, `IndexedDag.operator` — the node that a table has, or a new one.
* `IndexedDag.add`, `IndexedDag.build` — the graph after one more quadruple, and of a block.
-/

namespace ArithFrontEnd

/-- The graph of a basic block, with tables of the nodes that constants and operators have. -/
structure IndexedDag where
  /-- The graph. -/
  dag : Dag
  /-- The nodes of constants. -/
  constants : List (Value × NodeId)
  /-- The nodes of operators, each with its operands. -/
  operators : List ((String × NodeId × NodeId) × NodeId)
  deriving DecidableEq, Repr

namespace IndexedDag

/-- The graph of the block without quadruples. -/
def empty : IndexedDag := ⟨.empty, [], []⟩

/-- The number that the next node gets. -/
def next (d : IndexedDag) : NodeId := d.dag.nodes.length

/-- One more node. The tables stay. -/
def append (d : IndexedDag) (node : Node) : IndexedDag :=
  { d with dag := { d.dag with nodes := d.dag.nodes ++ [node] } }

/-- The node of a constant, added if the table has none. -/
def constant (d : IndexedDag) (v : Value) (literal : Option String) : NodeId × IndexedDag :=
  match d.constants.lookup v with
  | some id => (id, d)
  | none =>
    (d.next, { d.append ⟨[], .constant v, literal⟩ with constants := (v, d.next) :: d.constants })

/-- The node of an operator between two nodes, added if the table has none. -/
def operator (d : IndexedDag) (op : String) (left right : NodeId) : NodeId × IndexedDag :=
  match d.operators.lookup (op, left, right) with
  | some id => (id, d)
  | none =>
    (d.next, { d.append ⟨[], .operator op left right, none⟩ with
      operators := ((op, left, right), d.next) :: d.operators })

/-- The node that holds the value of an operand, and whether it is a new one. A name that is not
bound gets a node for its value on entry, and is bound to it. -/
def operand (d : IndexedDag) (text : String) : (NodeId × Bool) × IndexedDag :=
  match d.dag.lookup text with
  | some id => ((id, false), d)
  | none =>
    match Numeral.value? text with
    | some v =>
      let (id, d) := d.constant v (some text)
      ((id, false), d)
    | none =>
      let d' := d.append ⟨[text], .identifier text, none⟩
      ((d.next, true), { d' with dag.bindings := (text, d.next) :: d.dag.bindings })

/-- Take all its names from a node. -/
def clear (d : IndexedDag) (id : NodeId) : IndexedDag :=
  { d with dag.nodes := d.dag.nodes.modify id fun node => { node with names := [] } }

/-- The node that holds the value of the operand of a copy. A new node loses its name. -/
def copySource (d : IndexedDag) (text : String) : NodeId × IndexedDag :=
  let ((id, fresh), d) := d.operand text
  (id, if fresh then d.clear id else d)

/-- The node of an operator applied to two nodes: the constant that it gives, or a node for the
operator. -/
def combine (d : IndexedDag) (op : String) (left right : NodeId) :
    Except OperationError (NodeId × IndexedDag) :=
  match d.dag.fold? op left right with
  | some (op, a, b) => (op.apply a b).map fun v => d.constant v none
  | none => .ok (d.operator op left right)

/-- Give the value of a node to a name, which loses the value it had. -/
def assign (d : IndexedDag) (name : String) (id : NodeId) : IndexedDag :=
  { d with dag := d.dag.assign name id }

/-- The graph after one more instruction. -/
def add (index : Nat) (d : IndexedDag) (q : Quadruple) : Except OptimizeError IndexedDag :=
  match q.malformed? with
  | some what => .error (.malformed index q what)
  | none =>
    if q.operand2 = "" then
      let (id, d) := d.copySource q.operand1
      .ok (d.assign q.result id)
    else
      let ((left, _), d) := d.operand q.operand1
      let ((right, _), d) := d.operand q.operand2
      match d.combine q.op left right with
      | .error cause => .error (.fold index q cause)
      | .ok (id, d) => .ok (d.assign q.result id)

/-- The graph after more instructions, the first of which has this position. -/
def addAll (index : Nat) (d : IndexedDag) : List Quadruple → Except OptimizeError IndexedDag
  | [] => .ok d
  | q :: qs =>
    match d.add index q with
    | .error e => .error e
    | .ok d => d.addAll (index + 1) qs

/-- The graph of a block. -/
def build (quads : List Quadruple) : Except OptimizeError IndexedDag := empty.addAll 0 quads

end IndexedDag

end ArithFrontEnd
