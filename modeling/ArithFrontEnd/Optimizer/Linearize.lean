import ArithFrontEnd.Optimizer.Dag

/-!
# Writing a graph as a block

The nodes that have been assigned are computed in the order in which they were first assigned, each
into its first name, and copied from there into the others. A node that has lost all its names is
computed only if another one needs it, into a name of its own. A name whose value on entry is read
after it has been assigned is copied to a safe place at the top of the block.

## Main definitions

* `Dag.needed` — the operands of the nodes that are computed.
* `Dag.freshName` — a name that the block does not have.
* `Dag.surrogate?` — the name that stands in for a node without a name of its own.
* `Dag.linearize` — the block of a graph.
* `optimize`, `optimizeEvents` — the block that does the work of a block, and the log.
-/

namespace ArithFrontEnd

namespace Dag

/-- The operands of the nodes that are computed. Whether a node is computed is decided from the last
one back, because only a later node can need it. -/
def needed (d : Dag) : List NodeId :=
  d.order.foldr (fun id needed =>
    match d.node? id with
    | some ⟨names, .operator _ left right, _⟩ =>
      if names.isEmpty && !needed.contains id then needed else left :: right :: needed
    | _ => needed) []

/-- A name with as many marks after it as it takes to differ from all of these names, of which there
are at most `bound`. -/
def mark (taken : List String) : Nat → String → String
  | 0, name => name
  | bound + 1, name => if taken.contains name then mark taken bound (name ++ "'") else name

/-- A name for a node that the block does not have. -/
def freshName (d : Dag) (id : NodeId) : String :=
  let taken := d.bindings.map (·.1)
  mark taken taken.length (NodeId.text id)

/-- The value that the name has on entry is read in the block. -/
def isInitiallyRead (d : Dag) (name : String) : Bool :=
  d.nodes.any fun node => node.value == .identifier name

/-- The value on entry of a name has to be kept: it is read, and the name gets another value. -/
def isOverwritten (d : Dag) (needed : List NodeId) (id : NodeId) (name : String)
    (names : List String) : Bool :=
  (needed.contains id || !names.isEmpty) && d.lookup name != some id

/-- The name that a value on entry is kept under: the first name that holds it, unless that one's
own value on entry is read too. -/
def snapshotName (d : Dag) (id : NodeId) (names : List String) : String :=
  match names.head? with
  | some first => if d.isInitiallyRead first then d.freshName id else first
  | none => d.freshName id

/-- The name that stands in for a node: for a value on entry that has to be kept, and for a node
without names that another one needs. -/
def surrogate? (d : Dag) (needed : List NodeId) (id : NodeId) : Option String :=
  match d.node? id with
  | some ⟨names, .identifier name, _⟩ =>
    if d.isOverwritten needed id name names then some (d.snapshotName id names) else none
  | some ⟨[], .operator .., _⟩ => if needed.contains id then some (d.freshName id) else none
  | _ => none

/-- How the value of a node is read by an instruction. -/
def nameOf (d : Dag) (needed : List NodeId) (id : NodeId) : String :=
  match d.surrogate? needed id with
  | some name => name
  | none =>
    match d.node? id with
    | some ⟨_, .constant v, literal⟩ => literal.getD v.text
    | some ⟨_, .identifier name, _⟩ => name
    | some ⟨names, .operator .., _⟩ => names.head?.getD (NodeId.text id)
    | none => NodeId.text id

/-- The copy at the top of the block that keeps a value on entry. -/
def snapshot? (d : Dag) (needed : List NodeId) (id : NodeId) : Option (String × String) :=
  match d.node? id with
  | some ⟨_, .identifier name, _⟩ => (d.surrogate? needed id).map fun kept => (name, kept)
  | _ => none

/-- The values on entry that have to be kept, each with the name it is kept under. -/
def snapshots (d : Dag) : List (String × String) :=
  (List.range d.nodes.length).filterMap (d.snapshot? d.needed)

/-- The copies from one name to others. -/
def copies (source : String) (names : List String) : List Quadruple :=
  names.map (Quadruple.copy source)

/-- The instructions that compute a node and give its value to all its names. -/
def instructions (d : Dag) (needed : List NodeId) (id : NodeId) : List Quadruple :=
  match d.node? id with
  | none => []
  | some ⟨names, .operator op left right, _⟩ =>
    match names.head? <|> d.surrogate? needed id with
    | none => []
    | some first =>
      ⟨op, d.nameOf needed left, d.nameOf needed right, first⟩ :: copies first (names.drop 1)
  | some ⟨[], _, _⟩ => []
  | some ⟨first :: others, _, _⟩ =>
    (if d.nameOf needed id = first then [] else [.copy (d.nameOf needed id) first]) ++
      copies first others

/-- The block of a graph. -/
def linearize (d : Dag) : List Quadruple :=
  d.snapshots.map (fun (name, kept) => .copy name kept) ++ d.order.flatMap (d.instructions d.needed)

/-- What the log shows of the values on entry that are kept. -/
def linearizeEvents (d : Dag) : List Log.Event :=
  d.snapshots.map fun (name, kept) => ⟨.debug, s!"snapshot {name} as {kept}"⟩

end Dag

/-- The block that does the work of a block. -/
def optimize (quads : List Quadruple) : Except OptimizeError (List Quadruple) :=
  (Dag.build quads).map Dag.linearize

/-- What the log shows of an optimization. -/
def optimizeEvents (quads : List Quadruple) : List Log.Event :=
  Dag.buildEvents quads ++
    match Dag.build quads with
    | .error _ => []
    | .ok d =>
      d.linearizeEvents ++
        [⟨.debug, s!"{quads.length} quadruples -> {d.linearize.length}"⟩]

end ArithFrontEnd
