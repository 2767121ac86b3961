import ArithFrontEnd.Optimizer.Dag
import ArithFrontEnd.Quadruple.Execution

/-!
# Symbolic values

What a block computes can be said without running it: the value that a name has at the end is an
expression over the values that names have on entry. Operators of arithmetic between two constants
are computed on the way. The graph of a block holds the same expressions with their common parts
shared; unfolding a node gives its expression back.

## Main definitions

* `SymbolicValue`, `SymbolicValue.apply` — the expressions, and an operator between two of them.
* `SymbolicValue.eval`, `SymbolicValue.operations` — the value of an expression, and the operators
  that occur in it.
* `SymbolicState`, `Quadruple.symbolic`, `symbolicRun` — the expressions after instructions.
* `SymbolicState.Describes` — expressions for the values that an environment holds.
* `Dag.symbolicValues?`, `Dag.symbolic?` — the expressions of the nodes of a graph.

## Main results

* `describes_of_run` — **the values after a run are those of the symbolic values on entry.**
-/

namespace ArithFrontEnd

/-- The value of a name as an expression over the values on entry. -/
inductive SymbolicValue
  /-- A constant. -/
  | constant (v : Value)
  /-- The value that a name has on entry. -/
  | initial (name : String)
  /-- An operator between two values. -/
  | operation (op : String) (left right : SymbolicValue)
  deriving DecidableEq, Repr

namespace SymbolicValue

/-- An operator between two values, computed if it is one of arithmetic between constants. -/
def apply (op : String) (a b : SymbolicValue) : Except OperationError SymbolicValue :=
  match BinaryOp.ofSymbol? op, a, b with
  | some op, .constant a, .constant b => (op.apply a b).map .constant
  | _, a, b => .ok (.operation op a b)

/-- The operators that occur in an expression, each with its operands, and repeatedly if they occur
so. -/
def operations : SymbolicValue → List SymbolicValue
  | constant _ => []
  | initial _ => []
  | operation op left right => operation op left right :: (left.operations ++ right.operations)

/-- The value of an expression in an environment. The left operand is looked at first. -/
def eval (I : Interpretation) (env : Environment) : SymbolicValue → Except ExecutionError Value
  | constant v => .ok v
  | initial name => .ok (env name)
  | operation op left right =>
    match left.eval I env with
    | .error e => .error e
    | .ok a =>
      match right.eval I env with
      | .error e => .error e
      | .ok b => I.apply op a b

end SymbolicValue

/-- The expressions that names stand for. -/
abbrev SymbolicState := String → SymbolicValue

namespace SymbolicState

/-- On entry every name stands for its own value. -/
def initial : SymbolicState := SymbolicValue.initial

/-- The expression that an operand stands for: a numeral stands for itself, and any other text is a
name. -/
def operand (s : SymbolicState) (text : String) : SymbolicValue :=
  match Numeral.value? text with
  | some v => .constant v
  | none => s text

/-- The state in which a name stands for another expression. -/
def set (s : SymbolicState) (name : String) (e : SymbolicValue) : SymbolicState :=
  fun other => if other = name then e else s other

end SymbolicState

/-- The expression that an instruction gives to its result. -/
def Quadruple.symbolicValue (s : SymbolicState) (q : Quadruple) :
    Except OperationError SymbolicValue :=
  if q.op = copyOp then .ok (s.operand q.operand1)
  else SymbolicValue.apply q.op (s.operand q.operand1) (s.operand q.operand2)

/-- The state after an instruction. -/
def Quadruple.symbolic (s : SymbolicState) (q : Quadruple) : Except OperationError SymbolicState :=
  (q.symbolicValue s).map (s.set q.result)

/-- The state after a block. -/
def symbolicRun (s : SymbolicState) : List Quadruple → Except OperationError SymbolicState
  | [] => .ok s
  | q :: qs =>
    match q.symbolic s with
    | .ok s => symbolicRun s qs
    | .error e => .error e

/-! ### Symbolic values and runs -/

section

variable {I : Interpretation} {entry env env' : Environment} {s : SymbolicState}

/-- The expressions, evaluated on entry, are the values that an environment holds. -/
def SymbolicState.Describes (I : Interpretation) (entry : Environment) (s : SymbolicState)
    (env : Environment) : Prop :=
  ∀ name, (s name).eval I entry = .ok (env name)

/-- An operation that has a value is accepted between expressions for its operands. -/
theorem SymbolicValue.eval_apply {op : String} {a b : SymbolicValue} {v w u : Value}
    (ha : a.eval I entry = .ok v) (hb : b.eval I entry = .ok w) (h : I.apply op v w = .ok u) :
    ∃ e, SymbolicValue.apply op a b = .ok e ∧ e.eval I entry = .ok u := by
  unfold SymbolicValue.apply
  split
  · next f v' w' hop =>
    -- Both operands are constants, so that the operation is computed here as it is in the run.
    cases ha
    cases hb
    rw [Interpretation.apply, hop] at h
    dsimp only at h
    split at h
    · next u' hf =>
      cases h
      exact ⟨.constant u, by rw [hf]; rfl, rfl⟩
    · cases h
  · exact ⟨_, rfl, by rw [SymbolicValue.eval, ha, hb]; exact h⟩

namespace SymbolicState.Describes

theorem operand (h : s.Describes I entry env) (text : String) :
    (s.operand text).eval I entry = .ok (env.operand text) := by
  rw [SymbolicState.operand, Environment.operand]
  cases Numeral.value? text with
  | none => exact h text
  | some v => rfl

theorem set (h : s.Describes I entry env) {name : String} {e : SymbolicValue} {v : Value}
    (he : e.eval I entry = .ok v) : (s.set name e).Describes I entry (env.set name v) := by
  intro other
  rw [SymbolicState.set, Environment.set]
  split
  · exact he
  · exact h other

/-- The value of an instruction is that of the expression it gives to its result. -/
theorem symbolicValue (h : s.Describes I entry env) {q : Quadruple} {v : Value}
    (hv : q.value I env = .ok v) :
    ∃ e, q.symbolicValue s = .ok e ∧ e.eval I entry = .ok v := by
  unfold Quadruple.value at hv
  unfold Quadruple.symbolicValue
  split at hv
  · next hcopy =>
    rw [if_pos hcopy, ← hv]
    exact ⟨_, rfl, h.operand q.operand1⟩
  · next hcopy =>
    rw [if_neg hcopy]
    exact SymbolicValue.eval_apply (h.operand q.operand1) (h.operand q.operand2) hv

/-- An instruction that is run gives symbolic values that describe what it leaves behind. -/
theorem symbolic (h : s.Describes I entry env) {q : Quadruple} (hq : q.execute I env = .ok env') :
    ∃ s', q.symbolic s = .ok s' ∧ s'.Describes I entry env' := by
  unfold Quadruple.execute at hq
  split at hq
  · next v hv =>
    cases hq
    obtain ⟨e, he, heval⟩ := h.symbolicValue hv
    exact ⟨s.set q.result e, by rw [Quadruple.symbolic, he]; rfl, h.set heval⟩
  · cases hq

theorem runFrom (h : s.Describes I entry env) {start : Nat} {quads : List Quadruple}
    (hrun : runFrom I start env quads = .ok env') :
    ∃ s', symbolicRun s quads = .ok s' ∧ s'.Describes I entry env' := by
  induction quads generalizing s env start with
  | nil =>
    cases hrun
    exact ⟨s, rfl, h⟩
  | cons q qs ih =>
    obtain ⟨env₁, hq, hqs⟩ := runFrom_cons_eq_ok_iff.1 hrun
    obtain ⟨s₁, hs₁, h₁⟩ := h.symbolic hq
    rw [symbolicRun, hs₁]
    exact ih h₁ hqs

end SymbolicState.Describes

/-- A block that can be run has symbolic values, and evaluated on entry they are the values that the
names have after the block. -/
theorem describes_of_run {quads : List Quadruple} (h : run I entry quads = .ok env) :
    ∃ s, symbolicRun .initial quads = .ok s ∧ s.Describes I entry env :=
  SymbolicState.Describes.runFrom (fun _ => rfl) h

end

/-! ### The expressions of a graph -/

/-- The expression of a node, given those of the nodes before it. -/
def NodeValue.symbolic? (before : List SymbolicValue) : NodeValue → Option SymbolicValue
  | .constant v => some (.constant v)
  | .identifier name => some (.initial name)
  | .operator op left right =>
    match before[left]?, before[right]? with
    | some a, some b => some (.operation op a b)
    | _, _ => none

namespace Dag

/-- The expressions of nodes that come after others; none if a node comes before its operands. -/
def symbolicNodes? (before : List SymbolicValue) : List Node → Option (List SymbolicValue)
  | [] => some before
  | node :: nodes =>
    match node.value.symbolic? before with
    | some e => symbolicNodes? (before ++ [e]) nodes
    | none => none

/-- The expressions of all nodes of a graph, in order of their numbers. -/
def symbolicValues? (d : Dag) : Option (List SymbolicValue) := symbolicNodes? [] d.nodes

/-- The expression of a node. -/
def symbolic? (d : Dag) (id : NodeId) : Option SymbolicValue := d.symbolicValues?.bind (·[id]?)

end Dag

end ArithFrontEnd
