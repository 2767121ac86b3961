import ArithFrontEnd.Arithmetic.Numeral
import ArithFrontEnd.Arithmetic.Operator
import ArithFrontEnd.Quadruple.Basic

/-!
# Running quadruples

A block of quadruples is run in an environment, which says what the names stand for. The operators
of arithmetic have their meaning; what any other operator means is left open and may be nothing at
all. A run stops at the first instruction whose operator has no value.

## Main definitions

* `Environment`, `Interpretation` — what names and operators stand for.
* `Interpretation.apply` — the value of an operator.
* `Quadruple.execute`, `run` — the environment after an instruction and after a block.

## Main results

* `run_append` — a block is run part by part.
-/

namespace ArithFrontEnd

/-- What the names stand for. -/
abbrev Environment := String → Value

namespace Environment

/-- The value of an operand: a numeral stands for itself, and any other text is a name. -/
def operand (env : Environment) (text : String) : Value := (Numeral.value? text).getD (env text)

/-- The environment in which a name stands for another value. -/
def set (env : Environment) (name : String) (v : Value) : Environment :=
  fun other => if other = name then v else env other

@[simp] theorem set_self (env : Environment) (name : String) (v : Value) :
    env.set name v name = v := if_pos rfl

theorem set_of_ne (env : Environment) {name other : String} (v : Value) (ne : other ≠ name) :
    env.set name v other = env other := if_neg ne

end Environment

/-- What operators beyond those of arithmetic stand for: partial functions on values. -/
abbrev Interpretation := String → Value → Value → Option Value

/-- Why an instruction cannot be run. -/
inductive ExecutionError
  /-- An operation of arithmetic has no value. -/
  | operation (e : OperationError)
  /-- Another operator has no value. -/
  | undefined
  deriving DecidableEq, Repr

/-- The value of an operator. -/
def Interpretation.apply (I : Interpretation) (op : String) (a b : Value) :
    Except ExecutionError Value :=
  match BinaryOp.ofSymbol? op with
  | some op =>
    match op.apply a b with
    | .ok v => .ok v
    | .error e => .error (.operation e)
  | none =>
    match I op a b with
    | some v => .ok v
    | none => .error .undefined

/-- The value that an instruction gives to its result. -/
def Quadruple.value (I : Interpretation) (env : Environment) (q : Quadruple) :
    Except ExecutionError Value :=
  if q.op = copyOp then .ok (env.operand q.operand1)
  else I.apply q.op (env.operand q.operand1) (env.operand q.operand2)

/-- The environment after an instruction. -/
def Quadruple.execute (I : Interpretation) (env : Environment) (q : Quadruple) :
    Except ExecutionError Environment :=
  match q.value I env with
  | .ok v => .ok (env.set q.result v)
  | .error e => .error e

/-- Where a run stops, and why: the number of instructions before it, and the error. -/
structure Interruption where
  /-- The number of instructions that have been run. -/
  index : Nat
  /-- Why the next one cannot be run. -/
  error : ExecutionError
  deriving DecidableEq, Repr

/-- The environment after a block whose first instruction has the position `index`. -/
def runFrom (I : Interpretation) (index : Nat) (env : Environment) :
    List Quadruple → Except Interruption Environment
  | [] => .ok env
  | q :: qs =>
    match q.execute I env with
    | .ok env => runFrom I (index + 1) env qs
    | .error e => .error ⟨index, e⟩

/-- The environment after a block. -/
def run (I : Interpretation) (env : Environment) (quads : List Quadruple) :
    Except Interruption Environment := runFrom I 0 env quads

/-- A block is run if its first instruction is and the others are in the environment after it. -/
theorem runFrom_cons_eq_ok_iff {I : Interpretation} {index : Nat} {env env' : Environment}
    {q : Quadruple} {qs : List Quadruple} : runFrom I index env (q :: qs) = .ok env' ↔
      ∃ env₁, q.execute I env = .ok env₁ ∧ runFrom I (index + 1) env₁ qs = .ok env' := by
  rw [runFrom]
  cases q.execute I env with
  | error e => simp
  | ok env₁ => simp

theorem runFrom_append (I : Interpretation) (index : Nat) (env : Environment)
    (qs rs : List Quadruple) :
    runFrom I index env (qs ++ rs) =
      match runFrom I index env qs with
      | .ok env => runFrom I (index + qs.length) env rs
      | .error e => .error e := by
  induction qs generalizing index env with
  | nil => rfl
  | cons q qs ih =>
    rw [List.cons_append, runFrom, runFrom, List.length_cons]
    cases q.execute I env with
    | error e => rfl
    | ok env =>
      have shift : index + (qs.length + 1) = index + 1 + qs.length := by omega
      rw [shift]
      exact ih (index + 1) env

/-- A block is run part by part. -/
theorem run_append (I : Interpretation) (env : Environment) (qs rs : List Quadruple) :
    run I env (qs ++ rs) =
      match run I env qs with
      | .ok env => runFrom I qs.length env rs
      | .error e => .error e := by
  have h := runFrom_append I 0 env qs rs
  rwa [Nat.zero_add] at h

end ArithFrontEnd
