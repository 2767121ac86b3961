import ArithFrontEnd.Proofs.Engine.StackShape
import ArithFrontEnd.Proofs.Engine.Verdicts

/-!
# Wirings

A wiring says how many values the parts of a grammar deal with: whether the tokens of a terminal
have a value, whether a nonterminal inherits one, and how many operands an action has.  Whether the
cells of a stack get what they need is counted from the top down, with the values that are on their
way to the cells below.  A right-hand side is wired up if it makes one value of what it inherits.

As long as right-hand sides are wired up and tokens have the values that their terminals promise,
every step keeps the count right, and so no step finds that predictions and actions do not fit
together.  A token without its value leaves the action below without an operand, and there the parse
ends.

## Main definitions

* `Due`, `Due.pass`, `Wiring.flow` — the values on their way, past one cell and past many.
* `Wiring.Wires`, `Wiring.Fits` — a right-hand side is wired up; so is everything that a parser
  uses.
* `Wiring.Balanced`, `Wiring.Starved` — every cell gets what it needs; the action on top lacks one.

## Main results

* `Adds.flow_deliverTo`, `Adds.flow_eq_map`, `flow_receive` — a value that has arrived counts as
  much as one on its way.
* `Balanced.allows_step`, `Starved.step_eq` — what comes of a step.
* `verdict_of_fits` — **what a parse can come to, and when an operand is missing.**
-/

namespace ArithFrontEnd

variable {T N A : Type}

/-- The values that are on their way down from the cells that have been looked at. -/
structure Due where
  /-- The values for the nearest action. -/
  action : Nat
  /-- The values for the nearest nonterminal or place of one. -/
  nonterminal : Nat
  /-- The values for the next cell. -/
  next : Nat
  deriving DecidableEq

/-- How many values the parts of a grammar deal with. -/
structure Wiring (T N A : Type) where
  /-- The tokens of the terminal have a value. -/
  hasValue : T → Bool
  /-- The nonterminal inherits a value. -/
  inherits : N → Bool
  /-- The number of operands of the action, if there is such an action. -/
  operands : A → Option Nat

/-- Nothing is on its way. -/
def Due.nothing : Due := ⟨0, 0, 0⟩

/-- What is on its way after a cell that has collected so many values, if the cell gets what it
needs. -/
def Due.pass (w : Wiring T N A) (due : Due) : CellKind T N A → Nat → Option Due
  | .endMarker, _ => if due.next = 0 then some due else none
  | .terminal t, _ =>
    if due.next = 0 then some { due with next := (w.hasValue t).toNat } else none
  | .nonterminal n, count =>
    if due.next = 0 ∧ count + due.nonterminal = (w.inherits n).toNat then
      some { due with nonterminal := 1 }
    else none
  | .synthesized _, count =>
    if due.next = 0 ∧ count + due.nonterminal = 1 then
      some { due with action := due.action + 1, nonterminal := 0 }
    else none
  | .action a, count =>
    if w.operands a = some (count + due.action + due.next) then some ⟨0, due.nonterminal + 1, 0⟩
    else none

/-- What the cells expect, with the numbers of values that they have collected. -/
def loads (cells : List (Cell T N A)) : List (CellKind T N A × Nat) :=
  cells.map fun cell => (cell.kind, cell.values.length)

@[simp] theorem loads_append (cells below : List (Cell T N A)) :
    loads (cells ++ below) = loads cells ++ loads below := List.map_append

/-- A value that a cell receives is one more in its load. -/
theorem loads_modify (i : Nat) (v : Value) (cells : List (Cell T N A)) :
    loads (cells.modify i (Cell.receive v)) =
      (loads cells).modify i fun (kind, count) => (kind, count + 1) := by
  apply List.ext_getElem?
  intro j
  simp only [loads, List.getElem?_map, List.getElem?_modify]
  cases cells[j]? with
  | none => rfl
  | some cell =>
    split
    · simp [Cell.receive]
    · simp

namespace Wiring

variable {w : Wiring T N A} {due due' : Due} {cells below below' : List (Cell T N A)} {v : Value}

/-- What is on its way after many cells, if each of them gets what it needs. -/
def flow (w : Wiring T N A) (due : Due) : List (CellKind T N A × Nat) → Option Due
  | [] => some due
  | (kind, count) :: rest => (due.pass w kind count).bind fun due => w.flow due rest

theorem flow_append (due : Due) (xs ys : List (CellKind T N A × Nat)) :
    w.flow due (xs ++ ys) = (w.flow due xs).bind fun due => w.flow due ys := by
  induction xs generalizing due with
  | nil => rfl
  | cons x xs ih =>
    obtain ⟨kind, count⟩ := x
    rw [List.cons_append, flow, flow, Option.bind_assoc]
    exact congrArg _ (funext fun due => ih due)

theorem flow_loads_cons (due : Due) (cell : Cell T N A) (below : List (Cell T N A)) :
    w.flow due (loads (cell :: below)) =
      (due.pass w cell.kind cell.values.length).bind fun due => w.flow due (loads below) := rfl

theorem flow_cons_eq_some_iff {cell : Cell T N A} : w.flow due (loads (cell :: below)) = some due' ↔
    ∃ passed, due.pass w cell.kind cell.values.length = some passed ∧
      w.flow passed (loads below) = some due' :=
  Option.bind_eq_some_iff

/-! ### Values that are delivered -/

/-- One more value is on its way to cells that take it: they count it as one of theirs, and the
others let it pass. -/
structure Adds (w : Wiring T N A) (takes : CellKind T N A → Bool) (add : Due → Due) : Prop where
  /-- A cell that takes the value counts it. -/
  absorbed {kind : CellKind T N A} (h : takes kind = true) (due : Due) (count : Nat) :
    (add due).pass w kind count = due.pass w kind (count + 1)
  /-- Another cell lets it pass. -/
  passed {kind : CellKind T N A} (h : takes kind = false) (due : Due) (count : Nat) :
    (add due).pass w kind count = (due.pass w kind count).map add

variable {takes : CellKind T N A → Bool} {add : Due → Due}

/-- A value that has arrived counts as one on its way. -/
theorem Adds.flow_deliverTo (hadd : w.Adds takes add) (h : deliverTo takes v below = some below') :
    w.flow due (loads below') = w.flow (add due) (loads below) := by
  induction below generalizing due below' with
  | nil => cases h
  | cons cell below ih =>
    rw [deliverTo] at h
    split at h
    · next htakes =>
      obtain rfl := Option.some.inj h
      rw [flow_loads_cons, flow_loads_cons, hadd.absorbed htakes]
      simp only [Cell.receive, List.length_append, List.length_singleton]
    · next htakes =>
      obtain ⟨below', hbelow, rfl⟩ := Option.map_eq_some_iff.1 h
      rw [flow_loads_cons, flow_loads_cons, hadd.passed (Bool.not_eq_true _ ▸ htakes),
        Option.bind_map]
      exact congrArg _ (funext fun due => ih hbelow)

/-- A value that no cell takes stays on its way. -/
theorem Adds.flow_eq_map (hadd : w.Adds takes add) (h : deliverTo takes v below = none) :
    w.flow (add due) (loads below) = (w.flow due (loads below)).map add := by
  induction below generalizing due with
  | nil => rfl
  | cons cell below ih =>
    rw [deliverTo] at h
    split at h
    · cases h
    · next htakes =>
      rw [Option.map_eq_none_iff] at h
      rw [flow_loads_cons, flow_loads_cons, hadd.passed (Bool.not_eq_true _ ▸ htakes),
        Option.bind_map, Option.map_bind]
      exact congrArg _ (funext fun due => ih h)

/-- One more value for the nearest action. -/
def addAction (due : Due) : Due := { due with action := due.action + 1 }

/-- One more value for the nearest nonterminal or place of one. -/
def addNonterminal (due : Due) : Due := { due with nonterminal := due.nonterminal + 1 }

theorem adds_action : w.Adds CellKind.isAction addAction where
  absorbed {kind} h due count := by
    cases kind with
    | action a =>
      have hcount : count + (due.action + 1) + due.next = count + 1 + due.action + due.next := by
        omega
      simp only [Due.pass, addAction, hcount]
    | _ => cases h
  passed {kind} h due count := by
    cases kind with
    | action a => cases h
    | _ =>
      simp only [Due.pass, apply_ite (Option.map addAction), Option.map_some, Option.map_none]
      rfl

theorem adds_nonterminal : w.Adds CellKind.isNonterminal addNonterminal where
  absorbed {kind} h due count := by
    have hcount : count + (due.nonterminal + 1) = count + 1 + due.nonterminal := by omega
    cases kind with
    | nonterminal n => simp only [Due.pass, addNonterminal, hcount]
    | synthesized n => simp only [Due.pass, addNonterminal, hcount]
    | _ => cases h
  passed {kind} h due count := by
    cases kind with
    | nonterminal n => cases h
    | synthesized n => cases h
    | _ =>
      simp only [Due.pass, apply_ite (Option.map addNonterminal), Option.map_some, Option.map_none]
      rfl

/-- A value on its way to a nonterminal finds one, or the place of one, if none is left in the
end. -/
theorem exists_deliverTo (v : Value) {left : Nat}
    (h : w.flow (addNonterminal due) (loads below) = some ⟨left, 0, 0⟩) :
    ∃ below', deliverTo CellKind.isNonterminal v below = some below' ∧
      w.flow due (loads below') = some ⟨left, 0, 0⟩ := by
  cases hdeliver : deliverTo CellKind.isNonterminal v below with
  | some below' => exact ⟨below', rfl, (adds_nonterminal.flow_deliverTo hdeliver).trans h⟩
  | none =>
    rw [adds_nonterminal.flow_eq_map hdeliver] at h
    obtain ⟨due', -, hdue'⟩ := Option.map_eq_some_iff.1 h
    cases congrArg Due.nonterminal hdue'

/-- A value that has come to the cell on top counts as one on its way there, if the cell is an
action.  Nothing else may be on the way to a single cell. -/
theorem flow_receive (due : Due) {cell : Cell T N A}
    (h : w.flow { due with next := 1 } (loads (cell :: below)) = some due') :
    (∃ a, cell.kind = .action a) ∧
      w.flow { due with next := 0 } (loads (cell.receive v :: below)) = some due' := by
  obtain ⟨kind, values⟩ := cell
  rw [flow_cons_eq_some_iff] at h ⊢
  obtain ⟨passed, hpassed, hflow⟩ := h
  cases kind with
  | action a =>
    refine ⟨⟨a, rfl⟩, passed, ?_, hflow⟩
    simpa [Due.pass, Cell.receive, Nat.add_right_comm] using hpassed
  | _ => simp [Due.pass] at hpassed

/-! ### What is wired up -/

/-- The cells of a right-hand side with the value that the nonterminal has, if it inherits one. -/
def arrivals (w : Wiring T N A) (n : N) (prediction : Prediction T N A) :
    Option (List (CellKind T N A × Nat)) :=
  let cells := loads (expansion prediction.production)
  if w.inherits n then
    (prediction.inherited.bind fun offset => Offset.height? 0 offset).bind fun height =>
      if height < cells.length then
        some (cells.modify (cells.length - 1 - height) fun (kind, count) => (kind, count + 1))
      else
        none
  else
    some cells

/-- A right-hand side is wired up: all its cells get what they need, and one value is left for the
place of the nonterminal. -/
def Wires (w : Wiring T N A) (n : N) (prediction : Prediction T N A) : Prop :=
  (w.arrivals n prediction).bind (w.flow .nothing) = some ⟨0, 1, 0⟩

instance [DecidableEq T] [DecidableEq N] [DecidableEq A] (w : Wiring T N A) (n : N)
    (prediction : Prediction T N A) : Decidable (w.Wires n prediction) :=
  inferInstanceAs (Decidable (_ = _))

end Wiring

/-- The error of an operation is that it has been given a wrong number of operands. -/
def OperationError.IsMiscount : OperationError → Prop
  | .tooFewOperands .. => True
  | .tooManyOperands .. => True
  | _ => False

/-- The action takes so many operands: it says so when it is given fewer, and says nothing of their
number when it is given as many. -/
structure Action.Takes (action : Action) (count : Nat) : Prop where
  /-- Operands are missing. -/
  few {values : List Value} (h : values.length < count) : ∃ operation,
    action.run values = .error (.tooFewOperands operation count values.length)
  /-- There are enough operands. -/
  enough {values : List Value} {e : OperationError} (h : values.length = count)
    (hrun : action.run values = .error e) : ¬ e.IsMiscount

namespace Wiring

variable {w : Wiring T N A} {p : Predictor T N A} {c : Config T N A}
  {below : List (Cell T N A)} {values : List Value} {token : InputToken T}
  {input : List (InputToken T)}

/-- Every cell gets what it needs, and one value is left for the result. -/
def Balanced (w : Wiring T N A) (c : Config T N A) : Prop :=
  ∃ left, w.flow .nothing (loads c.stack) = some ⟨left, 0, 0⟩ ∧ left + c.result.isSome.toNat = 1

/-- Every cell would get what it needs if there was one more value for the cell on top. -/
def Starved (w : Wiring T N A) (c : Config T N A) : Prop :=
  ∃ left, w.flow { Due.nothing with next := 1 } (loads c.stack) = some ⟨left, 0, 0⟩

/-- The token is the one that is expected, and lacks the value that its terminal promises. -/
structure Lacks (w : Wiring T N A) (c : Config T N A) (token : InputToken T) : Prop where
  /-- The terminal of the token is on top. -/
  top : ∃ values below, c.stack = ⟨.terminal token.terminal, values⟩ :: below
  /-- The token comes next. -/
  next : ∃ rest, c.input = token :: rest
  /-- The terminal promises a value. -/
  promised : w.hasValue token.terminal = true
  /-- The token has none. -/
  missing : token.value = .nothing

/-- What may come of a step where everything is wired up: the parse goes on, or a value is missing
from now on; it ends with a result; or the input is rejected, but not because predictions and
actions do not fit together. -/
def Allows (w : Wiring T N A) (c : Config T N A) : Progress T N A → Prop
  | .running c' => w.Balanced c' ∨ w.Starved c' ∧ ∃ token, w.Lacks c token
  | .accepted result => result ≠ none
  | .rejected e => e.category ≠ .internal ∧ ∀ cause, e = .action cause → ¬ cause.IsMiscount

theorem balanced_initial (h : w.inherits p.start = false) (input : List (InputToken T)) :
    w.Balanced (.initial p input) := by
  refine ⟨1, ?_, rfl⟩
  simp [Config.initial, loads, flow, Due.pass, Due.nothing, Cell.new, h]

/-- The cell on top gets what it needs. -/
theorem Balanced.pass {kind : CellKind T N A} (hc : w.Balanced c)
    (hstack : c.stack = ⟨kind, values⟩ :: below) :
    ∃ left passed, Due.pass w .nothing kind values.length = some passed ∧
      w.flow passed (loads below) = some ⟨left, 0, 0⟩ ∧ left + c.result.isSome.toNat = 1 := by
  obtain ⟨left, hflow, hresult⟩ := hc
  rw [hstack, flow_cons_eq_some_iff] at hflow
  obtain ⟨passed, hpassed, hflow⟩ := hflow
  exact ⟨left, passed, hpassed, hflow, hresult⟩

theorem Balanced.allows_atEnd (hc : w.Balanced c)
    (hstack : c.stack = ⟨.endMarker, values⟩ :: below) :
    w.Allows c (c.atEnd p below) := by
  obtain ⟨left, passed, hpassed, hflow, hresult⟩ := hc.pass hstack
  obtain rfl : Due.nothing = passed := by simpa [Due.pass, Due.nothing] using hpassed
  unfold Config.atEnd
  split
  · exact Or.inl ⟨left, hflow, hresult⟩
  · exact ⟨by simp [ParseError.category], by simp⟩

/-- A token brings the value that its terminal promises, or the action below lacks it. -/
theorem Balanced.allows_matchToken [DecidableEq T] {t : T} (hc : w.Balanced c)
    (hinput : ∀ token ∈ c.input, token.value ≠ .nothing → w.hasValue token.terminal = true)
    (hstack : c.stack = ⟨.terminal t, values⟩ :: below) : w.Allows c (c.matchToken p t below) := by
  obtain ⟨left, passed, hpassed, hflow, hresult⟩ := hc.pass hstack
  obtain rfl : (⟨0, 0, (w.hasValue t).toNat⟩ : Due) = passed := by
    simpa [Due.pass, Due.nothing] using hpassed
  unfold Config.matchToken
  split
  · exact ⟨by simp [ParseError.category], by simp⟩
  · next token rest hinputs =>
    split
    · next hterminal =>
      subst hterminal
      split
      · next hvalue =>
        cases hpromised : w.hasValue token.terminal with
        | false =>
          rw [hpromised] at hflow
          exact Or.inl ⟨left, hflow, hresult⟩
        | true =>
          rw [hpromised] at hflow
          exact Or.inr ⟨⟨left, hflow⟩, token, ⟨_, _, hstack⟩, ⟨_, hinputs⟩, hpromised, hvalue⟩
      · exact ⟨by simp [ParseError.category], by simp⟩
      · next v hvalue =>
        -- a value has a cell to go to
        have hpromised : w.hasValue token.terminal = true :=
          hinput token (by simp [hinputs]) (by simp [hvalue])
        rw [hpromised] at hflow
        simp [loads, flow] at hflow
      · next v cell below hvalue =>
        have hpromised : w.hasValue token.terminal = true :=
          hinput token (by simp [hinputs]) (by simp [hvalue])
        rw [hpromised] at hflow
        exact Or.inl ⟨left, (flow_receive .nothing hflow).2, hresult⟩
    · exact ⟨by simp [ParseError.category], by simp⟩

/-- A right-hand side that is wired up takes the value that the nonterminal has, and makes one for
its place. -/
theorem Wires.exists_expansion {n : N} {prediction : Prediction T N A}
    (h : w.Wires n prediction) (hvalues : values.length = (w.inherits n).toNat)
    (hpredict : p.predict n c.next? = some prediction)
    (hstack : c.stack = ⟨.nonterminal n, values⟩ :: below) :
    ∃ cells, c.expand p n = .running { c with stack := cells ++ below } ∧
      w.flow .nothing (loads cells) = some ⟨0, 1, 0⟩ := by
  unfold Wires arrivals at h
  unfold Config.expand
  rw [hpredict]
  dsimp only
  rw [Config.pop_eq hstack]
  cases hinherits : w.inherits n with
  | false =>
    rw [hinherits] at h hvalues
    obtain rfl := List.length_eq_zero_iff.1 hvalues
    exact ⟨_, rfl, h⟩
  | true =>
    rw [hinherits] at h hvalues
    obtain ⟨v, rfl⟩ := List.length_eq_one_iff.1 hvalues
    obtain ⟨arrivals, harrivals, hflow⟩ := Option.bind_eq_some_iff.1 h
    obtain ⟨height, hheight, hdelivered⟩ := Option.bind_eq_some_iff.1 harrivals
    obtain ⟨offset, hoffset, hheight⟩ := Option.bind_eq_some_iff.1 hheight
    obtain rfl : offset = height := by
      rw [← Offset.height?_eq_some_iff.1 hheight]
      exact (Int.zero_add offset).symm
    split at hdelivered
    · next hlt =>
      have hlength : (loads (expansion prediction.production)).length =
        (expansion prediction.production).length := List.length_map _
      rw [hlength] at hlt hdelivered
      obtain ⟨cells, hdeliver, hcells⟩ : ∃ cells,
          deliverAt v height (expansion prediction.production) = some cells ∧
            loads cells = arrivals :=
        ⟨_, if_pos hlt, (loads_modify _ _ _).trans (Option.some.inj hdelivered)⟩
      refine ⟨cells, ?_, hcells ▸ hflow⟩
      simp only [hoffset, deliverBy_natCast, hdeliver, Option.map_some]
    · contradiction

/-- The place of a nonterminal has one value.  If no action takes it, it is the result. -/
theorem Balanced.allows_synthesize {n : N} (hc : w.Balanced c)
    (hstack : c.stack = ⟨.synthesized n, values⟩ :: below) :
    w.Allows c (c.synthesize p n) := by
  obtain ⟨left, passed, hpassed, hflow, hresult⟩ := hc.pass hstack
  obtain ⟨hvalues, rfl⟩ : values.length = 1 ∧ addAction .nothing = passed := by
    simpa [Due.pass, Due.nothing, addAction] using hpassed
  obtain ⟨v, rfl⟩ := List.length_eq_one_iff.1 hvalues
  rw [Config.synthesize, Config.pop_eq hstack]
  dsimp only
  split
  · next below' hdeliver =>
    exact Or.inl ⟨left, (adds_action.flow_deliverTo hdeliver).trans hflow, hresult⟩
  · next hdeliver =>
    rw [adds_action.flow_eq_map hdeliver] at hflow
    obtain ⟨due, hdue, hleft⟩ := Option.map_eq_some_iff.1 hflow
    obtain ⟨action, nonterminal, next⟩ := due
    obtain ⟨rfl, rfl, rfl⟩ : action + 1 = left ∧ nonterminal = 0 ∧ next = 0 := by
      simpa [addAction] using hleft
    refine Or.inl ⟨action, hdue, ?_⟩
    change action + 1 = 1
    omega

variable [DecidableEq A]

/-- All that a parser uses is wired up. -/
structure Fits (w : Wiring T N A) (p : Predictor T N A) (r : Registry A) : Prop where
  /-- Nothing is there for the start symbol to inherit. -/
  start : w.inherits p.start = false
  /-- The right-hand sides are wired up. -/
  wires {n : N} {next : Option T} {prediction : Prediction T N A}
    (h : p.predict n next = some prediction) : w.Wires n prediction
  /-- The actions take their operands. -/
  takes {a : A} {count : Nat} (h : w.operands a = some count) :
    ∃ action, r.find? a = some action ∧ action.Takes count

variable {r : Registry A}

/-- A nonterminal has the value that its right-hand side needs. -/
theorem Balanced.allows_expand {n : N} (hw : w.Fits p r) (hc : w.Balanced c)
    (hstack : c.stack = ⟨.nonterminal n, values⟩ :: below) :
    w.Allows c (c.expand p n) := by
  obtain ⟨left, passed, hpassed, hflow, hresult⟩ := hc.pass hstack
  obtain ⟨hvalues, rfl⟩ : values.length = (w.inherits n).toNat ∧ ⟨0, 1, 0⟩ = passed := by
    simpa [Due.pass, Due.nothing] using hpassed
  cases hpredict : p.predict n c.next? with
  | none =>
    rw [Config.expand, hpredict]
    exact ⟨by simp [ParseError.category], by simp⟩
  | some prediction =>
    obtain ⟨cells, hexpand, hcells⟩ := (hw.wires hpredict).exists_expansion hvalues hpredict hstack
    rw [hexpand]
    refine Or.inl ⟨left, ?_, hresult⟩
    rw [loads_append, flow_append, hcells, Option.bind_some, hflow]

/-- An action has its operands. -/
theorem Balanced.allows_perform {a : A} (hw : w.Fits p r) (hc : w.Balanced c)
    (hstack : c.stack = ⟨.action a, values⟩ :: below) :
    w.Allows c (c.perform p r a) := by
  obtain ⟨left, passed, hpassed, hflow, hresult⟩ := hc.pass hstack
  obtain ⟨hoperands, rfl⟩ :
      w.operands a = some values.length ∧ addNonterminal .nothing = passed := by
    simpa [Due.pass, Due.nothing, addNonterminal] using hpassed
  obtain ⟨action, hfind, htakes⟩ := hw.takes hoperands
  unfold Config.perform
  rw [hfind]
  dsimp only
  rw [Config.pop_eq hstack]
  have hdelivers (v : Value) := exists_deliverTo v hflow
  obtain ⟨_, hdeliver, -⟩ := hdelivers 0
  rw [if_pos (Config.Gives.any_of_deliverTo hdeliver)]
  cases hrun : action.run values with
  | error e => exact ⟨by simp [ParseError.category], by simpa using htakes.enough rfl hrun⟩
  | ok v =>
    obtain ⟨below', hdeliver, hflow'⟩ := hdelivers v
    dsimp only
    rw [hdeliver]
    exact Or.inl ⟨left, hflow', hresult⟩

variable [DecidableEq T]

/-- What comes of a step where everything is wired up. -/
theorem Balanced.allows_step (hw : w.Fits p r) (hc : w.Balanced c)
    (hsound : Sound p.start (kindsOf c.stack) c.input)
    (hinput : ∀ token ∈ c.input, token.value ≠ .nothing → w.hasValue token.terminal = true) :
    w.Allows c (c.step p r) := by
  unfold Config.step
  split
  · next hstack =>
    rw [hstack, kindsOf_nil] at hsound
    obtain ⟨left, hflow, hresult⟩ := hc
    obtain rfl : 0 = left := by
      simpa [hstack, loads, flow, Due.nothing] using hflow
    generalize hinputs : c.input = input at hsound
    cases hsound with
    | emptied =>
      intro hnone
      simp [hnone] at hresult
    | rooted hroot => cases hroot
  · next cell below hstack =>
    obtain ⟨kind, values⟩ := cell
    cases kind with
    | endMarker => exact hc.allows_atEnd hstack
    | terminal t => exact hc.allows_matchToken hinput hstack
    | nonterminal n => exact hc.allows_expand hw hstack
    | synthesized n => exact hc.allows_synthesize hstack
    | action a => exact hc.allows_perform hw hstack

/-- Where a value is missing the action on top lacks an operand, and the parse ends. -/
theorem Starved.step_eq (hw : w.Fits p r) (hc : w.Starved c) : ∃ operation found,
    c.step p r = .rejected (.action (.tooFewOperands operation (found + 1) found)) := by
  obtain ⟨left, hflow⟩ := hc
  cases hstack : c.stack with
  | nil => simp [hstack, loads, flow] at hflow
  | cons cell below =>
    obtain ⟨kind, values⟩ := cell
    rw [hstack, flow_cons_eq_some_iff] at hflow
    obtain ⟨passed, hpassed, hflow⟩ := hflow
    cases kind with
    | action a =>
      obtain ⟨hoperands, rfl⟩ : w.operands a = some (values.length + 1) ∧
          addNonterminal .nothing = passed := by
        simpa [Due.pass, Due.nothing, addNonterminal] using hpassed
      obtain ⟨action, hfind, htakes⟩ := hw.takes hoperands
      obtain ⟨operation, hrun⟩ := htakes.few (Nat.lt_succ_self values.length)
      obtain ⟨_, hdeliver, -⟩ := exists_deliverTo 0 hflow
      refine ⟨operation, values.length, ?_⟩
      unfold Config.step
      rw [hstack]
      dsimp only
      rw [Config.perform, hfind]
      dsimp only
      rw [Config.pop_eq hstack, if_pos (Config.Gives.any_of_deliverTo hdeliver), hrun]
    | _ => simp [Due.pass] at hpassed

/-! ### Parses -/

/-- A token that lacks its value is matched, and then the action below lacks an operand. -/
theorem Lacks.exists_step (h : w.Lacks c token) (p : Predictor T N A) (r : Registry A) :
    ∃ c', c.step p r = .running c' ∧ c.input = token :: c'.input ∧
      (w.Balanced c → w.Starved c') := by
  obtain ⟨stack, input, result⟩ := c
  obtain ⟨values, below, rfl⟩ := h.top
  obtain ⟨rest, rfl⟩ := h.next
  refine ⟨⟨below, rest, result⟩, Config.step_matched rfl h.missing, rfl, fun hc => ?_⟩
  obtain ⟨left, passed, hpassed, hflow, -⟩ := hc.pass rfl
  obtain rfl : (⟨0, 0, 1⟩ : Due) = passed := by
    simpa [Due.pass, Due.nothing, h.promised] using hpassed
  exact ⟨left, hflow⟩

/-- Everything is balanced on the way until a value is missing. -/
theorem balanced_or_starved (hw : w.Fits p r)
    (hinput : ∀ token ∈ input, token.value ≠ .nothing → w.hasValue token.terminal = true)
    (h : Config.Reachable p r input c) : w.Balanced c ∨
      w.Starved c ∧ ∃ d token, Config.Reachable p r input d ∧ w.Lacks d token := by
  induction h with
  | initial => exact Or.inl (balanced_initial hw.start input)
  | @step c c' before goes ih =>
    rcases ih with hc | ⟨hc, -⟩
    · have hallows := hc.allows_step hw (.of_reachable before)
        fun token htoken => hinput token (before.input_suffix.mem htoken)
      rw [goes] at hallows
      rcases hallows with hbalanced | ⟨hstarved, token, hlacks⟩
      · exact Or.inl hbalanced
      · exact Or.inr ⟨hstarved, c, token, before, hlacks⟩
    · -- the parse does not go on where a value is missing
      obtain ⟨operation, found, hstep⟩ := hc.step_eq hw
      cases goes.symm.trans hstep

/-- A token that lacks its value is the reason for a verdict. -/
theorem Lacks.gives (hw : w.Fits p r)
    (hinput : ∀ token ∈ input, token.value ≠ .nothing → w.hasValue token.terminal = true)
    (hreach : Config.Reachable p r input c) (h : w.Lacks c token) : ∃ operation found,
      (Config.initial p input).Gives p r
        (.error (.action (.tooFewOperands operation (found + 1) found))) := by
  obtain ⟨c', hstep, -, hstarves⟩ := h.exists_step p r
  rcases balanced_or_starved hw hinput hreach with hc | ⟨hc, -⟩
  · obtain ⟨operation, found, hstep'⟩ := (hstarves hc).step_eq hw
    exact ⟨operation, found, (hreach.step hstep).goesTo.gives (.of_rejected hstep')⟩
  · obtain ⟨operation, found, hstep'⟩ := hc.step_eq hw
    cases hstep.symm.trans hstep'

/-- What a parse can come to where everything is wired up: a result, or a rejection that is not
because predictions and actions do not fit together.  An operand is missing exactly where a token
has been matched that lacks its value, and there is never one too many. -/
theorem verdict_of_fits {v : Verdict} (hw : w.Fits p r)
    (hinput : ∀ token ∈ input, token.value ≠ .nothing → w.hasValue token.terminal = true)
    (h : (Config.initial p input).Gives p r v) :
    v ≠ .ok none ∧ (∀ e, v = .error e → e.category ≠ .internal) ∧
      (∀ operation expected found,
        v ≠ .error (.action (.tooManyOperands operation expected found))) ∧
      ((∃ operation expected found,
          v = .error (.action (.tooFewOperands operation expected found))) ↔
        ∃ c token, Config.Reachable p r input c ∧ w.Lacks c token) := by
  obtain ⟨steps, hsteps⟩ := h
  obtain ⟨c, hreach, hverdict⟩ := Config.exists_step_of_run (P := Config.Reachable p r input)
    (fun _ _ hc hstep => hc.step hstep) .initial hsteps
  have hlacks : (∃ d token, Config.Reachable p r input d ∧ w.Lacks d token) →
      ∃ operation found, v = .error (.action (.tooFewOperands operation (found + 1) found)) := by
    rintro ⟨d, token, hd, hlacks⟩
    obtain ⟨operation, found, hgives⟩ := hlacks.gives hw hinput hd
    exact ⟨operation, found, Config.Gives.unique ⟨steps, hsteps⟩ hgives⟩
  rcases balanced_or_starved hw hinput hreach with hc | ⟨-, hmissing⟩
  · have hallows := hc.allows_step hw (.of_reachable hreach)
      fun token htoken => hinput token (hreach.input_suffix.mem htoken)
    generalize hprogress : c.step p r = progress at hallows hverdict
    cases progress with
    | running c' => cases hverdict
    | accepted result =>
      obtain rfl := Option.some.inj hverdict
      refine ⟨fun heq => hallows (Except.ok.inj heq), by simp, by simp, by simp,
        fun hmissing => ?_⟩
      obtain ⟨_, _, heq⟩ := hlacks hmissing
      cases heq
    | rejected e =>
      obtain rfl := Option.some.inj hverdict
      obtain ⟨hcategory, hcount⟩ := hallows
      refine ⟨by simp, by simpa using hcategory, ?_, ?_, fun hmissing => ?_⟩
      · rintro operation expected found heq
        exact hcount _ (Except.error.inj heq) trivial
      · rintro ⟨operation, expected, found, heq⟩
        exact absurd trivial (hcount _ (Except.error.inj heq))
      · obtain ⟨operation, found, heq⟩ := hlacks hmissing
        exact ⟨operation, _, found, heq⟩
  · obtain ⟨operation, found, rfl⟩ := hlacks hmissing
    exact ⟨by simp, by simp [ParseError.category], by simp, fun _ => hmissing,
      fun _ => ⟨operation, _, found, rfl⟩⟩

end Wiring
end ArithFrontEnd
