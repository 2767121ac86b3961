import ArithFrontEnd.Engine.Error
import ArithFrontEnd.Engine.Predictor
import ArithFrontEnd.Engine.Registry

/-!
# The steps of a predictive parser

A predictive parser holds the input that is left and a stack of cells, which say what it expects. A
step looks at the cell on top: a terminal is matched against the next token, a nonterminal is
replaced by a right-hand side, and an action is run. Cells collect values on the way:

* the value of a matched token goes to the cell below;
* the value of a nonterminal that is expanded goes to the cell that the prediction names;
* the result of an action goes to the nearest nonterminal, or place of one, below;
* each nonterminal leaves a placeholder beneath it, whose value goes to the nearest action below, or
  is the result of the parse if there is none.

## Main definitions

* `CellKind`, `Cell`, `Config` — what a parser holds.
* `expansion`, `deliverBy`, `deliverTo` — how cells are made and how values find theirs.
* `Progress`, `Config.pop`, `Config.step` — a step and what comes of it.
-/

namespace ArithFrontEnd

variable {T N A : Type}

/-- What a cell of the stack expects. -/
inductive CellKind (T N A : Type)
  /-- The end of the input. -/
  | endMarker
  /-- A token of this terminal. -/
  | terminal (t : T)
  /-- What the nonterminal stands for. -/
  | nonterminal (n : N)
  /-- Nothing: the place of a nonterminal that is being read. -/
  | synthesized (n : N)
  /-- Nothing: the action is to be run. -/
  | action (a : A)
  deriving DecidableEq, Repr

namespace CellKind

/-- The cell runs an action. -/
def isAction : CellKind T N A → Bool
  | action _ => true
  | _ => false

/-- The cell is a nonterminal or the place of one. -/
def isNonterminal : CellKind T N A → Bool
  | nonterminal _ => true
  | synthesized _ => true
  | _ => false

end CellKind

/-- A cell of the stack with the values it has collected. -/
structure Cell (T N A : Type) where
  /-- What the cell expects. -/
  kind : CellKind T N A
  /-- The collected values in order of arrival. -/
  values : List Value
  deriving DecidableEq, Repr

namespace Cell

/-- A cell without values. -/
def new (kind : CellKind T N A) : Cell T N A := ⟨kind, []⟩

/-- The cell with one more value. -/
def receive (v : Value) (cell : Cell T N A) : Cell T N A :=
  { cell with values := cell.values ++ [v] }

end Cell

/-- What a parser holds between two steps. -/
structure Config (T N A : Type) where
  /-- The cells, the next one first. -/
  stack : List (Cell T N A)
  /-- The input that is left, the next token first. -/
  input : List (InputToken T)
  /-- The value of the start symbol, once it is known. -/
  result : Option Value
  deriving DecidableEq, Repr

/-- The cells of a symbol, from the top down. -/
def cellsOf : Symbol T N A → List (Cell T N A)
  | .terminal t => [.new (.terminal t)]
  | .nonterminal n => [.new (.nonterminal n), .new (.synthesized n)]
  | .action a => [.new (.action a)]

/-- The cells of a right-hand side, from the top down. -/
def expansion (production : List (Symbol T N A)) : List (Cell T N A) :=
  production.flatMap cellsOf

/-- Deliver a value at a height, counted from zero at the lowest of these cells. -/
def deliverAt (v : Value) (height : Nat) (cells : List (Cell T N A)) :
    Option (List (Cell T N A)) :=
  if height < cells.length then
    some (cells.modify (cells.length - 1 - height) (Cell.receive v))
  else
    none

/-- Deliver a value by an offset from a height. -/
def deliverBy (v : Value) (base : Nat) (offset : Int) (cells : List (Cell T N A)) :
    Option (List (Cell T N A)) :=
  (Offset.height? base offset).bind fun height => deliverAt v height cells

/-- Deliver a value to the highest of these cells that takes it. -/
def deliverTo (takes : CellKind T N A → Bool) (v : Value) :
    List (Cell T N A) → Option (List (Cell T N A))
  | [] => none
  | cell :: below =>
    if takes cell.kind then some (cell.receive v :: below)
    else (deliverTo takes v below).map (cell :: ·)

/-- What comes of a step. -/
inductive Progress (T N A : Type)
  /-- The parse goes on. -/
  | running (c : Config T N A)
  /-- The input is accepted with this value. -/
  | accepted (result : Option Value)
  /-- The input is rejected. -/
  | rejected (e : ParseError)
  deriving DecidableEq, Repr

namespace Config

/-- The first configuration of a parse. -/
def initial (p : Predictor T N A) (input : List (InputToken T)) : Config T N A :=
  ⟨[.new (.nonterminal p.start), .new (.synthesized p.start), .new .endMarker], input, none⟩

/-- The terminal that comes next. -/
def next? (c : Config T N A) : Option T := c.input.head?.map (·.terminal)

/-- With the end of the input on top, no token may be left. -/
def atEnd (p : Predictor T N A) (below : List (Cell T N A)) (c : Config T N A) :
    Progress T N A :=
  match c.input with
  | [] => .running { c with stack := below }
  | token :: _ => .rejected (.unexpectedToken (p.terminalName none) token.shown)

/-- With a terminal on top, the next token has to be an instance of it. Its value goes to the cell
below. -/
def matchToken [DecidableEq T] (p : Predictor T N A) (t : T) (below : List (Cell T N A))
    (c : Config T N A) : Progress T N A :=
  match c.input with
  | [] => .rejected (.unexpectedToken (p.terminalName (some t)) (p.terminalName none))
  | token :: rest =>
    if token.terminal = t then
      match token.value, below with
      | .nothing, _ => .running { c with stack := below, input := rest }
      | .unknown, _ => .rejected (.unknownValue token.shown)
      | .known _, [] => .rejected (.internal .noCellBelow)
      | .known v, cell :: below =>
        .running { c with stack := cell.receive v :: below, input := rest }
    else
      .rejected (.unexpectedToken (p.terminalName (some t)) token.shown)

/-- Take the cell on top away and go on with its values and the cells below. -/
def pop (c : Config T N A) (next : List Value → List (Cell T N A) → Progress T N A) :
    Progress T N A :=
  match c.stack with
  | [] => .rejected (.internal .emptyStack)
  | cell :: below => next cell.values below

/-- With a nonterminal on top, it is replaced by the predicted right-hand side, and its value is
delivered by the offset of the prediction. -/
def expand (p : Predictor T N A) (n : N) (c : Config T N A) : Progress T N A :=
  match p.predict n c.next? with
  | none => .rejected (.noProduction (p.nonterminalName n) (p.shownNext c.input))
  | some prediction =>
    c.pop fun values below =>
      let cells := expansion prediction.production ++ below
      match values, prediction.inherited with
      | [], _ => .running { c with stack := cells }
      | [_], none => .running { c with stack := cells }
      | [v], some offset =>
        match deliverBy v below.length offset cells with
        | some cells => .running { c with stack := cells }
        | none =>
          .rejected (.internal (.routedOutside (p.nonterminalName n) (Offset.toWord offset)))
      | values, _ => .rejected (.internal (.carriedValues (p.nonterminalName n) values.length))

/-- With the place of a nonterminal on top, its value goes to the nearest action below. Where there
is none, it is the result of the parse. -/
def synthesize (p : Predictor T N A) (n : N) (c : Config T N A) : Progress T N A :=
  c.pop fun values below =>
    match values with
    | [] => .running { c with stack := below }
    | [v] =>
      match deliverTo CellKind.isAction v below with
      | some below => .running { c with stack := below }
      | none => .running { c with stack := below, result := some v }
    | values => .rejected (.internal (.synthesizedValues (p.nonterminalName n) values.length))

/-- With an action on top, it is run on the collected values. Its result goes to the nearest
nonterminal or place of one below. -/
def perform [DecidableEq A] (p : Predictor T N A) (r : Registry A) (a : A) (c : Config T N A) :
    Progress T N A :=
  match r.find? a with
  | none => .rejected (.internal (.unregisteredAction (p.actionName a)))
  | some action =>
    c.pop fun values below =>
      if below.any (·.kind.isNonterminal) then
        match action.run values with
        | .error e => .rejected (.action e)
        | .ok v =>
          .running { c with stack := (deliverTo CellKind.isNonterminal v below).getD below }
      else
        .rejected (.internal (.noRecipient (p.actionName a)))

/-- A step of the parser. -/
def step [DecidableEq T] [DecidableEq A] (p : Predictor T N A) (r : Registry A)
    (c : Config T N A) : Progress T N A :=
  match c.stack with
  | [] =>
    match c.input with
    | [] => .accepted c.result
    | input => .rejected (.internal (.leftover input.length))
  | cell :: below =>
    match cell.kind with
    | .endMarker => c.atEnd p below
    | .terminal t => c.matchToken p t below
    | .nonterminal n => c.expand p n
    | .synthesized n => c.synthesize p n
    | .action a => c.perform p r a

theorem pop_eq {c : Config T N A} {cell : Cell T N A} {below : List (Cell T N A)}
    (h : c.stack = cell :: below) (next : List Value → List (Cell T N A) → Progress T N A) :
    c.pop next = next cell.values below := by
  rw [pop, h]

end Config

end ArithFrontEnd
