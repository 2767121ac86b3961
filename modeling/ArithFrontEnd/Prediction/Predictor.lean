import ArithFrontEnd.Engine.Predictor
import ArithFrontEnd.Prediction.Table

/-!
# Parsing by a prediction table

A prediction table tells a parser which rule to expand by. The end of the input has a column of its
own, that of the reserved terminal.

## Main definitions

* `PredictionTable.predictor` — the predictor of a table.
* `Predictor.ofCells` — a predictor made by hand from a list of cells.
-/

namespace ArithFrontEnd

namespace PredictionTable

/-- The prediction in the cell of a nonterminal, at a terminal or at the end of the input. -/
def predict (table : PredictionTable) (n : NonterminalId) (t : Option TerminalId) :
    Option (Prediction TerminalId NonterminalId ActionId) :=
  (table.find? n (t.getD .endOfInput)).map fun e => ⟨e.production, e.inherited.map Nat.cast⟩

/-- The length of the longest right-hand side in a table. -/
def width (table : PredictionTable) : Nat :=
  (table.rows.flatMap fun row => row.map fun (_, e) => e.production.length).foldl max 0

/-- The predictor of a table. -/
def predictor (table : PredictionTable) : Predictor TerminalId NonterminalId ActionId where
  start := table.start
  predict := table.predict
  terminalName t := table.vocabulary.terminalName (t.getD .endOfInput)
  nonterminalName := table.vocabulary.nonterminalName
  actionName a := s!"ActionID({a})"
  stepLimit := sufficientSteps table.rows.length table.width

end PredictionTable

/-- A cell of a predictor made by hand. -/
structure HandCell where
  /-- The nonterminal that is expanded. -/
  nonterminal : Nat
  /-- The terminal that comes next, or none for the end of the input. -/
  next : Option Nat
  /-- The right-hand side. -/
  production : List (Symbol Nat Nat Nat)
  /-- The machine word that says where the value of the nonterminal goes. -/
  offset : Option UInt64
  deriving DecidableEq, Repr

/-- The predictor of a list of cells, of which the first that fits is taken. All names are numbers,
shown with a letter in front. -/
def Predictor.ofCells (start : Nat) (cells : List HandCell) : Predictor Nat Nat Nat where
  start := start
  predict n t :=
    (cells.find? fun cell => cell.nonterminal == n && cell.next == t).map fun cell =>
      ⟨cell.production, cell.offset.map Offset.ofWord⟩
  terminalName t := t.elim "#" fun t => s!"t{t}"
  nonterminalName n := s!"N{n}"
  actionName a := toString a
  stepLimit :=
    sufficientSteps cells.length ((cells.map (·.production.length)).foldl max 0)

end ArithFrontEnd
