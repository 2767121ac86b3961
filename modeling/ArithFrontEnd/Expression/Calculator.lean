import ArithFrontEnd.Engine.Events
import ArithFrontEnd.Expression.Grammars
import ArithFrontEnd.Expression.Resolve

/-!
# Evaluating and recognizing expressions by table

The calculator parses a list of tokens by the table of the evaluator and answers with the value of
the expression. The recognizer parses it by the table without actions, and only says whether the
tokens form an expression.

## Main definitions

* `actionOf`, `actions` — what the actions of the evaluator do.
* `evaluate`, `evaluateEvents` — the value of an expression, and the log.
* `check`, `checkEvents` — whether the tokens form an expression, and the log.
-/

namespace ArithFrontEnd.Expression

/-- What an action of the evaluator does. All but six pass a value on. -/
def actionOf : ActionId → Action
  | 0 => .emit
  | 2 => .negate
  | 6 => .binary .add
  | 8 => .binary .sub
  | 13 => .binary .mul
  | 15 => .binary .div
  | _ => .assign

/-- The actions of the evaluator. -/
def actions : Registry ActionId := ⟨(List.range 21).map fun a => (a, actionOf a)⟩

/-- The input of the evaluator. -/
def evaluatorInput (tokens : List Token) : List (InputToken TerminalId) :=
  Token.resolveAll evaluator.toVocabulary true tokens

/-- The input of the recognizer. -/
def recognizerInput (tokens : List Token) : List (InputToken TerminalId) :=
  Token.resolveAll recognizer.toVocabulary false tokens

/-- The value of an expression. -/
def evaluate (tokens : List Token) : Except ParseError Value :=
  match parse evaluatorTable.predictor actions (evaluatorInput tokens) with
  | .error e => .error e
  | .ok none => .error (.internal .noFinalValue)
  | .ok (some v) => .ok v

/-- What the log shows of an evaluation. -/
def evaluateEvents (tokens : List Token) : List Log.Event :=
  Token.resolveEvents true tokens ++
    parseEvents evaluatorTable.predictor actions (evaluatorInput tokens)

/-- Whether the tokens form an expression. -/
def check (tokens : List Token) : Except ParseError Unit :=
  (parse recognizerTable.predictor .empty (recognizerInput tokens)).map fun _ => ()

/-- What the log shows of a check. -/
def checkEvents (tokens : List Token) : List Log.Event :=
  parseEvents recognizerTable.predictor .empty (recognizerInput tokens)

end ArithFrontEnd.Expression
