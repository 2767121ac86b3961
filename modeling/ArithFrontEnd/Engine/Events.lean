import ArithFrontEnd.Engine.Run
import ArithFrontEnd.Text.Lines

/-!
# The log of a predictive parser

Before every step the log shows the stack, from the bottom up, and the input that is left. A step
that drops a value, finds the result or runs an action is shown as well.

## Main definitions

* `Config.events` — what the log shows of a step.
* `parseEvents` — what the log shows of a parse.
-/

namespace ArithFrontEnd

variable {T N A : Type}

/-- How the log shows a list of values. -/
def valuesText (values : List Value) : String := Text.bracketed (values.map Value.text)

/-- How the log shows a cell: what it expects, and its values if it has any. -/
def Cell.text (p : Predictor T N A) (cell : Cell T N A) : String :=
  let values := if cell.values.isEmpty then "" else valuesText cell.values
  let expected :=
    match cell.kind with
    | .endMarker => p.terminalName none
    | .terminal t => p.terminalName (some t)
    | .nonterminal n => p.nonterminalName n
    | .synthesized n => p.nonterminalName n ++ ".syn"
    | .action a => "\x7b" ++ p.actionName a ++ "\x7d"
  expected ++ values

namespace Config

/-- How the log shows a configuration. -/
def text (p : Predictor T N A) (c : Config T N A) : String :=
  let stack := String.intercalate " " (c.stack.reverse.map (Cell.text p))
  let input := String.intercalate " " (c.input.map (·.shown))
  s!"stack=[{stack}], input=[{input}]"

/-- What the log shows of the running of an action. -/
def actionEvents [DecidableEq A] (p : Predictor T N A) (r : Registry A) (a : A)
    (values : List Value) (below : List (Cell T N A)) : List Log.Event :=
  match r.find? a, below.any (·.kind.isNonterminal) with
  | some action, true =>
    action.events values ++
      match action.run values with
      | .ok v => [⟨.trace, s!"action {p.actionName a}{valuesText values} = {v.text}"⟩]
      | .error _ => []
  | _, _ => []

/-- What the log shows of a value that is dropped when a nonterminal is expanded. -/
def dropEvents (p : Predictor T N A) (n : N) (values : List Value) (c : Config T N A) :
    List Log.Event :=
  match values, p.predict n c.next? with
  | [v], some ⟨_, none⟩ =>
    [⟨.trace, s!"discard the value {v.text} carried by {p.nonterminalName n}"⟩]
  | _, _ => []

/-- What the log shows of the result of a parse. -/
def resultEvents (p : Predictor T N A) (n : N) (values : List Value) (below : List (Cell T N A)) :
    List Log.Event :=
  match values with
  | [_] =>
    if below.any (·.kind.isAction) then []
    else [⟨.debug, s!"the value of {p.nonterminalName n} is the final result"⟩]
  | _ => []

/-- What the log shows of a step. -/
def events [DecidableEq A] (p : Predictor T N A) (r : Registry A) (c : Config T N A) :
    List Log.Event :=
  match c.stack with
  | [] => []
  | cell :: below =>
    ⟨.trace, c.text p⟩ ::
      match cell.kind with
      | .nonterminal n => c.dropEvents p n cell.values
      | .synthesized n => resultEvents p n cell.values below
      | .action a => actionEvents p r a cell.values below
      | _ => []

/-- What the log shows of a number of steps, from the last one back. -/
def runEvents [DecidableEq T] [DecidableEq A] (p : Predictor T N A) (r : Registry A) :
    Nat → Config T N A → List (List Log.Event) → List (List Log.Event)
  | 0, _, shown => shown
  | steps + 1, c, shown =>
    match c.step p r with
    | .running next => runEvents p r steps next (c.events p r :: shown)
    | _ => c.events p r :: shown

end Config

/-- What the log shows of a parse. -/
def parseEvents [DecidableEq T] [DecidableEq A] (p : Predictor T N A) (r : Registry A)
    (input : List (InputToken T)) : List Log.Event :=
  (Config.runEvents p r (p.stepLimit input.length) (.initial p input) []).reverse.flatten

end ArithFrontEnd
