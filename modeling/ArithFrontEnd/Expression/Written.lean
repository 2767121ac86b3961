import ArithFrontEnd.Expression.Grammars
import ArithFrontEnd.Grammar.Load

/-!
# The grammars of expressions as texts

Both grammars of expressions can be written as grammar texts. Loading the texts gives the very
grammars, numbers of symbols and rules included.

## Main definitions

* `evaluatorText`, `recognizerText` — the grammars as texts.

## Main results

* `ofText_evaluatorText`, `ofText_recognizerText` — **the texts are those of the grammars.**
-/

namespace ArithFrontEnd.Expression

/-- The text of the grammar that evaluates an expression. -/
def evaluatorText : String :=
  Text.lines [
    "@start S;",
    "@inherit E'' T';",
    "S -> E \x7b0\x7d;",
    "E -> + E' \x7b1\x7d | - E' \x7b2\x7d | E' \x7b3\x7d;",
    "E' -> T \x7b4\x7d E'' \x7b5\x7d;",
    "E'' -> + T \x7b6\x7d E'' \x7b7\x7d | - T \x7b8\x7d E'' \x7b9\x7d | ε \x7b10\x7d;",
    "T -> F \x7b11\x7d T' \x7b12\x7d;",
    "T' -> * F \x7b13\x7d T' \x7b14\x7d | / F \x7b15\x7d T' \x7b16\x7d | ε \x7b17\x7d;",
    "F -> ( E \x7b18\x7d ) | id \x7b19\x7d | num \x7b20\x7d;"]

/-- The text of the grammar that expressions conform to. -/
def recognizerText : String :=
  Text.lines [
    "@start S;",
    "S -> E;",
    "E -> + E' | - E' | E';",
    "E' -> T E'';",
    "E'' -> + T E'' | - T E'' | ε;",
    "T -> F T';",
    "T' -> * F T' | / F T' | ε;",
    "F -> ( E ) | id | num;"]

/-- The characters of lines. -/
def lineChars (texts : List String) : List Char :=
  texts.flatMap fun text => text.toList ++ ['\n']

/-- The statements of lines, read from their characters. -/
def statementsOfLines (texts : List String) : Option (List GrammarText.Statement) :=
  (GrammarText.tokens (Text.withLines 1
    (Text.fragments GrammarText.extent (lineChars texts)))).toOption.bind
      fun ts => (GrammarText.parse ts).toOption

/-- A grammar that comes from the characters of lines comes from their text. -/
theorem ofText_lines {texts : List String} {g : Grammar}
    (h : ((statementsOfLines texts).bind fun ss => (Grammar.ofStatements ss).toOption) = some g) :
    Grammar.ofText (Text.lines texts) = .ok g := by
  unfold statementsOfLines lineChars at h
  unfold Grammar.ofText GrammarText.read GrammarText.scan Text.located
  rw [Text.toList_lines]
  -- Each of the three stages has succeeded, because the last result is there.
  cases scanned : GrammarText.tokens (Text.withLines 1 (Text.fragments GrammarText.extent
      (texts.flatMap fun text => text.toList ++ ['\n']))) with
  | error e =>
    rw [scanned] at h
    contradiction
  | ok ts =>
    rw [scanned] at h
    cases parsed : GrammarText.parse ts with
    | error e =>
      simp [Except.toOption, parsed] at h
    | ok ss =>
      cases loaded : Grammar.ofStatements ss with
      | error e => simp [Except.toOption, parsed, loaded] at h
      | ok g' =>
        simp only [Except.toOption, Option.bind_some, parsed, loaded, Option.some.injEq] at h
        simp only [parsed, loaded, h]

/-- The evaluator is the grammar that its text describes. -/
theorem ofText_evaluatorText : Grammar.ofText evaluatorText = .ok evaluator :=
  ofText_lines (by decide +kernel)

/-- The recognizer is the grammar that its text describes. -/
theorem ofText_recognizerText : Grammar.ofText recognizerText = .ok recognizer :=
  ofText_lines (by decide +kernel)

end ArithFrontEnd.Expression
