import ArithFrontEnd.Prediction.Predictor

/-!
# The grammars of expressions

An expression is a sum of terms with an optional sign in front, a term is a product of factors, and
a factor is an identifier, a number or an expression in parentheses. Both grammars say this without
left recursion. The evaluator has actions that compute the value on the way: the rest of a sum or of
a product inherits the value of what stands to its left. The recognizer has none.

## Main definitions

* `evaluator`, `evaluatorTable` — the grammar with actions, and its table.
* `recognizer`, `recognizerTable` — the grammar without actions, and its table.

## Main results

* `ofGrammar_evaluator`, `ofGrammar_recognizer` — both grammars are without conflicts.
-/

namespace ArithFrontEnd.Expression

/-! ### The symbols -/

/-- The plus sign. -/
def plus : TerminalId := 2

/-- The minus sign. -/
def minus : TerminalId := 3

/-- The multiplication sign. -/
def times : TerminalId := 4

/-- The division sign. -/
def slash : TerminalId := 5

/-- The opening parenthesis. -/
def opening : TerminalId := 6

/-- The closing parenthesis. -/
def closing : TerminalId := 7

/-- An identifier. -/
def identifier : TerminalId := 8

/-- A number. -/
def number : TerminalId := 9

/-- The start symbol: an expression whose value is announced. -/
def goal : NonterminalId := 0

/-- An expression: a sum with an optional sign. -/
def signedSum : NonterminalId := 1

/-- A sum of terms. -/
def sum : NonterminalId := 2

/-- A term: a product of factors. -/
def term : NonterminalId := 3

/-- The rest of a sum after its first term. -/
def sumRest : NonterminalId := 4

/-- A factor. -/
def factor : NonterminalId := 5

/-- The rest of a product after its first factor. -/
def termRest : NonterminalId := 6

/-- The terminals of expressions. -/
def terminals : List String := ["+", "-", "*", "/", "(", ")", "id", "num"]

/-- The nonterminals of expressions. With actions, the rests inherit the value to their left. -/
def vocabulary (withActions : Bool) : Vocabulary where
  terminals := terminals
  nonterminals := [⟨"S", false⟩, ⟨"E", false⟩, ⟨"E'", false⟩, ⟨"T", false⟩, ⟨"E''", withActions⟩,
    ⟨"F", false⟩, ⟨"T'", withActions⟩]

/-! ### The grammars -/

/-- The rules of the evaluator. -/
def evaluatorRules : List Rule :=
  [⟨goal, [.nonterminal signedSum, .action 0]⟩,
    ⟨signedSum, [.terminal plus, .nonterminal sum, .action 1]⟩,
    ⟨signedSum, [.terminal minus, .nonterminal sum, .action 2]⟩,
    ⟨signedSum, [.nonterminal sum, .action 3]⟩,
    ⟨sum, [.nonterminal term, .action 4, .nonterminal sumRest, .action 5]⟩,
    ⟨sumRest, [.terminal plus, .nonterminal term, .action 6, .nonterminal sumRest, .action 7]⟩,
    ⟨sumRest, [.terminal minus, .nonterminal term, .action 8, .nonterminal sumRest, .action 9]⟩,
    ⟨sumRest, [.action 10]⟩,
    ⟨term, [.nonterminal factor, .action 11, .nonterminal termRest, .action 12]⟩,
    ⟨termRest, [.terminal times, .nonterminal factor, .action 13, .nonterminal termRest,
      .action 14]⟩,
    ⟨termRest, [.terminal slash, .nonterminal factor, .action 15, .nonterminal termRest,
      .action 16]⟩,
    ⟨termRest, [.action 17]⟩,
    ⟨factor, [.terminal opening, .nonterminal signedSum, .action 18, .terminal closing]⟩,
    ⟨factor, [.terminal identifier, .action 19]⟩,
    ⟨factor, [.terminal number, .action 20]⟩]

/-- The grammar that evaluates an expression while it is parsed. -/
def evaluator : Grammar := ⟨vocabulary true, evaluatorRules, goal⟩

/-- The grammar that expressions conform to, without actions. -/
def recognizer : Grammar :=
  ⟨vocabulary false, evaluatorRules.map fun rule => { rule with right := rule.symbols }, goal⟩

/-- The table of a grammar without conflicts, and one without cells for any other grammar. -/
def tableOf (g : Grammar) : PredictionTable :=
  match PredictionTable.ofGrammar g .reject with
  | .ok table => table
  | .error _ => ⟨g.toVocabulary, g.start, []⟩

/-- The table of the evaluator. -/
def evaluatorTable : PredictionTable := tableOf evaluator

/-- The table of the recognizer. -/
def recognizerTable : PredictionTable := tableOf recognizer

theorem ofGrammar_eq_tableOf {g : Grammar}
    (accepted : (PredictionTable.ofGrammar g .reject).toOption.isSome = true) :
    PredictionTable.ofGrammar g .reject = .ok (tableOf g) := by
  unfold tableOf
  cases h : PredictionTable.ofGrammar g .reject with
  | error e =>
    rw [h] at accepted
    contradiction
  | ok table => rfl

/-- The evaluator has no conflicts. -/
theorem ofGrammar_evaluator :
    PredictionTable.ofGrammar evaluator .reject = .ok evaluatorTable :=
  ofGrammar_eq_tableOf (by decide +kernel)

/-- The recognizer has no conflicts. -/
theorem ofGrammar_recognizer :
    PredictionTable.ofGrammar recognizer .reject = .ok recognizerTable :=
  ofGrammar_eq_tableOf (by decide +kernel)

end ArithFrontEnd.Expression
