import ArithFrontEnd.Prediction.Table
import ArithFrontEnd.Text.Lines

/-!
# How a prediction table is shown

Every nonterminal has a headline, and below it a line for each of its cells, in the order in which
they were first filled.

## Main definitions

* `PredictionTable.text` — a table of a grammar.
-/

namespace ArithFrontEnd.PredictionTable

/-- The line of a cell: the terminal, the rule and where an inherited value goes. -/
def cellLine (g : Grammar) (cell : TerminalId × Entry) : String :=
  let inherited := cell.2.inherited.elim "" fun offset => s!" (inherited: +{offset})"
  s!"- {g.terminalName cell.1} => {g.ruleText cell.2.rule}{inherited}"

/-- The lines of a nonterminal. -/
def rowText (g : Grammar) (n : NonterminalId) (row : Row) : String :=
  Text.lines (s!"#### {g.nonterminalName n}" :: row.map (cellLine g))

/-- The lines of all nonterminals, with an empty line between one and the next. -/
def text (g : Grammar) (table : PredictionTable) : String :=
  String.intercalate "\n" (table.rows.zipIdx.map fun (row, n) => rowText g n row)

end ArithFrontEnd.PredictionTable
