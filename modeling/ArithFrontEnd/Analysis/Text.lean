import ArithFrontEnd.Analysis.Sets
import ArithFrontEnd.Text.Lines

/-!
# How the sets of a grammar are shown

A set is shown by the names of its terminals in braces, in order of their numbers. The empty string
comes last.

## Main definitions

* `Vocabulary.terminalSetText`, `Vocabulary.firstSetText` — a set.
* `Analysis.text` — all sets of a grammar.
-/

namespace ArithFrontEnd

namespace Vocabulary

/-- The names of the terminals of a set, in braces. -/
def terminalSetText (v : Vocabulary) (s : TerminalSet) : String :=
  Text.braced (s.ids.map v.terminalName)

/-- The names of the terminals that can begin a sequence, in braces, and the empty string. -/
def firstSetText (v : Vocabulary) (s : FirstSet) : String :=
  Text.braced (s.terminals.ids.map v.terminalName ++ if s.nullable then ["ε"] else [])

end Vocabulary

namespace Analysis

/-- A line for every nonterminal with its set. -/
def nonterminalLines {α : Type} (g : Grammar) (render : α → String) (sets : List α) : String :=
  Text.lines (sets.zipIdx.map fun (set, n) => s!"{g.nonterminalName n}: {render set}")

/-- FIRST and FOLLOW of every nonterminal and SELECT of every rule. -/
def text (g : Grammar) (a : Analysis) : String :=
  "## FIRST\n" ++ nonterminalLines g g.firstSetText a.first ++
    "\n## FOLLOW\n" ++ nonterminalLines g g.terminalSetText a.follow ++
    "\n## SELECT\n" ++
    Text.lines (a.select.zipIdx.map fun (set, r) => s!"{g.ruleText r}: {g.terminalSetText set}")

end Analysis

end ArithFrontEnd
