import ArithFrontEnd.Grammar.Vocabulary
import ArithFrontEnd.Text.Lines

/-!
# Grammars

A grammar is a vocabulary with a list of rules and a start symbol. The number of a rule is its
position in the list.

## Main definitions

* `Rule`, `Rule.symbols`, `Rule.actions` — a rule and the parts of its right-hand side.
* `Grammar`, `Grammar.ruleText`, `Grammar.text` — a grammar, and how it is shown.
* `Grammar.withoutRules` — the nonterminals without a rule.
-/

namespace ArithFrontEnd

/-- A rule: a nonterminal and what it may be replaced by. -/
structure Rule where
  /-- The left-hand side. -/
  left : NonterminalId
  /-- The right-hand side with its actions. -/
  right : List GrammarSymbol
  deriving DecidableEq, Repr

namespace Rule

/-- The right-hand side without its actions. -/
def symbols (rule : Rule) : List GrammarSymbol := rule.right.filter (!·.isAction)

/-- The actions of the right-hand side. -/
def actions (rule : Rule) : List ActionId := rule.right.filterMap Symbol.action?

/-- The right-hand side stands for the empty string alone. -/
def isEmpty (rule : Rule) : Bool := rule.symbols.isEmpty

end Rule

/-- A grammar: declared symbols, rules and a start symbol. -/
structure Grammar extends Vocabulary where
  /-- The rules in order of their numbers. -/
  rules : List Rule
  /-- The start symbol. -/
  start : NonterminalId
  deriving DecidableEq, Repr

namespace Vocabulary

/-- How a rule is written. A right-hand side without symbols shows that it is empty. -/
def ruleText (v : Vocabulary) (rule : Rule) : String :=
  let empty := if rule.isEmpty then " ε" else ""
  let right := String.join (rule.right.map fun symbol => " " ++ v.symbolText symbol)
  s!"{v.nonterminalName rule.left} ->{empty}{right}"

end Vocabulary

namespace Grammar

/-- How the rule of a number is written. -/
def ruleText (g : Grammar) (r : RuleId) : String :=
  (g.rules[r]?).elim "" g.toVocabulary.ruleText

/-- The line of a nonterminal, which says whether it is the start symbol and whether it inherits. -/
def nonterminalLine (g : Grammar) (n : NonterminalId) : String :=
  let start := if n = g.start then " (start)" else ""
  let inherited := if g.isInherited n then " (inherited)" else ""
  s!"{g.nonterminalName n}{start}{inherited}"

/-- How a grammar is shown: its terminals with the end of the input, its nonterminals and its
rules. -/
def text (g : Grammar) : String :=
  "## terminals:\n" ++
    Text.lines (g.terminalName .endOfInput :: g.terminals) ++
    "\n## nonterminals:\n" ++
    Text.lines ((List.range g.nonterminals.length).map g.nonterminalLine) ++
    "\n## rules:\n" ++
    Text.lines (g.rules.map g.toVocabulary.ruleText)

/-- The nonterminals that are on no left-hand side. -/
def withoutRules (g : Grammar) : List NonterminalId :=
  (List.range g.nonterminals.length).filter fun n => g.rules.all fun rule => rule.left ≠ n

end Grammar

end ArithFrontEnd
