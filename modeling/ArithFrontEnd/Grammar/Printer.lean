import ArithFrontEnd.Grammar.Load

/-!
# Grammars as grammar texts

A grammar is written as the text that it can be loaded from: a statement about the start symbol, one
about the nonterminals that inherit, if there are any, and a rule on each line in order of the
numbers.

## Main definitions

* `Grammar.inheritedNames` — the names of the nonterminals that inherit.
* `Grammar.source` — a grammar as a text.
* `Grammar.statements` — the statements of that text.
-/

namespace ArithFrontEnd

namespace Grammar

/-- The names of the nonterminals that inherit, in order of their numbers. -/
def inheritedNames (g : Grammar) : List String :=
  (g.nonterminals.filter (·.inherited)).map (·.name)

/-- The statement about inherited attributes, if there is anything to state. -/
def inheritLines (g : Grammar) : List String :=
  match g.inheritedNames with
  | [] => []
  | names => ["@inherit " ++ String.intercalate " " names ++ ";"]

/-- A grammar as a text that it can be loaded from. -/
def source (g : Grammar) : String :=
  Text.lines ([s!"@start {g.nonterminalName g.start};"] ++ g.inheritLines ++
    g.rules.map fun rule => g.toVocabulary.ruleText rule ++ ";")

end Grammar

/-- How a symbol is written in a statement. -/
def Vocabulary.element (v : Vocabulary) : GrammarSymbol → GrammarText.Element
  | .terminal t => .symbol (v.terminalName t)
  | .nonterminal n => .symbol (v.nonterminalName n)
  | .action a => .action a

/-- A right-hand side as an alternative, in which the empty string is written out where there is no
symbol. -/
def Vocabulary.alternative (v : Vocabulary) (rule : Rule) : GrammarText.Alternative :=
  (if rule.isEmpty then [.empty] else []) ++ rule.right.map v.element

namespace Grammar

/-- The statement about inherited attributes, if there is anything to state. -/
def inheritStatements (g : Grammar) : List GrammarText.Statement :=
  match g.inheritedNames with
  | [] => []
  | name :: others => [.inherit name others]

/-- The statements that a grammar is written by. -/
def statements (g : Grammar) : List GrammarText.Statement :=
  [.start (g.nonterminalName g.start)] ++ g.inheritStatements ++
    g.rules.map fun rule =>
      .rule (g.nonterminalName rule.left) (g.toVocabulary.alternative rule) []

end Grammar

end ArithFrontEnd
