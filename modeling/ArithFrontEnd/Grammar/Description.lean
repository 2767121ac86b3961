import ArithFrontEnd.Grammar.Load

/-!
# What a grammar text describes

The statements of a grammar text describe a grammar as a whole, whatever their order. Its symbols
are the names that occur in rules, in order of first appearance; its rules are the alternatives, in
order; what is stated about the start symbol and about inherited attributes holds wherever it is
stated. Not all statements make sense together: a list of conditions says which do.

## Main definitions

* `GrammarText.Statement.productions`, `symbolNames` — the alternatives and the names of rules.
* `Coherent` — the conditions under which statements make sense together.
* `Grammar.described` — the grammar that statements describe.
-/

namespace ArithFrontEnd

namespace GrammarText

/-- The name of a symbol. -/
def Element.name? : Element → Option String
  | .symbol name => some name
  | _ => none

/-- A left-hand side with one of its alternatives, in which the empty string is not written out. -/
structure NamedRule where
  /-- The name on the left-hand side. -/
  left : String
  /-- The symbols and actions on the right-hand side. -/
  right : Alternative
  deriving DecidableEq, Repr

namespace Statement

/-- The alternatives that a statement gives, each with its left-hand side. -/
def productions : Statement → List NamedRule
  | .rule left alternative others =>
    (alternative :: others).map fun elements => ⟨left, elements.filter (· ≠ .empty)⟩
  | _ => []

/-- The names of the symbols in a rule, with repetitions. -/
def symbolNames : Statement → List String
  | .rule left alternative others =>
    left :: (alternative :: others).flatMap fun elements => elements.filterMap Element.name?
  | _ => []

/-- The name on the left-hand side of a rule. -/
def left? : Statement → Option String
  | .rule left _ _ => some left
  | _ => none

/-- The name of the start symbol that is stated. -/
def start? : Statement → Option String
  | .start name => some name
  | _ => none

/-- The names that are stated to inherit. -/
def inherited : Statement → List String
  | .inherit name others => name :: others
  | _ => []

end Statement

end GrammarText

namespace Grammar

open GrammarText

/-- The names of all symbols in rules, in order of first appearance. -/
def describedNames (ss : List Statement) : List String :=
  (ss.flatMap Statement.symbolNames).eraseDups

/-- The names of the terminals. -/
def describedTerminals (ss : List Statement) : List String :=
  (describedNames ss).filter (!isNonterminalName ·)

/-- The names of the nonterminals. -/
def describedNonterminals (ss : List Statement) : List String :=
  (describedNames ss).filter isNonterminalName

/-- The symbol that an element stands for, where the empty string stands for none. -/
def describedSymbol? (ss : List Statement) : Element → Option GrammarSymbol
  | .symbol name =>
    if isNonterminalName name then some (.nonterminal ((describedNonterminals ss).idxOf name))
    else some (.terminal (TerminalId.reserved + (describedTerminals ss).idxOf name))
  | .action a => some (.action a)
  | .empty => none

/-- The rule that an alternative stands for. -/
def describedRule (ss : List Statement) (rule : NamedRule) : Rule where
  left := (describedNonterminals ss).idxOf rule.left
  right := rule.right.filterMap (describedSymbol? ss)

/-- The name of the start symbol: the one that is stated, or else the first left-hand side. -/
def describedStart (ss : List Statement) : String :=
  ((ss.findSome? Statement.start?) <|> ss.findSome? Statement.left?).getD ""

/-- The grammar that statements describe. -/
def described (ss : List Statement) : Grammar where
  terminals := describedTerminals ss
  nonterminals := (describedNonterminals ss).map fun name =>
    ⟨name, (ss.flatMap Statement.inherited).contains name⟩
  rules := (ss.flatMap Statement.productions).map (describedRule ss)
  start := (describedNonterminals ss).idxOf (describedStart ss)

/-- The statements make sense together: there is a rule and at most one start symbol is stated;
every left-hand side and every name that is stated to be the start symbol or to inherit is that of a
nonterminal that occurs in a rule; no symbol has a reserved name; no rule is given twice; and there
are numbers for all symbols and rules. -/
structure Coherent (ss : List Statement) : Prop where
  /-- There is a rule. -/
  exists_rule : ss.flatMap Statement.productions ≠ []
  /-- At most one start symbol is stated. -/
  start_le_one : (ss.filterMap Statement.start?).length ≤ 1
  /-- Every left-hand side is a nonterminal. -/
  left_isNonterminal : ∀ name ∈ ss.filterMap Statement.left?, isNonterminalName name = true
  /-- No symbol has a reserved name. -/
  not_reserved : ∀ name ∈ describedNames ss, name ∉ Vocabulary.reservedNames
  /-- No rule is given twice. -/
  nodup_rules : (ss.flatMap Statement.productions).Nodup
  /-- What is stated to be the start symbol or to inherit is a nonterminal of a rule. -/
  stated_mem : ∀ name ∈ ss.filterMap Statement.start? ++ ss.flatMap Statement.inherited,
    name ∈ describedNonterminals ss
  /-- There are numbers for the terminals. -/
  terminals_le : TerminalId.reserved + (describedTerminals ss).length ≤ Definition.maxId
  /-- There are numbers for the nonterminals. -/
  nonterminals_le : (describedNonterminals ss).length ≤ Definition.maxId
  /-- There are numbers for the rules. -/
  rules_le : (ss.flatMap Statement.productions).length ≤ Definition.maxId

end Grammar

end ArithFrontEnd
