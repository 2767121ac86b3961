import ArithFrontEnd.Grammar.Symbol

/-!
# Vocabularies

A vocabulary holds the names of the declared symbols in order of declaration, which is the order of
their numbers. Two terminals are there without declaration; they have names, but are not found by
them.

## Main definitions

* `Vocabulary` — the declared symbols.
* `Vocabulary.terminalName`, `Vocabulary.nonterminalName` — the name of a number.
* `Vocabulary.terminal?`, `Vocabulary.nonterminal?` — the number of a name.

## Main results

* `Vocabulary.terminalName_of_terminal?`, `Vocabulary.nonterminalName_of_nonterminal?` — a number
  found by a name has that name.
-/

namespace ArithFrontEnd

/-- A declared nonterminal. -/
structure Nonterminal where
  /-- The name of the nonterminal. -/
  name : String
  /-- The nonterminal receives a value when it is expanded. -/
  inherited : Bool
  deriving DecidableEq, Repr

/-- The declared symbols of a grammar, in order of their numbers. -/
structure Vocabulary where
  /-- The names of the declared terminals, whose numbers follow the reserved ones. -/
  terminals : List String
  /-- The declared nonterminals, numbered from zero. -/
  nonterminals : List Nonterminal
  deriving DecidableEq, Repr

namespace Vocabulary

/-- The names of the reserved terminals. -/
def reservedNames : List String := ["#", "$unknown"]

/-- The names of all terminals, in order of their numbers. -/
def terminalNames (v : Vocabulary) : List String := reservedNames ++ v.terminals

/-- The names of all nonterminals, in order of their numbers. -/
def nonterminalNames (v : Vocabulary) : List String := v.nonterminals.map (·.name)

/-- The terminal has been declared or is reserved. -/
def hasTerminal (v : Vocabulary) (t : TerminalId) : Bool := t < v.terminalNames.length

/-- The nonterminal has been declared. -/
def hasNonterminal (v : Vocabulary) (n : NonterminalId) : Bool := n < v.nonterminals.length

/-- The name of a terminal; a terminal that is not there has the empty name. -/
def terminalName (v : Vocabulary) (t : TerminalId) : String := v.terminalNames.getD t ""

/-- The name of a nonterminal; a nonterminal that is not there has the empty name. -/
def nonterminalName (v : Vocabulary) (n : NonterminalId) : String := v.nonterminalNames.getD n ""

/-- The nonterminal receives a value when it is expanded. -/
def isInherited (v : Vocabulary) (n : NonterminalId) : Bool :=
  v.nonterminals[n]?.any (·.inherited)

/-- The declared terminal of a name. A reserved terminal is not found by its name. -/
def terminal? (v : Vocabulary) (name : String) : Option TerminalId :=
  (v.terminals.idxOf? name).map (TerminalId.reserved + ·)

/-- The nonterminal of a name. -/
def nonterminal? (v : Vocabulary) (name : String) : Option NonterminalId :=
  v.nonterminalNames.idxOf? name

/-- How a symbol is written in a rule. -/
def symbolText (v : Vocabulary) : GrammarSymbol → String
  | .terminal t => v.terminalName t
  | .nonterminal n => v.nonterminalName n
  | .action a => s!"\x7b{a}\x7d"

theorem terminalName_of_terminal? {v : Vocabulary} {name : String} {t : TerminalId}
    (h : v.terminal? name = some t) : v.terminalName t = name := by
  obtain ⟨i, hi, rfl⟩ := Option.map_eq_some_iff.1 h
  obtain ⟨hlt, heq, -⟩ := List.findIdx?_eq_some_iff_getElem.1 hi
  have reserved : reservedNames.length = TerminalId.reserved := rfl
  rw [terminalName, terminalNames, List.getD_eq_getElem?_getD, ← reserved,
    List.getElem?_append_right (Nat.le_add_right ..), Nat.add_sub_cancel_left,
    List.getElem?_eq_getElem hlt]
  simpa using heq

theorem nonterminalName_of_nonterminal? {v : Vocabulary} {name : String} {n : NonterminalId}
    (h : v.nonterminal? name = some n) : v.nonterminalName n = name := by
  obtain ⟨hlt, heq, -⟩ := List.findIdx?_eq_some_iff_getElem.1 h
  rw [nonterminalName, List.getD_eq_getElem?_getD, List.getElem?_eq_getElem hlt]
  simpa using heq

end Vocabulary

end ArithFrontEnd
