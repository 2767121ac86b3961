/-!
# Symbols

A right-hand side is made of terminals, nonterminals and actions. Each is named by a number. The
numbers of terminals start with two reserved ones: the end of the input, and the terminal of a token
that the grammar does not know.

## Main definitions

* `Symbol` — a terminal, a nonterminal or an action.
* `TerminalId`, `NonterminalId`, `RuleId`, `ActionId` — the numbers of a grammar's parts.
* `TerminalId.endOfInput`, `TerminalId.unknown` — the reserved terminals.
-/

namespace ArithFrontEnd

/-- A symbol of a right-hand side, over any names of terminals, nonterminals and actions. -/
inductive Symbol (T N A : Type)
  /-- A terminal. -/
  | terminal (t : T)
  /-- A nonterminal. -/
  | nonterminal (n : N)
  /-- A semantic action, which stands for the empty string. -/
  | action (a : A)
  deriving DecidableEq, Repr

namespace Symbol

variable {T N A : Type}

/-- The symbol is an action. -/
def isAction : Symbol T N A → Bool
  | action _ => true
  | _ => false

/-- The action that the symbol is. -/
def action? : Symbol T N A → Option A
  | action a => some a
  | _ => none

/-- The cells that a symbol takes on an analysis stack: a nonterminal has one beneath it that waits
for its value. -/
def width : Symbol T N A → Nat
  | nonterminal _ => 2
  | _ => 1

end Symbol

/-- The number of a terminal. -/
abbrev TerminalId := Nat

/-- The number of a nonterminal. -/
abbrev NonterminalId := Nat

/-- The number of a rule. -/
abbrev RuleId := Nat

/-- The number of an action. -/
abbrev ActionId := Nat

/-- The reserved terminal that stands for the end of the input. -/
def TerminalId.endOfInput : TerminalId := 0

/-- The reserved terminal of tokens that have no counterpart in the grammar. -/
def TerminalId.unknown : TerminalId := 1

/-- The number of reserved terminals, and so the number of the first declared one. -/
def TerminalId.reserved : Nat := 2

/-- A symbol of a grammar. -/
abbrev GrammarSymbol := Symbol TerminalId NonterminalId ActionId

end ArithFrontEnd
