import ArithFrontEnd.GrammarText.Token
import ArithFrontEnd.Text.Lines
import ArithFrontEnd.Text.Quoted

/-!
# Statements of a grammar text

A grammar text is a sequence of statements. One names the start symbol, one names symbols with an
inherited attribute, and one gives the alternatives of a left-hand side. The types leave no room for
a statement that cannot be written: there is at least one inherited symbol and at least one
alternative.

## Main definitions

* `Element`, `Alternative`, `Statement` — the parts of a grammar text.
* `Statement.tokens` — the tokens of a statement, the inverse of parsing.
* `Statement.record` — a statement in the log.
-/

namespace ArithFrontEnd.GrammarText

/-- An element of an alternative. -/
inductive Element
  /-- A symbol by its name. -/
  | symbol (name : String)
  /-- An action by its number. -/
  | action (number : Nat)
  /-- The empty string, written out. -/
  | empty
  deriving DecidableEq, Repr

/-- A right-hand side: a sequence of elements, perhaps none. -/
abbrev Alternative := List Element

/-- A statement of a grammar text. -/
inductive Statement
  /-- The start symbol. -/
  | start (name : String)
  /-- Symbols with an inherited attribute, the first and the others. -/
  | inherit (name : String) (others : List String)
  /-- A left-hand side with its alternatives, the first and the others. -/
  | rule (left : String) (alternative : Alternative) (others : List Alternative)
  deriving DecidableEq, Repr

/-- The token of an element. -/
def Element.token : Element → Token
  | .symbol name => .symbol name
  | .action number => .action number
  | .empty => .empty

/-- The element that a token stands for. -/
def Element.ofToken? : Token → Option Element
  | .symbol name => some (.symbol name)
  | .action number => some (.action number)
  | .empty => some .empty
  | _ => none

theorem Element.ofToken?_eq_some_iff {t : Token} {e : Element} :
    Element.ofToken? t = some e ↔ t = e.token := by
  cases t <;> cases e <;> simp [ofToken?, token, eq_comm]

/-- The tokens of the alternatives of a rule, with the semicolon after them. -/
def alternativeTokens (alternative : Alternative) : List Alternative → List Token
  | [] => alternative.map Element.token ++ [.semicolon]
  | next :: others => alternative.map Element.token ++ .bar :: alternativeTokens next others

/-- The tokens of a statement. -/
def Statement.tokens : Statement → List Token
  | .start name => [.start, .symbol name, .semicolon]
  | .inherit name others => .inherit :: (name :: others).map Token.symbol ++ [.semicolon]
  | .rule left alternative others =>
    .symbol left :: .arrow :: alternativeTokens alternative others

/-- An element in the log. -/
def Element.record : Element → String
  | .symbol name => s!"Ident({Text.quote name})"
  | .action number => s!"Action({number})"
  | .empty => "Empty"

/-- An alternative in the log. -/
def Alternative.record (alternative : Alternative) : String :=
  s!"Production \x7b elems: {Text.bracketed (alternative.map Element.record)} \x7d"

/-- A statement in the log. -/
def Statement.record : Statement → String
  | .start name => s!"StartDesc(StartDesc \x7b name: {Text.quote name} \x7d)"
  | .inherit name others =>
    let names := Text.bracketed ((name :: others).map Text.quote)
    s!"InheritDesc(InheritDesc \x7b idents: {names} \x7d)"
  | .rule left alternative others =>
    let productions := Text.bracketed ((alternative :: others).map Alternative.record)
    s!"RuleDesc(RuleDesc \x7b left: {Text.quote left}, productions: {productions} \x7d)"

end ArithFrontEnd.GrammarText
