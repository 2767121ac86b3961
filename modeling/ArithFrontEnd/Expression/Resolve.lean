import ArithFrontEnd.Arithmetic.Numeral
import ArithFrontEnd.Engine.Predictor
import ArithFrontEnd.Grammar.Basic
import ArithFrontEnd.Log
import ArithFrontEnd.Source.Token

/-!
# Tokens as terminals of a grammar

A grammar of expressions speaks of identifiers and numbers by one terminal each, and of every other
token by its text. A token without a counterpart in the grammar is an instance of the unknown
terminal. The value of a number is known if it is small enough, and that of an identifier is not.

## Main definitions

* `Token.terminalName?`, `Token.terminal`, `Token.value` — a token as a terminal, and its value.
* `Token.resolve` — tokens as a parser reads them.
* `Token.resolveEvents` — what the log shows of numbers without a value.
-/

namespace ArithFrontEnd.Token

/-- The name of the terminal that a token is an instance of. -/
def terminalName? (token : Token) : Option String :=
  match token.kind with
  | .identifier => some "id"
  | .number => some "num"
  | .keyword => some token.text
  | .operator => some token.text
  | .delimiter => some token.text
  | .invalid => none

/-- The terminal of a grammar that a token is an instance of. -/
def terminal (v : Vocabulary) (token : Token) : TerminalId :=
  (token.terminalName?.bind v.terminal?).getD .unknown

/-- The value of a token. -/
def value (token : Token) : TokenValue :=
  match token.kind with
  | .identifier => .unknown
  | .number => (Numeral.value? token.text).elim .unknown .known
  | _ => .nothing

/-- A token as a parser reads it, with or without its value. -/
def resolve (v : Vocabulary) (withValues : Bool) (token : Token) : InputToken TerminalId :=
  ⟨token.terminal v, if withValues then token.value else .nothing, s!"`{token.text}'"⟩

/-- Tokens as a parser reads them. -/
def resolveAll (v : Vocabulary) (withValues : Bool) (tokens : List Token) :
    List (InputToken TerminalId) :=
  tokens.map (resolve v withValues)

/-- What the log shows of a number without a value. -/
def rangeEvents (token : Token) : List Log.Event :=
  match token.kind, Numeral.read token.text with
  | .number, .error e =>
    [⟨.warn, s!"line {token.line}: `{token.text}' is out of range: {e.message}"⟩]
  | _, _ => []

/-- What the log shows when tokens are given to a parser. -/
def resolveEvents (withValues : Bool) (tokens : List Token) : List Log.Event :=
  if withValues then tokens.flatMap rangeEvents else []

end ArithFrontEnd.Token
