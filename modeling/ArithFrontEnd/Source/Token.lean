import ArithFrontEnd.Text.Quoted

/-!
# Tokens of a source text

A token has a kind, a text and the number of the line where it starts. Words are kept in lower case.
What no token can be made of is kept as a token too, of the kind `invalid`.

## Main definitions

* `TokenKind`, `Token` — the tokens and their kinds.
* `Token.keywords` — the words that are no identifiers.
* `Token.identifierCounts` — how often each identifier occurs.
-/

namespace ArithFrontEnd

/-- The kinds of tokens. -/
inductive TokenKind
  /-- A reserved word. -/
  | keyword
  /-- Any other word. -/
  | identifier
  /-- A run of digits. -/
  | number
  /-- A sign of arithmetic, of comparison or of assignment. -/
  | operator
  /-- A parenthesis or a mark of punctuation. -/
  | delimiter
  /-- A text that no other kind allows. -/
  | invalid
  deriving DecidableEq, Repr

/-- The name of a kind. -/
def TokenKind.name : TokenKind → String
  | .keyword => "keyword"
  | .identifier => "identifier"
  | .number => "number"
  | .operator => "operator"
  | .delimiter => "delimiter"
  | .invalid => "invalid"

/-- The name of a kind in the log. -/
def TokenKind.label (kind : TokenKind) : String := kind.name.capitalize

/-- A token of a source text. -/
structure Token where
  /-- The kind of the token. -/
  kind : TokenKind
  /-- The text of the token, in lower case if it is a word. -/
  text : String
  /-- The number of the line where the token starts, counted from one. -/
  line : Nat
  deriving DecidableEq, Repr

namespace Token

/-- The reserved words. -/
def keywords : List String :=
  ["const", "var", "procedure", "begin", "end", "if", "then", "while", "do", "call", "odd", "write",
    "read"]

/-- The token is of this kind and its text is among these. -/
def isOneOf (token : Token) (kind : TokenKind) (texts : List String) : Bool :=
  token.kind == kind && texts.contains token.text

/-- The record of a token in the log. -/
def record (token : Token) : String :=
  s!"Token \x7b kind: {token.kind.label}, text: {Text.quote token.text}, line: {token.line} \x7d"

/-- The number of tokens of the kind `invalid`. -/
def invalidCount (tokens : List Token) : Nat :=
  tokens.countP (·.kind == .invalid)

/-- The texts of the identifiers, in order and with repetitions. -/
def identifiers (tokens : List Token) : List String :=
  (tokens.filter (·.kind == .identifier)).map (·.text)

/-- How often each identifier occurs, in order of first appearance. -/
def identifierCounts (tokens : List Token) : List (String × Nat) :=
  (identifiers tokens).eraseDups.map fun name => (name, (identifiers tokens).count name)

end Token

end ArithFrontEnd
