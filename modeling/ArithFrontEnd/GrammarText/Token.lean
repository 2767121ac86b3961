import ArithFrontEnd.Text.Blank
import ArithFrontEnd.Text.Fragments

/-!
# Tokens of a grammar text

A grammar text is cut into fragments from left to right: runs of blanks, comments that reach to the
end of the line, and lexemes. Each fragment is the longest that can start where the one before it
ends. A run of characters that holds no blank and none of `;`, `|` and the braces is a symbol,
unless it is one of the fixed words. A braced number is an action.

## Main definitions

* `Form`, `extent` — what fragments there are, and how far one reaches.
* `Token`, `Token.describe` — the tokens, and how a message names one.
* `scan` — the tokens of a text with their lines, or the first fragment that is none.
-/

namespace ArithFrontEnd.GrammarText

/-- What a fragment of a grammar text is. -/
inductive Form
  /-- A run of spaces, tabulations and line ends. -/
  | blank
  /-- A comment, from two slashes to the end of the line. -/
  | comment
  /-- The bar between alternatives. -/
  | bar
  /-- The semicolon after a statement. -/
  | semicolon
  /-- Digits in braces. -/
  | action
  /-- A symbol or a fixed word. -/
  | word
  /-- Characters that start no other fragment. -/
  | stray
  deriving DecidableEq, Repr

/-- The blanks between tokens: space, tabulation, line feed, form feed and carriage return. -/
def isSpace (c : Char) : Bool :=
  c == ' ' || c == '\t' || c == '\n' || c == '\r' || c == '\x0c'

/-- The characters of symbols. -/
def isSymbolChar (c : Char) : Bool :=
  !(Text.isBlank c || c == ';' || c == '|' || c == '\x7b' || c == '\x7d')

/-- What the fragment is that starts with an opening brace: an action, if digits and a closing brace
follow, and else the brace with the digits after it. -/
def braceExtent (cs : List Char) : Form × Nat :=
  let digits := (cs.takeWhile Char.isDigit).length
  if digits ≠ 0 ∧ (cs.drop digits).head? = some '\x7d' then (.action, digits + 1)
  else (.stray, digits)

/-- What the fragment is that starts with the symbol character `c`. Two slashes start a comment. -/
def wordExtent (c : Char) (cs : List Char) : Form × Nat :=
  if c = '/' ∧ cs.head? = some '/' then (.comment, (cs.takeWhile (· != '\n')).length)
  else (.word, (cs.takeWhile isSymbolChar).length)

/-- What the fragment is that starts with `c`, and how many of the characters `cs` after `c` belong
to it. -/
def extent : Text.Extent Form := fun c cs =>
  if isSpace c then (.blank, (cs.takeWhile isSpace).length)
  else if c = '|' then (.bar, 0)
  else if c = ';' then (.semicolon, 0)
  else if c = '\x7b' then braceExtent cs
  else if isSymbolChar c then wordExtent c cs
  else (.stray, 0)

/-- A token of a grammar text. -/
inductive Token
  /-- The arrow after a left-hand side. -/
  | arrow
  /-- The bar between alternatives. -/
  | bar
  /-- The semicolon after a statement. -/
  | semicolon
  /-- The word that names the start symbol. -/
  | start
  /-- The word that names symbols with an inherited attribute. -/
  | inherit
  /-- The empty string, written by a letter or by a word. -/
  | empty
  /-- An action by its number. -/
  | action (number : Nat)
  /-- A symbol by its name. -/
  | symbol (name : String)
  deriving DecidableEq, Repr

namespace Token

/-- The largest number of an action. -/
def maxAction : Nat := 65535

/-- How a message names a token. -/
def describe : Token → String
  | .arrow => "`->'"
  | .bar => "`|'"
  | .semicolon => "`;'"
  | .start => "`@start'"
  | .inherit => "`@inherit'"
  | .empty => "`ε'"
  | .action number => s!"action \x7b{number}\x7d"
  | .symbol name => s!"symbol `{name}'"

/-- The token of a run of symbol characters: a fixed word or a symbol. -/
def ofWord (word : String) : Token :=
  if word = "->" then .arrow
  else if word = "@start" then .start
  else if word = "@inherit" then .inherit
  else if word = "@empty" ∨ word = "ε" then .empty
  else .symbol word

end Token

/-- The number that decimal digits write. -/
def decimal (digits : List Char) : Nat :=
  digits.foldl (fun n c => 10 * n + (c.toNat - '0'.toNat)) 0

/-- The action that a braced number stands for, if the number is small enough. -/
def action? (f : Text.Fragment Form) : Option Token :=
  let number := decimal (f.text.filter Char.isDigit)
  if number ≤ Token.maxAction then some (.action number) else none

/-- What a fragment says: nothing, a token, or a text that is no token. -/
inductive Reading
  /-- The fragment separates tokens. -/
  | nothing
  /-- The fragment is a token. -/
  | token (t : Token)
  /-- The fragment has no place in a grammar text. -/
  | unexpected
  deriving DecidableEq, Repr

/-- Read a fragment. -/
def readFragment (f : Text.Fragment Form) : Reading :=
  match f.form with
  | .blank => .nothing
  | .comment => .nothing
  | .bar => .token .bar
  | .semicolon => .token .semicolon
  | .word => .token (.ofWord f.string)
  | .action => (action? f).elim .unexpected .token
  | .stray => .unexpected

/-- A token with the number of the line where it starts, counted from one. -/
structure Located where
  /-- The number of the line. -/
  line : Nat
  /-- The token. -/
  token : Token
  deriving DecidableEq, Repr

/-- A fragment of a grammar text that is no token. -/
structure ScanError where
  /-- The number of the line where the fragment starts. -/
  line : Nat
  /-- The text of the fragment. -/
  text : String
  deriving DecidableEq, Repr

/-- What is said of a fragment that is no token. -/
def ScanError.message (e : ScanError) : String :=
  s!"line {e.line}: unexpected character(s) `{e.text}'"

/-- The tokens of fragments with their lines, up to the first fragment that is none. -/
def tokens : List (Text.Fragment Form × Nat) → Except ScanError (List Located)
  | [] => .ok []
  | (f, line) :: fs =>
    match readFragment f with
    | .nothing => tokens fs
    | .token t => (tokens fs).map (⟨line, t⟩ :: ·)
    | .unexpected => .error ⟨line, f.string⟩

/-- The tokens of a grammar text. -/
def scan (source : String) : Except ScanError (List Located) :=
  tokens (Text.located extent source)

end ArithFrontEnd.GrammarText
