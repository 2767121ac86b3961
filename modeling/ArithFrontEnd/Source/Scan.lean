import ArithFrontEnd.Log
import ArithFrontEnd.Source.Token
import ArithFrontEnd.Text.Fragments

/-!
# Scanning a source text

A source text is cut into fragments from left to right: runs of blanks, comments in braces, and
lexemes. Each fragment is the longest that can start where the one before it ends. The lexemes
become tokens.

## Main definitions

* `Form`, `extent` — what fragments there are, and how far one reaches.
* `token?` — the token of a fragment.
* `Token.scan` — the tokens of a text.
* `Token.scanEvents` — what the log shows of a scan.
-/

namespace ArithFrontEnd.Source

/-- What a fragment of a source text is. -/
inductive Form
  /-- A run of spaces, tabulations and line ends. -/
  | blank
  /-- A comment from a brace to the next closing brace, or to the end of the text. -/
  | comment
  /-- A letter with the letters and digits after it. -/
  | word
  /-- A run of digits. -/
  | number
  /-- A run of digits with a word after it. -/
  | malformedNumber
  /-- An operator. -/
  | operator
  /-- A colon without the sign of equality that would make it an operator. -/
  | loneColon
  /-- A delimiter. -/
  | delimiter
  /-- A character that starts no other fragment. -/
  | unknown
  deriving DecidableEq, Repr

/-- The blanks between lexemes: space, tabulations, line feed, form feed and carriage return. -/
def isSpace (c : Char) : Bool :=
  c == ' ' || c == '\t' || c == '\n' || c == '\r' || c == '\x0b' || c == '\x0c'

/-- The operators of one character that start no longer one. -/
def isPlainOperator (c : Char) : Bool :=
  ['+', '-', '*', '/', '=', '#'].contains c

/-- The delimiters. -/
def isDelimiter (c : Char) : Bool :=
  ['(', ')', ',', ';', '.'].contains c

/-- The number of characters up to and including the closing brace, or up to the end. -/
def commentLength : List Char → Nat
  | [] => 0
  | c :: cs => if c = '\x7d' then 1 else commentLength cs + 1

/-- The digits after the first one, and the word that may be attached to them. -/
def numberExtent (cs : List Char) : Form × Nat :=
  let digits := (cs.takeWhile Char.isDigit).length
  match cs.drop digits with
  | [] => (.number, digits)
  | d :: ds =>
    if d.isAlpha then
      (.malformedNumber, digits + 1 + (ds.takeWhile Char.isAlphanum).length)
    else
      (.number, digits)

/-- What the fragment is that starts with `c`, and how many of the characters `cs` after `c` belong
to it. -/
def extent : Text.Extent Form := fun c cs =>
  if isSpace c then (.blank, (cs.takeWhile isSpace).length)
  else if c = '\x7b' then (.comment, commentLength cs)
  else if c.isAlpha then (.word, (cs.takeWhile Char.isAlphanum).length)
  else if c.isDigit then numberExtent cs
  else if isPlainOperator c then (.operator, 0)
  else if c = '<' ∨ c = '>' then (.operator, if cs.head? = some '=' then 1 else 0)
  else if c = ':' then if cs.head? = some '=' then (.operator, 1) else (.loneColon, 0)
  else if isDelimiter c then (.delimiter, 0)
  else (.unknown, 0)

/-- The token of a word: a keyword or an identifier, in lower case. -/
def wordToken (word : String) (line : Nat) : Token :=
  ⟨if Token.keywords.contains word then .keyword else .identifier, word, line⟩

/-- The token that a fragment at this line stands for, if it is a lexeme. -/
def token? (f : Text.Fragment Form) (line : Nat) : Option Token :=
  match f.form with
  | .blank => none
  | .comment => none
  | .word => some (wordToken (String.ofList (f.text.map Char.toLower)) line)
  | .number => some ⟨.number, f.string, line⟩
  | .operator => some ⟨.operator, f.string, line⟩
  | .delimiter => some ⟨.delimiter, f.string, line⟩
  | .malformedNumber => some ⟨.invalid, f.string, line⟩
  | .loneColon => some ⟨.invalid, f.string, line⟩
  | .unknown => some ⟨.invalid, f.string, line⟩

/-- What is wrong with a fragment that becomes an invalid token. -/
def complaint? (f : Text.Fragment Form) : Option String :=
  match f.form with
  | .malformedNumber => some "Invalid identifier"
  | .loneColon => some "Invalid operator"
  | .unknown => some "Unknown symbol"
  | _ => none

/-- What the log shows of a fragment: what is wrong with it, and the token. -/
def fragmentEvents (f : Text.Fragment Form) (line : Nat) : List Log.Event :=
  ((complaint? f).map fun what => ⟨.error, s!"line {line}: {what} `{f.string}'"⟩).toList ++
    ((token? f line).map fun token => ⟨.trace, token.record⟩).toList

end ArithFrontEnd.Source

namespace ArithFrontEnd.Token

/-- The tokens of a source text. -/
def scan (source : String) : List Token :=
  (Text.located Source.extent source).filterMap fun (f, line) => Source.token? f line

/-- What the log shows of a scan. -/
def scanEvents (source : String) : List Log.Event :=
  (Text.located Source.extent source).flatMap fun (f, line) => Source.fragmentEvents f line

end ArithFrontEnd.Token
