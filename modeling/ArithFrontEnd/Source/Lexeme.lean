import ArithFrontEnd.Source.Scan

/-!
# Classes of lexemes

What a scanner finds by reading from the left can also be said of a finished text: which texts are
words, numbers, comments and so on. The classes are stated here without the scanner.

## Main definitions

* `isWord`, `isNumber`, `isMalformedNumber`, `isComment`, `isUnknown` — texts of one class.
* `Form.admits` — the texts that a fragment of a form may have.
* `TokenKind.admits`, `Token.IsLexical` — the texts that a token of a kind may have.

## Main results

* `Form.admits_ne_nil` — no class holds the empty text.
-/

namespace ArithFrontEnd.Source

/-- A letter with letters and digits after it. -/
def isWord : List Char → Bool
  | [] => false
  | c :: cs => c.isAlpha && cs.all Char.isAlphanum

/-- One or more digits. -/
def isNumber (cs : List Char) : Bool := !cs.isEmpty && cs.all Char.isDigit

/-- One or more digits with a word after them. -/
def isMalformedNumber (cs : List Char) : Bool :=
  isNumber (cs.takeWhile Char.isDigit) && isWord (cs.dropWhile Char.isDigit)

/-- An opening brace with no closing brace after it but perhaps as the last character. -/
def isComment : List Char → Bool
  | [] => false
  | c :: cs => c == '\x7b' && !cs.dropLast.contains '\x7d'

/-- The operators. -/
def operators : List String := ["+", "-", "*", "/", "=", "#", "<", "<=", ">", ">=", ":="]

/-- The delimiters. -/
def delimiters : List String := ["(", ")", ",", ";", "."]

/-- A single character with which no text of another class begins. -/
def isUnknown (cs : List Char) : Bool :=
  match cs with
  | [c] =>
    !(isSpace c || c == '\x7b' || c.isAlphanum || c == ':' ||
      (operators ++ delimiters).contains (String.ofList cs))
  | _ => false

/-- The texts that a fragment of a form may have. -/
def Form.admits (form : Form) (cs : List Char) : Bool :=
  match form with
  | .blank => !cs.isEmpty && cs.all isSpace
  | .comment => isComment cs
  | .word => isWord cs
  | .number => isNumber cs
  | .malformedNumber => isMalformedNumber cs
  | .operator => operators.contains (String.ofList cs)
  | .loneColon => cs == [':']
  | .delimiter => delimiters.contains (String.ofList cs)
  | .unknown => isUnknown cs

/-- The empty text is of no class. -/
theorem Form.admits_ne_nil {form : Form} {cs : List Char} (h : form.admits cs = true) :
    cs ≠ [] := by
  rintro rfl
  cases form <;> revert h <;> decide

/-- The form is that of lexemes, which become tokens. -/
def Form.isLexeme : Form → Bool
  | .blank => false
  | .comment => false
  | _ => true

end ArithFrontEnd.Source

namespace ArithFrontEnd

/-- The texts that a token of a kind may have when it comes from a source text: words are in lower
case, and what no other kind admits is invalid. -/
def TokenKind.admits (kind : TokenKind) (text : String) : Bool :=
  let cs := text.toList
  match kind with
  | .keyword => Token.keywords.contains text
  | .identifier =>
    Source.isWord cs && cs.all (fun c => !c.isUpper) && !Token.keywords.contains text
  | .number => Source.isNumber cs
  | .operator => Source.operators.contains text
  | .delimiter => Source.delimiters.contains text
  | .invalid => Source.isMalformedNumber cs || cs == [':'] || Source.isUnknown cs

/-- The kind and the text of a token fit together as they do in a source text. -/
def Token.IsLexical (token : Token) : Prop := token.kind.admits token.text = true

instance (token : Token) : Decidable token.IsLexical :=
  inferInstanceAs (Decidable (_ = _))

end ArithFrontEnd
