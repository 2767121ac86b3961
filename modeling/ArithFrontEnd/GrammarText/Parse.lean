import ArithFrontEnd.GrammarText.Statement
import ArithFrontEnd.Log

/-!
# Parsing a grammar text

A parser reads statements from a list of tokens until no token is left or one cannot continue the
statement. It keeps the number of the line that its error messages name: that of the token taken
last.

## Main definitions

* `Expected`, `ParseError` — what was missing and what stood in its place.
* `parseStatement` — a statement at the head of a list of tokens.
* `parsePrefix` — the statements before the first error, and that error.
* `parse` — the statements of a list of tokens without error.
* `read` — the statements of a grammar text.
-/

namespace ArithFrontEnd.GrammarText

/-- What a parser was waiting for. -/
inductive Expected
  /-- A symbol. -/
  | symbol
  /-- The end of an alternative. -/
  | barOrSemicolon
  /-- The first token of a statement. -/
  | statement
  /-- This very token. -/
  | token (t : Token)
  deriving DecidableEq, Repr

/-- How a message names what was expected. -/
def Expected.describe : Expected → String
  | .symbol => "a symbol"
  | .barOrSemicolon => "`|' or `;'"
  | .statement => "a statement"
  | .token t => t.describe

/-- A token that cannot continue a statement, or the end of the tokens within one. -/
structure ParseError where
  /-- The number of the line that the message names. -/
  line : Nat
  /-- What was expected. -/
  expected : Expected
  /-- What was found, if it was not the end. -/
  found : Option Token
  deriving DecidableEq, Repr

/-- What is said of a token that cannot continue a statement. -/
def ParseError.message (e : ParseError) : String :=
  let found :=
    match e.found with
    | some t => s!"but found {t.describe}"
    | none => "but reached the end of input"
  s!"line {e.line}: expected {e.expected.describe}, {found}"

/-- A list of tokens at which a parser has arrived. -/
structure Cursor where
  /-- The line of the token taken last. -/
  line : Nat
  /-- The tokens that follow. -/
  rest : List Located
  deriving DecidableEq, Repr

/-- The result of a parser that takes tokens from a list: what it read and where it arrived. -/
abbrev Parsed (α : Type) := Except ParseError (α × Cursor)

/-- Take a symbol. -/
def parseSymbol : Cursor → Parsed String
  | ⟨_, ⟨line, .symbol name⟩ :: rest⟩ => .ok (name, ⟨line, rest⟩)
  | ⟨_, ⟨line, t⟩ :: _⟩ => .error ⟨line, .symbol, some t⟩
  | ⟨line, []⟩ => .error ⟨line, .symbol, none⟩

/-- Take this very token. -/
def parseToken (expected : Token) : Cursor → Parsed Unit
  | ⟨_, ⟨line, t⟩ :: rest⟩ =>
    if t = expected then .ok ((), ⟨line, rest⟩) else .error ⟨line, .token expected, some t⟩
  | ⟨line, []⟩ => .error ⟨line, .token expected, none⟩

/-- Take all symbols at the head of a list of tokens, perhaps none. -/
def takeSymbols (line : Nat) : List Located → List String × Cursor
  | ⟨line', .symbol name⟩ :: rest =>
    ((name :: (takeSymbols line' rest).1), (takeSymbols line' rest).2)
  | rest => ([], ⟨line, rest⟩)

/-- Take the alternatives of a rule up to the semicolon: the elements that are left of the first
one, and the others. -/
def parseAlternatives (line : Nat) : List Located → Parsed (Alternative × List Alternative)
  | [] => .error ⟨line, .barOrSemicolon, none⟩
  | ⟨line', .semicolon⟩ :: rest => .ok (([], []), ⟨line', rest⟩)
  | ⟨line', .bar⟩ :: rest =>
    (parseAlternatives line' rest).map fun ((next, others), cursor) =>
      (([], next :: others), cursor)
  | ⟨line', t⟩ :: rest =>
    match Element.ofToken? t with
    | none => .error ⟨line', .barOrSemicolon, some t⟩
    | some e =>
      (parseAlternatives line' rest).map fun ((alternative, others), cursor) =>
        ((e :: alternative, others), cursor)

/-- Take the name and the semicolon of a statement about the start symbol. -/
def parseStart (cursor : Cursor) : Parsed Statement :=
  match parseSymbol cursor with
  | .error e => .error e
  | .ok (name, cursor) =>
    match parseToken .semicolon cursor with
    | .error e => .error e
    | .ok (_, cursor) => .ok (.start name, cursor)

/-- Take the names and the semicolon of a statement about inherited attributes. -/
def parseInherit (cursor : Cursor) : Parsed Statement :=
  match parseSymbol cursor with
  | .error e => .error e
  | .ok (name, cursor) =>
    match parseToken .semicolon (takeSymbols cursor.line cursor.rest).2 with
    | .error e => .error e
    | .ok (_, cursor') => .ok (.inherit name (takeSymbols cursor.line cursor.rest).1, cursor')

/-- Take the arrow, the alternatives and the semicolon of a rule. -/
def parseRule (left : String) (cursor : Cursor) : Parsed Statement :=
  match parseToken .arrow cursor with
  | .error e => .error e
  | .ok (_, cursor) =>
    match parseAlternatives cursor.line cursor.rest with
    | .error e => .error e
    | .ok ((alternative, others), cursor) => .ok (.rule left alternative others, cursor)

/-- Take a statement from a list of tokens that is not empty. A token that starts no statement is
reported at the line of the token before it, because it is looked at and not taken. -/
def parseStatement (line : Nat) (head : Located) (rest : List Located) : Parsed Statement :=
  match head.token with
  | .start => parseStart ⟨head.line, rest⟩
  | .inherit => parseInherit ⟨head.line, rest⟩
  | .symbol left => parseRule left ⟨head.line, rest⟩
  | t => .error ⟨line, .statement, some t⟩

/-! ### A statement takes at least one token -/

theorem length_of_parseSymbol {c c' : Cursor} {name : String}
    (h : parseSymbol c = .ok (name, c')) : c'.rest.length < c.rest.length := by
  unfold parseSymbol at h
  split at h <;> simp_all
  simp [← h.2]

theorem length_of_parseToken {t : Token} {c c' : Cursor} {u : Unit}
    (h : parseToken t c = .ok (u, c')) : c'.rest.length < c.rest.length := by
  unfold parseToken at h
  split at h
  · split at h <;> simp_all
    simp [← h]
  · simp at h

theorem length_takeSymbols (line : Nat) (ts : List Located) :
    (takeSymbols line ts).2.rest.length ≤ ts.length := by
  fun_induction takeSymbols line ts with
  | case1 line line' name rest ih => simp only [List.length_cons]; omega
  | case2 line rest => simp

theorem length_of_parseAlternatives {line : Nat} {ts : List Located} {c : Cursor}
    {as : Alternative × List Alternative} (h : parseAlternatives line ts = .ok (as, c)) :
    c.rest.length < ts.length := by
  fun_induction parseAlternatives line ts generalizing as c with
  | case1 => simp at h
  | case2 => simp_all; simp [← h.2]
  | case3 line line' rest ih =>
    rcases hr : parseAlternatives line' rest with e | ⟨as', c'⟩
    · simp [hr, Except.map] at h
    · simp only [hr, Except.map, Except.ok.injEq, Prod.mk.injEq] at h
      have := ih hr
      rw [← h.2]
      simp only [List.length_cons]
      omega
  | case4 => simp at h
  | case5 line line' t rest _ _ e he ih =>
    rcases hr : parseAlternatives line' rest with e | ⟨as', c'⟩
    · simp [hr, Except.map] at h
    · simp only [hr, Except.map, Except.ok.injEq, Prod.mk.injEq] at h
      have := ih hr
      rw [← h.2]
      simp only [List.length_cons]
      omega

theorem length_of_parseStart {c c' : Cursor} {s : Statement} (h : parseStart c = .ok (s, c')) :
    c'.rest.length < c.rest.length := by
  unfold parseStart at h
  split at h
  · contradiction
  · next hp =>
    split at h
    · contradiction
    · next hq =>
      have hp := length_of_parseSymbol hp
      have hq := length_of_parseToken hq
      cases h
      omega

theorem length_of_parseInherit {c c' : Cursor} {s : Statement}
    (h : parseInherit c = .ok (s, c')) : c'.rest.length < c.rest.length := by
  unfold parseInherit at h
  split at h
  · contradiction
  · next c₁ hp =>
    split at h
    · contradiction
    · next hq =>
      have hp := length_of_parseSymbol hp
      have hq := length_of_parseToken hq
      have := length_takeSymbols c₁.line c₁.rest
      cases h
      omega

theorem length_of_parseRule {c c' : Cursor} {left : String} {s : Statement}
    (h : parseRule left c = .ok (s, c')) : c'.rest.length < c.rest.length := by
  unfold parseRule at h
  split at h
  · contradiction
  · next hp =>
    split at h
    · contradiction
    · next hq =>
      have hp := length_of_parseToken hp
      have hq := length_of_parseAlternatives hq
      cases h
      omega

/-- The tokens left after a statement are fewer than those it was read from. -/
theorem length_of_parseStatement {line : Nat} {head : Located} {rest : List Located}
    {s : Statement} {c : Cursor} (h : parseStatement line head rest = .ok (s, c)) :
    c.rest.length < (head :: rest).length := by
  rw [List.length_cons]
  refine Nat.lt_succ_of_lt ?_
  unfold parseStatement at h
  split at h
  · exact length_of_parseStart h
  · exact length_of_parseInherit h
  · exact length_of_parseRule h
  · contradiction

/-- The statements before the first error, with that error if there is one. -/
def parsePrefix (line : Nat) : List Located → List Statement × Option ParseError
  | [] => ([], none)
  | head :: rest =>
    match _ : parseStatement line head rest with
    | .error e => ([], some e)
    | .ok (s, c) => ((s :: (parsePrefix c.line c.rest).1), (parsePrefix c.line c.rest).2)
termination_by ts => ts.length
decreasing_by all_goals exact length_of_parseStatement (by assumption)

/-- The statements of a list of tokens. -/
def parse (ts : List Located) : Except ParseError (List Statement) :=
  match parsePrefix 1 ts with
  | (statements, none) => .ok statements
  | (_, some e) => .error e

/-- Why a text is no grammar text. -/
inductive Error
  /-- A fragment of the text is no token. -/
  | scan (e : ScanError)
  /-- The tokens are no sequence of statements. -/
  | parse (e : ParseError)
  deriving DecidableEq, Repr

/-- What is said of a text that is no grammar text. -/
def Error.message : Error → String
  | .scan e => e.message
  | .parse e => e.message

/-- The statements of a grammar text. -/
def read (source : String) : Except Error (List Statement) :=
  match scan source with
  | .error e => .error (.scan e)
  | .ok ts =>
    match parse ts with
    | .error e => .error (.parse e)
    | .ok statements => .ok statements

/-- What the log shows of reading a grammar text: every statement up to the first error. -/
def readEvents (source : String) : List Log.Event :=
  match scan source with
  | .error _ => []
  | .ok ts => (parsePrefix 1 ts).1.map fun s => ⟨.trace, s!"parsed: {s.record}"⟩

end ArithFrontEnd.GrammarText
