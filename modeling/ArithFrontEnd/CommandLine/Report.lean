import ArithFrontEnd.Analysis.Text
import ArithFrontEnd.CommandLine.Arguments
import ArithFrontEnd.Expression.Calculator
import ArithFrontEnd.Expression.Descent
import ArithFrontEnd.Grammar.Load
import ArithFrontEnd.Optimizer.Linearize
import ArithFrontEnd.Prediction.Text
import ArithFrontEnd.Quadruple.Listing
import ArithFrontEnd.Source.Scan

/-!
# What a command reports

A command reads at most one file, and reports what it prints, the file that it writes and why it
fails. A failure has a message and perhaps causes, each the cause of the one before.

## Main definitions

* `FileError` — why a file cannot be read or written.
* `Failure`, `Failure.text` — why a command fails, and how that is shown.
* `Report`, `Report.afterWriting` — what a command reports, before and after a file is written.
* `Command.input?`, `Command.report` — the file that a command reads, and its report.
-/

namespace ArithFrontEnd

/-- Why a file cannot be read or written. -/
inductive FileError
  /-- The bytes of the file are no text. -/
  | notText
  /-- The system refuses, in its own words and with its own number. -/
  | system (details : String) (code : Nat)
  deriving DecidableEq, Repr

namespace FileError

/-- There is no file of this name. -/
def notFound : FileError := .system "No such file or directory" 2

/-- What is said of a file that cannot be read or written. -/
def message : FileError → String
  | notText => "stream did not contain valid UTF-8"
  | system details code => s!"{details} (os error {code})"

/-- What is said of the file of a grammar or of quadruples. -/
def ioMessage (e : FileError) : String := s!"IO error: {e.message}"

/-- The text of a file. -/
def decode (bytes : ByteArray) : Except FileError String :=
  match String.fromUTF8? bytes with
  | some text => .ok text
  | none => .error .notText

end FileError

/-- What is said of a text that gives no grammar. -/
def GrammarError.message : GrammarError → String
  | .text e => s!"Syntax error: {e.message}"
  | .definition e => s!"Other error: {e.message}"

namespace CommandLine

/-- Why a command fails. -/
structure Failure where
  /-- What went wrong. -/
  message : String
  /-- The causes, each that of the one before. -/
  causes : List String
  deriving DecidableEq, Repr

namespace Failure

/-- The lines of several causes, numbered from `number`. -/
def numbered (number : Nat) : List String → String
  | [] => ""
  | cause :: causes =>
    Text.lines [s!"{Text.padded 5 number}: {cause}"] ++ numbered (number + 1) causes

/-- How a failure is shown. A single cause has no number. -/
def text (f : Failure) : String :=
  Text.lines [s!"Error: {f.message}"] ++
    match f.causes with
    | [] => ""
    | [cause] => "\nCaused by:\n" ++ Text.lines [s!"    {cause}"]
    | causes => "\nCaused by:\n" ++ numbered 0 causes

/-- The failure of a parse. -/
def ofParseError (e : ParseError) : Failure :=
  match e with
  | .action cause => ⟨e.message, [cause.message]⟩
  | _ => ⟨e.message, []⟩

/-- The failure of an optimization. -/
def ofOptimizeError (e : OptimizeError) : Failure :=
  match e with
  | .fold _ _ cause => ⟨e.message, [cause.message]⟩
  | .malformed .. => ⟨e.message, []⟩

/-- The failure of a recognition, with the line of the token at fault. -/
def ofDescentError (e : Expression.DescentError) : Failure :=
  match e.line? with
  | some line => ⟨s!"line {line}: {e.message}", []⟩
  | none => ⟨e.message, []⟩

/-- A source text cannot be read. -/
def unreadSource (path : String) (e : FileError) : Failure :=
  ⟨s!"failed to read the source file `{path}'", [e.message]⟩

/-- A grammar cannot be loaded, for this reason. -/
def unloadedGrammar (path : String) (cause : String) : Failure :=
  ⟨s!"failed to load the grammar `{path}'", [cause]⟩

/-- Quadruples cannot be read, for these reasons. -/
def unreadQuadruples (path : String) (causes : List String) : Failure :=
  ⟨s!"failed to read the quadruples `{path}'", causes⟩

/-- A file cannot be written, for these reasons. -/
def unwritten (path : String) (causes : List String) : Failure :=
  ⟨s!"failed to write `{path}'", causes⟩

end Failure

/-- A file to be written. -/
structure Output where
  /-- The name of the file. -/
  path : String
  /-- The text of the file. -/
  text : String
  /-- The causes that are named if it cannot be written. -/
  causes : FileError → List String

/-- What a command reports. -/
structure Report where
  /-- What is printed. -/
  printed : String
  /-- The file to be written. -/
  output : Option Output
  /-- Why the command fails, if it does; a file is written first. -/
  failure : Option Failure

namespace Report

/-- A command that fails without printing anything. -/
def failed (f : Failure) : Report := ⟨"", none, some f⟩

/-- A command that prints a text. -/
def ofText (text : String) : Report := ⟨text, none, none⟩

/-- The report after the file has been written, or could not be written. -/
def afterWriting (r : Report) (written : Except FileError Unit) : Report :=
  match r.output, written with
  | some output, .error e =>
    { r with failure := some (.unwritten output.path (output.causes e)) }
  | _, _ => r

/-- What is shown of the failure of a command. -/
def errorText (r : Report) : String := r.failure.elim "" Failure.text

/-- The exit code of a command. -/
def exitCode (r : Report) : Nat := if r.failure.isSome then 1 else 0

end Report

/-- The exit code of arguments that ask for nothing that the program knows. -/
def misuseCode : Nat := 2

/-- How the program is used. -/
def usage : String :=
  Text.lines [
    "Usage:",
    "  lex <INPUT> [--count-idents] [-o <OUTPUT>]",
    "  check [--method ll1|recursive] <INPUT>",
    "  eval <INPUT>",
    "  grammar [--input <INPUT>] [--last-write-wins]",
    "  optimize <INPUT> [-o <OUTPUT>]"]

/-- The line of a token: its line, kind and text. -/
def tokenLine (token : Token) : String :=
  s!"{Text.padded 4 token.line}  {token.kind.name} {token.text}"

/-- The text that shows tokens, or how often each identifier occurs. -/
def tokensText (countIdentifiers : Bool) (tokens : List Token) : String :=
  if countIdentifiers then
    Text.lines ((Token.identifierCounts tokens).map fun (name, count) => s!"({name}: {count})")
  else
    Text.lines (tokens.map tokenLine)

/-- Show the tokens of a source text. Invalid ones make the command fail after that. -/
def reportTokens (countIdentifiers : Bool) (output : Option String) (source : String) : Report :=
  let tokens := Token.scan source
  let text := tokensText countIdentifiers tokens
  let invalid := Token.invalidCount tokens
  let failure := if invalid = 0 then none else some ⟨s!"{invalid} invalid token(s)", []⟩
  match output with
  | none => ⟨text, none, failure⟩
  | some path => ⟨"", some ⟨path, text, fun e => [e.message]⟩, failure⟩

/-- Check that a source text is an expression. -/
def reportCheck (method : Method) (source : String) : Report :=
  let correct := .ofText (Text.lines ["Syntax correct."])
  match method with
  | .table =>
    match Expression.check (Token.scan source) with
    | .error e => .failed (.ofParseError e)
    | .ok () => correct
  | .descent =>
    match Expression.recognize (Token.scan source) with
    | .error e => .failed (.ofDescentError e)
    | .ok () => correct

/-- Evaluate an expression. -/
def reportValue (source : String) : Report :=
  match Expression.evaluate (Token.scan source) with
  | .error e => .failed (.ofParseError e)
  | .ok v => .ofText (Text.lines [s!"Ans = {v.text}"])

/-- Show a grammar with its sets and its table, after a warning if nonterminals have no rules. -/
def reportGrammar (policy : ConflictPolicy) (g : Grammar) : Report :=
  let warning :=
    match g.validate with
    | .ok () => ""
    | .error e => Text.lines [s!"[warning] {(GrammarError.definition e).message}"]
  let analysis := Analysis.compute g
  match PredictionTable.ofAnalysis g analysis policy with
  | .error e => ⟨warning, none, some ⟨e.message g, []⟩⟩
  | .ok table =>
    .ofText (warning ++ Text.lines ["## Grammar", g.text, "## Analysis", analysis.text g,
      "## Prediction table", table.text g])

/-- Optimize a block of quadruples. -/
def reportBlock (path : String) (output : Option String) (source : String) : Report :=
  match Listing.ofText source with
  | .error e => .failed (.unreadQuadruples path [e.message])
  | .ok listing =>
    match ArithFrontEnd.optimize listing.quads with
    | .error e => .failed (.ofOptimizeError e)
    | .ok quads =>
      let text := { listing with quads := quads }.text
      match output with
      | none => .ofText text
      | some path => ⟨"", some ⟨path, text, fun e => [e.ioMessage, e.message]⟩, none⟩

/-- The policy for conflicts. -/
def policyOf (lastWins : Bool) : ConflictPolicy := if lastWins then .lastWins else .reject

namespace Command

/-- The file that a command reads, if it reads one. -/
def input? : Command → Option String
  | lex input _ _ => some input
  | check _ input => some input
  | eval input => some input
  | grammar input _ => input
  | optimize input _ => some input

/-- The report of a command that reads no file. -/
def reportAlone : Command → Report
  | grammar _ lastWins => reportGrammar (policyOf lastWins) Expression.evaluator
  | _ => .ofText ""

/-- The report of a command whose file cannot be read. -/
def reportUnread (path : String) (e : FileError) : Command → Report
  | grammar .. => .failed (.unloadedGrammar path e.ioMessage)
  | optimize .. => .failed (.unreadQuadruples path [e.ioMessage, e.message])
  | _ => .failed (.unreadSource path e)

/-- The report of a command whose file holds this text. -/
def reportOn (path source : String) : Command → Report
  | lex _ countIdentifiers output => reportTokens countIdentifiers output source
  | check method _ => reportCheck method source
  | eval _ => reportValue source
  | grammar _ lastWins =>
    match Grammar.ofText source with
    | .error e => .failed (.unloadedGrammar path e.message)
    | .ok g => reportGrammar (policyOf lastWins) g
  | optimize _ output => reportBlock path output source

/-- The report of a command, given how its file is read. -/
def report (command : Command) (read : String → Except FileError String) : Report :=
  match command.input? with
  | none => command.reportAlone
  | some path =>
    match read path with
    | .error e => command.reportUnread path e
    | .ok source => command.reportOn path source

end Command

end CommandLine

end ArithFrontEnd
