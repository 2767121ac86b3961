/-!
# Arguments of the command line

The first argument names a command. The others are switches, which begin with a hyphen, and
operands. A long switch has two hyphens and its value after a sign of equality or in the next
argument; a short one has a single hyphen and its value attached, with or without a sign of
equality, or in the next argument. After an argument of two hyphens all arguments are operands. No
switch may be repeated.

## Main definitions

* `Method`, `Command` — what the program can be asked to do.
* `Shape`, `Given`, `scan` — the arguments that a command takes, and those that are given, read in
  order.
* `Request`, `Request.ofArguments` — what a list of arguments asks for.
-/

namespace ArithFrontEnd.CommandLine

/-- How the tokens of an expression are checked. -/
inductive Method
  /-- By the table of the recognizer. -/
  | table
  /-- By recursive descent. -/
  | descent
  deriving DecidableEq, Repr

/-- What the program can be asked to do. -/
inductive Command
  /-- Show the tokens of a source text, or how often each identifier occurs. -/
  | lex (input : String) (countIdentifiers : Bool) (output : Option String)
  /-- Check that a source text is an expression. -/
  | check (method : Method) (input : String)
  /-- Evaluate an expression. -/
  | eval (input : String)
  /-- Show a grammar with its sets and its table. -/
  | grammar (input : Option String) (lastWins : Bool)
  /-- Optimize a block of quadruples. -/
  | optimize (input : String) (output : Option String)
  deriving DecidableEq, Repr

/-- What a list of arguments asks for. -/
inductive Request
  /-- A command. -/
  | run (command : Command)
  /-- How the program is used. -/
  | help
  /-- Nothing that the program knows. -/
  | misuse
  deriving DecidableEq, Repr

/-- The method of this name. -/
def Method.ofName? (name : String) : Option Method :=
  if name = "ll1" then some .table
  else if name = "recursive" then some .descent
  else none

/-- What the value of a switch is. -/
inductive ValueKind
  /-- The switch has no value. -/
  | absent
  /-- The path of a file. -/
  | path
  /-- The name of a method. -/
  | method
  deriving DecidableEq, Repr

/-- The value is of the kind. A path is not empty. -/
def ValueKind.admits : ValueKind → Option String → Bool
  | .absent, none => true
  | .path, some value => value != ""
  | .method, some value => (Method.ofName? value).isSome
  | _, _ => false

/-- A switch of a command. -/
structure Switch where
  /-- The long name, without hyphens. -/
  long : String
  /-- The short name. -/
  short : Option Char
  /-- What its value is. -/
  kind : ValueKind
  deriving DecidableEq, Repr

/-- The arguments that a command takes. -/
structure Shape where
  /-- Its switches. -/
  switches : List Switch
  /-- How many operands it takes, all of them paths. -/
  operands : Nat
  deriving DecidableEq, Repr

/-- The switches and the operands that are given, each in order. -/
structure Given where
  /-- The switches by their long names, with a value or with none. -/
  switches : List (String × Option String)
  /-- The operands. -/
  operands : List String
  deriving DecidableEq, Repr

namespace Given

/-- The switch is given. -/
def has (g : Given) (name : String) : Bool := g.switches.any (·.1 == name)

/-- The value of a switch, if it is given. -/
def value? (g : Given) (name : String) : Option String := (g.switches.lookup name).join

/-- Add a switch; none if it is there already or its value is of another kind. -/
def addSwitch? (g : Given) (s : Switch) (value : Option String) : Option Given :=
  if g.has s.long || !s.kind.admits value then none
  else some { g with switches := g.switches ++ [(s.long, value)] }

/-- Add an operand; none if it is empty or one too many. -/
def addOperand? (shape : Shape) (g : Given) (operand : String) : Option Given :=
  if operand = "" ∨ shape.operands ≤ g.operands.length then none
  else some { g with operands := g.operands ++ [operand] }

end Given

/-- An argument by itself. -/
inductive Argument
  /-- The arguments after it are operands. -/
  | escape
  /-- A long switch, with the value attached to it. -/
  | long (name : String) (value : Option String)
  /-- A short switch, with the text attached to it. -/
  | short (name : Char) (attached : List Char)
  /-- An operand, or the value of the switch before it. -/
  | plain (text : String)
  deriving DecidableEq, Repr

/-- Read an argument by itself. A single hyphen is no switch. -/
def Argument.read (text : String) : Argument :=
  match text.toList with
  | ['-', '-'] => .escape
  | '-' :: '-' :: cs =>
    let name := String.ofList (cs.takeWhile (· != '='))
    match cs.dropWhile (· != '=') with
    | [] => .long name none
    | _ :: value => .long name (some (String.ofList value))
  | '-' :: c :: attached => .short c attached
  | _ => .plain text

/-- The value attached to a short switch, if there is one. -/
def attachedValue? : List Char → Option String
  | [] => none
  | '=' :: value => some (String.ofList value)
  | value => some (String.ofList value)

/-- The switch that an argument is, with the value attached to it. -/
def Argument.switch? (switches : List Switch) : Argument → Option (Switch × Option String)
  | .long name value => (switches.find? (·.long == name)).map fun s => (s, value)
  | .short name attached =>
    match switches.find? (·.short == some name) with
    | none => none
    | some s => some (s, attachedValue? attached)
  | _ => none

/-- The argument asks how the command is used. -/
def Argument.asksForHelp : Argument → Bool
  | .long "help" none => true
  | .short 'h' _ => true
  | _ => false

/-- The argument asks which version of the program this is. -/
def Argument.asksForVersion : Argument → Bool
  | .long "version" none => true
  | .short 'V' _ => true
  | _ => false

/-- What the arguments of a command come to. -/
inductive Outcome
  /-- All of them are read. -/
  | given (given : Given)
  /-- One of them asks how the command is used. -/
  | help
  deriving DecidableEq, Repr

/-- Read the arguments of a command after those that are given already; none if one is at fault.
The arguments are taken in order, so that a fault counts before a request for help, and those
after such a request are not looked at. -/
def scan (shape : Shape) (given : Given) : List String → Option Outcome
  | [] => some (.given given)
  | argument :: rest =>
    match Argument.read argument with
    | .escape => (rest.foldlM (Given.addOperand? shape) given).map .given
    | .plain text => (given.addOperand? shape text).bind (scan shape · rest)
    | a =>
      if a.asksForHelp then some .help
      else
        match a.switch? shape.switches with
        | none => none
        | some (s, value) =>
          if s.kind = .absent ∨ value.isSome then
            (given.addSwitch? s value).bind (scan shape · rest)
          else
            match rest with
            | [] => none
            | next :: rest =>
              match Argument.read next with
              | .plain value => (given.addSwitch? s (some value)).bind (scan shape · rest)
              | _ => none

/-- The switch for the file that the output goes to. -/
def outputSwitch : Switch := ⟨"output", some 'o', .path⟩

/-- The arguments that the command of this name takes. -/
def Shape.ofName? (command : String) : Option Shape :=
  if command = "lex" then some ⟨[⟨"count-idents", none, .absent⟩, outputSwitch], 1⟩
  else if command = "check" then some ⟨[⟨"method", none, .method⟩], 1⟩
  else if command = "eval" then some ⟨[], 1⟩
  else if command = "grammar" then
    some ⟨[⟨"input", none, .path⟩, ⟨"last-write-wins", none, .absent⟩], 0⟩
  else if command = "optimize" then some ⟨[outputSwitch], 1⟩
  else none

/-- The command of a name with its switches and operands; none if an operand is lacking. -/
def commandOf? (name : String) (g : Given) : Option Command :=
  match name, g.operands with
  | "lex", [input] => some (.lex input (g.has "count-idents") (g.value? "output"))
  | "check", [input] =>
    match g.value? "method" with
    | none => some (.check .table input)
    | some method => (Method.ofName? method).map (.check · input)
  | "eval", [input] => some (.eval input)
  | "grammar", [] => some (.grammar (g.value? "input") (g.has "last-write-wins"))
  | "optimize", [input] => some (.optimize input (g.value? "output"))
  | _, _ => none

/-- What the arguments after the name of a command ask for. -/
def Request.ofCommand (name : String) (arguments : List String) : Request :=
  match (Shape.ofName? name).bind (scan · ⟨[], []⟩ arguments) with
  | none => .misuse
  | some .help => .help
  | some (.given g) => (commandOf? name g).elim .misuse .run

/-- What the arguments after the word `help` ask for: they name a command, or nothing. -/
def Request.ofTopic : List String → Request
  | [] => .help
  | [topic] => if topic = "help" ∨ (Shape.ofName? topic).isSome then .help else .misuse
  | _ => .misuse

/-- What a list of arguments asks for. -/
def Request.ofArguments : List String → Request
  | [] => .misuse
  | argument :: arguments =>
    match Argument.read argument with
    | .plain name => if name = "help" then .ofTopic arguments else .ofCommand name arguments
    | a => if a.asksForHelp || a.asksForVersion then .help else .misuse

end ArithFrontEnd.CommandLine
