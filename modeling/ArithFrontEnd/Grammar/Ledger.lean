import ArithFrontEnd.Grammar.Definition

/-!
# Ledgers

A definition is kept in a ledger. Every symbol and every rule has an entry under its number, and the
number that is given next is counted for each kind. A declaration works on the ledger step by step:
it looks something up, it is refused, or it writes. What it has written stays written when it is
refused later on. So nothing in the form of a ledger says that its numbers and its entries agree, or
that a refused declaration has left it alone.

## Main definitions

* `Entries` — contents under numbers, in the order in which they have been entered.
* `Ledger`, `Ledger.initial` — a ledger, and the one to begin with.
* `Ledger.Keeping` — the steps of a declaration.
* `Ledger.declare`, `Ledger.perform`, `Ledger.performAll` — what declarations do to a ledger.
* `Ledger.finish` — the grammar that has been defined.
-/

namespace ArithFrontEnd

/-- Contents under numbers, in the order in which they have been entered. -/
abbrev Entries (α : Type) := List (Nat × α)

namespace Entries

variable {α : Type}

/-- The numbers that have an entry. -/
def numbers (es : Entries α) : List Nat := es.map (·.1)

/-- What has been entered. -/
def contents (es : Entries α) : List α := es.map (·.2)

/-- There is an entry under the number. -/
def has (es : Entries α) (id : Nat) : Bool := es.any (·.1 == id)

/-- Enter something under a number. What has been there is replaced in its place. -/
def enter (es : Entries α) (id : Nat) (a : α) : Entries α :=
  if es.has id then es.map fun e => if e.1 = id then (id, a) else e else es ++ [(id, a)]

/-- Change what is under a number. -/
def change (es : Entries α) (id : Nat) (f : α → α) : Entries α :=
  es.map fun e => if e.1 = id then (e.1, f e.2) else e

end Entries

/-- What is kept of a definition. -/
structure Ledger where
  /-- The names of the terminals, the reserved ones among them. -/
  terminals : Entries String
  /-- The nonterminals. -/
  nonterminals : Entries Nonterminal
  /-- The rules. -/
  rules : Entries Rule
  /-- The start symbol, once it has been stated. -/
  start : Option NonterminalId
  /-- The number of the next terminal. -/
  nextTerminal : TerminalId
  /-- The number of the next nonterminal. -/
  nextNonterminal : NonterminalId
  /-- The number of the next rule. -/
  nextRule : RuleId
  deriving DecidableEq, Repr

namespace Ledger

/-- The ledger without declarations, which holds the reserved terminals. -/
def initial : Ledger where
  terminals := (Entries.enter [] TerminalId.endOfInput "#").enter TerminalId.unknown "$unknown"
  nonterminals := []
  rules := []
  start := none
  nextTerminal := TerminalId.reserved
  nextNonterminal := 0
  nextRule := 0

/-- The steps of a declaration. A refusal does not take back what has been written. -/
abbrev Keeping := EStateM DefinitionError Ledger

/-- Refuse what cannot be the name of a new symbol. -/
def verifyName (name : String) : Keeping Unit := do
  let l ← get
  if name.isEmpty || name.toList.any Text.isBlank then
    throw (.badName name)
  if l.terminals.contents.contains name then
    throw (.terminalDeclared name)
  if l.nonterminals.contents.any (·.name == name) then
    throw (.nonterminalDeclared name)

/-- The number after this one. The last number has none. -/
def following (id : Nat) (error : DefinitionError) : Keeping Nat :=
  if id < Definition.maxId then pure (id + 1) else throw error

/-- Declare a terminal of a new name. -/
def declareTerminal (name : String) : Keeping TerminalId := do
  verifyName name
  let id := (← get).nextTerminal
  let next ← following id .tooManyTerminals
  modify fun l => { l with nextTerminal := next }
  modify fun l => { l with terminals := l.terminals.enter id name }
  return id

/-- Declare a nonterminal of a new name. -/
def declareNonterminal (name : String) : Keeping NonterminalId := do
  verifyName name
  let id := (← get).nextNonterminal
  let next ← following id .tooManyNonterminals
  modify fun l => { l with nextNonterminal := next }
  modify fun l => { l with nonterminals := l.nonterminals.enter id ⟨name, false⟩ }
  return id

/-- Let a nonterminal receive a value when it is expanded. -/
def markInherited (n : NonterminalId) : Keeping Unit := do
  unless (← get).nonterminals.has n do
    throw .undeclaredInherited
  modify fun l =>
    { l with nonterminals := l.nonterminals.change n fun nonterminal =>
        { nonterminal with inherited := true } }

/-- Refuse what cannot be on a right-hand side. -/
def verifySymbol : GrammarSymbol → Keeping Unit
  | .terminal t => do
    if t = TerminalId.endOfInput ∨ t = TerminalId.unknown then
      throw .reservedTerminal
    unless (← get).terminals.has t do
      throw .undeclaredTerminal
  | .nonterminal n => do
    unless (← get).nonterminals.has n do
      throw .undeclaredNonterminal
  | .action _ => pure ()

/-- Refuse a rule that has been declared. -/
def verifyNew (rule other : Rule) : Keeping Unit :=
  if other.left = rule.left ∧ other.right = rule.right then throw .duplicateRule else pure ()

/-- Declare a rule. -/
def declareRule (rule : Rule) : Keeping RuleId := do
  unless (← get).nonterminals.has rule.left do
    throw .undeclaredLeft
  rule.right.forM verifySymbol
  (← get).rules.contents.forM (verifyNew rule)
  let id := (← get).nextRule
  let next ← following id .tooManyRules
  modify fun l => { l with nextRule := next }
  modify fun l => { l with rules := l.rules.enter id rule }
  return id

/-- State the start symbol. -/
def setStart (n : NonterminalId) : Keeping Unit := do
  unless (← get).nonterminals.has n do
    throw .undeclaredStart
  modify fun l => { l with start := some n }

/-- Make a declaration, and answer it. -/
def declare : Declaration → Keeping Declaration.Answer
  | .terminal name => return .number (← declareTerminal name)
  | .nonterminal name => return .number (← declareNonterminal name)
  | .inherited n => do
    markInherited n
    return .noted
  | .rule left right => return .number (← declareRule ⟨left, right⟩)
  | .start n => do
    setStart n
    return .noted
  | .clear => do
    set initial
    return .noted

/-- The ledger after a declaration, and the answer or the reason for which it is refused. -/
def perform (l : Ledger) (declaration : Declaration) :
    Ledger × Except DefinitionError Declaration.Answer :=
  match (declare declaration).run l with
  | .ok answer l' => (l', .ok answer)
  | .error e l' => (l', .error e)

/-- The ledger after a history of declarations. -/
def performAll (l : Ledger) (history : List Declaration) : Ledger :=
  history.foldl (fun l declaration => (l.perform declaration).1) l

/-- The grammar that has been defined. Where no start symbol is stated, it is the left-hand side of
the first rule. -/
def finish (l : Ledger) : Except DefinitionError Grammar :=
  match l.start <|> l.rules.contents.head?.map (·.left) with
  | some start => .ok
    { terminals := Entries.contents (l.terminals.filter (TerminalId.reserved ≤ ·.1))
      nonterminals := l.nonterminals.contents
      rules := l.rules.contents
      start }
  | none => .error .noRules

end Ledger

end ArithFrontEnd
