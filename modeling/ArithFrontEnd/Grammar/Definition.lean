import ArithFrontEnd.Grammar.Basic
import ArithFrontEnd.Text.Blank

/-!
# Defining a grammar

A definition grows by declarations: of symbols, of rules, of the start symbol and of inherited
attributes. A declaration that makes no sense is refused and leaves the definition as it was. A
definition with a start symbol or a rule can be finished, which gives a grammar.

## Main definitions

* `Definition` — a grammar in the making.
* `DefinitionError` — why a declaration is refused or a grammar is not accepted.
* `Definition.declareTerminal`, `Definition.declareNonterminal`, `Definition.declareRule`,
  `Definition.markInherited`, `Definition.setStart` — the declarations.
* `Declaration`, `Definition.perform` — a declaration as data, and its effect.
* `Definition.finish`, `Grammar.IsDefined` — the grammars that can be defined.
-/

namespace ArithFrontEnd

/-- Why a declaration is refused, or a text of statements is no grammar. -/
inductive DefinitionError
  /-- A name is empty or holds a blank. -/
  | badName (name : String)
  /-- A terminal of this name has been declared, or is reserved. -/
  | terminalDeclared (name : String)
  /-- A nonterminal of this name has been declared. -/
  | nonterminalDeclared (name : String)
  /-- A nonterminal that is to inherit has not been declared. -/
  | undeclaredInherited
  /-- The left-hand side of a rule has not been declared. -/
  | undeclaredLeft
  /-- A reserved terminal is on the right-hand side of a rule. -/
  | reservedTerminal
  /-- A terminal on the right-hand side of a rule has not been declared. -/
  | undeclaredTerminal
  /-- A nonterminal on the right-hand side of a rule has not been declared. -/
  | undeclaredNonterminal
  /-- The rule has been declared. -/
  | duplicateRule
  /-- The start symbol has not been declared. -/
  | undeclaredStart
  /-- There is neither a start symbol nor a rule. -/
  | noRules
  /-- The start symbol is stated twice. -/
  | duplicateStart
  /-- The name on a left-hand side is that of a terminal. -/
  | terminalOnLeft (name : String)
  /-- A symbol that is to inherit is no nonterminal of a rule. -/
  | unknownInherited (name : String)
  /-- The start symbol is no nonterminal of a rule. -/
  | unknownStart (name : String)
  /-- Some nonterminals are on no left-hand side. -/
  | withoutRules (names : List String)
  /-- There is no number left for a terminal. -/
  | tooManyTerminals
  /-- There is no number left for a nonterminal. -/
  | tooManyNonterminals
  /-- There is no number left for a rule. -/
  | tooManyRules
  deriving DecidableEq, Repr

/-- What is said of a declaration that is refused. -/
def DefinitionError.message : DefinitionError → String
  | .badName name => s!"incorrect symbol name: `{name}'"
  | .terminalDeclared name => s!"The terminal `{name}' has already been declared"
  | .nonterminalDeclared name => s!"The nonterminal `{name}' has already been declared"
  | .undeclaredInherited => "undeclared nonterminal symbol"
  | .undeclaredLeft => "undeclared left-hand side"
  | .reservedTerminal => "reserved terminal symbol in production rule"
  | .undeclaredTerminal => "undeclared terminal symbol in production rule"
  | .undeclaredNonterminal => "undeclared nonterminal symbol in production rule"
  | .duplicateRule => "Duplicate production rule detected"
  | .undeclaredStart => "undeclared start symbol"
  | .noRules => "empty production rules"
  | .duplicateStart => "duplicate @start declaration"
  | .terminalOnLeft name => s!"the left-hand side `{name}' must start with an uppercase letter"
  | .unknownInherited name => s!"unknown inherited symbol: `{name}'"
  | .unknownStart name => s!"unknown start symbol: `{name}'"
  | .withoutRules names =>
    "nonterminals without productions: " ++ String.intercalate ", " names
  | .tooManyTerminals => "too many terminal symbols"
  | .tooManyNonterminals => "too many nonterminal symbols"
  | .tooManyRules => "too many production rules"

/-- A grammar in the making. -/
structure Definition extends Vocabulary where
  /-- The rules declared so far, in order of their numbers. -/
  rules : List Rule
  /-- The start symbol, once it has been stated. -/
  start : Option NonterminalId
  deriving DecidableEq, Repr

namespace Definition

/-- The definition without declarations. -/
def empty : Definition := ⟨⟨[], []⟩, [], none⟩

/-- The number that is never given: a number has sixteen bits, and the next one has to be there when
it is given. -/
def maxId : Nat := 65535

/-- Why a name cannot be given to a new symbol. -/
def nameError? (d : Definition) (name : String) : Option DefinitionError :=
  if name.isEmpty || name.toList.any Text.isBlank then some (.badName name)
  else if d.terminalNames.contains name then some (.terminalDeclared name)
  else if d.nonterminalNames.contains name then some (.nonterminalDeclared name)
  else none

/-- Declare a terminal of a new name. -/
def declareTerminal (d : Definition) (name : String) :
    Except DefinitionError (TerminalId × Definition) :=
  match d.nameError? name with
  | some e => .error e
  | none =>
    if d.terminalNames.length < maxId then
      .ok (d.terminalNames.length, { d with terminals := d.terminals ++ [name] })
    else
      .error .tooManyTerminals

/-- Declare a nonterminal of a new name. -/
def declareNonterminal (d : Definition) (name : String) :
    Except DefinitionError (NonterminalId × Definition) :=
  match d.nameError? name with
  | some e => .error e
  | none =>
    if d.nonterminals.length < maxId then
      .ok (d.nonterminals.length, { d with nonterminals := d.nonterminals ++ [⟨name, false⟩] })
    else
      .error .tooManyNonterminals

/-- Let a nonterminal receive a value when it is expanded. -/
def markInherited (d : Definition) (n : NonterminalId) : Except DefinitionError Definition :=
  if d.hasNonterminal n then
    .ok { d with nonterminals := d.nonterminals.modify n fun nonterminal =>
            { nonterminal with inherited := true } }
  else
    .error .undeclaredInherited

/-- State the start symbol. -/
def setStart (d : Definition) (n : NonterminalId) : Except DefinitionError Definition :=
  if d.hasNonterminal n then .ok { d with start := some n } else .error .undeclaredStart

/-- Why a symbol cannot be on a right-hand side. -/
def symbolError? (d : Definition) : GrammarSymbol → Option DefinitionError
  | .terminal t =>
    if t < TerminalId.reserved then some .reservedTerminal
    else if d.hasTerminal t then none
    else some .undeclaredTerminal
  | .nonterminal n => if d.hasNonterminal n then none else some .undeclaredNonterminal
  | .action _ => none

/-- Why a rule cannot be declared. The left-hand side is looked at first, then the symbols of the
right-hand side in order, then the rules declared so far, and last whether there is a number. -/
def ruleError? (d : Definition) (rule : Rule) : Option DefinitionError :=
  if d.hasNonterminal rule.left then
    match rule.right.findSome? d.symbolError? with
    | some e => some e
    | none =>
      if d.rules.contains rule then some .duplicateRule
      else if d.rules.length < maxId then none
      else some .tooManyRules
  else
    some .undeclaredLeft

/-- Declare a rule. -/
def declareRule (d : Definition) (rule : Rule) : Except DefinitionError (RuleId × Definition) :=
  match d.ruleError? rule with
  | some e => .error e
  | none => .ok (d.rules.length, { d with rules := d.rules ++ [rule] })

/-- The grammar that has been defined. Where no start symbol is stated, it is the left-hand side of
the first rule. -/
def finish (d : Definition) : Except DefinitionError Grammar :=
  match d.start <|> d.rules.head?.map (·.left) with
  | some start => .ok ⟨d.toVocabulary, d.rules, start⟩
  | none => .error .noRules

end Definition

/-- A declaration. -/
inductive Declaration
  /-- A terminal of this name. -/
  | terminal (name : String)
  /-- A nonterminal of this name. -/
  | nonterminal (name : String)
  /-- A nonterminal inherits. -/
  | inherited (n : NonterminalId)
  /-- A rule. -/
  | rule (left : NonterminalId) (right : List GrammarSymbol)
  /-- The start symbol. -/
  | start (n : NonterminalId)
  /-- All declarations so far are void. -/
  | clear
  deriving DecidableEq, Repr

/-- What answers a declaration that has been accepted. -/
inductive Declaration.Answer
  /-- The number given to what has been declared. -/
  | number (id : Nat)
  /-- The declaration has been noted. -/
  | noted
  deriving DecidableEq, Repr

namespace Definition

/-- The answer to a declaration and the definition after it, or why it is refused. -/
def declare (d : Definition) :
    Declaration → Except DefinitionError (Declaration.Answer × Definition)
  | .terminal name => (d.declareTerminal name).map fun (t, d') => (.number t, d')
  | .nonterminal name => (d.declareNonterminal name).map fun (n, d') => (.number n, d')
  | .inherited n => (d.markInherited n).map fun d' => (.noted, d')
  | .rule left right => (d.declareRule ⟨left, right⟩).map fun (r, d') => (.number r, d')
  | .start n => (d.setStart n).map fun d' => (.noted, d')
  | .clear => .ok (.noted, empty)

/-- Perform a declaration: the definition after it, which is the old one if the declaration is
refused, and the answer. -/
def perform (d : Definition) (declaration : Declaration) :
    Definition × Except DefinitionError Declaration.Answer :=
  match d.declare declaration with
  | .ok (answer, d') => (d', .ok answer)
  | .error e => (d, .error e)

/-- The definition after a history of declarations. -/
def performAll (d : Definition) (history : List Declaration) : Definition :=
  history.foldl (fun d declaration => (d.perform declaration).1) d

end Definition

/-- The grammar is what some history of declarations gives. -/
def Grammar.IsDefined (g : Grammar) : Prop :=
  ∃ history, (Definition.empty.performAll history).finish = .ok g

end ArithFrontEnd
