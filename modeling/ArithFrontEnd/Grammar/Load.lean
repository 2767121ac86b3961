import ArithFrontEnd.Grammar.Definition
import ArithFrontEnd.GrammarText.Parse
import ArithFrontEnd.Text.Uppercase

/-!
# Loading a grammar from its text

The statements of a grammar text become declarations. A symbol is declared where its name appears
first; it is a nonterminal if its name begins with an uppercase letter. What the text says about the
start symbol and about inherited attributes is declared after all rules.

## Main definitions

* `isNonterminalName` — which names are those of nonterminals.
* `Loading`, `Loading.statement` — what is known after some statements.
* `Grammar.ofStatements`, `Grammar.ofText` — the grammar of a list of statements and of a text.
-/

namespace ArithFrontEnd

/-- Names that begin with an uppercase letter are those of nonterminals. -/
def isNonterminalName (name : String) : Bool :=
  name.toList.head?.any Text.isUppercase

/-- What is known after some statements. -/
structure Loading where
  /-- The symbols and rules declared so far. -/
  definition : Definition
  /-- The name of the start symbol, if it has been stated. -/
  start : Option String
  /-- The names of the symbols that are to inherit, in order. -/
  inherited : List String
  deriving DecidableEq, Repr

namespace Definition

/-- The symbol of a name, declared if it is new. -/
def intern (d : Definition) (name : String) : Except DefinitionError (GrammarSymbol × Definition) :=
  if isNonterminalName name then
    match d.nonterminal? name with
    | some n => .ok (.nonterminal n, d)
    | none => (d.declareNonterminal name).map fun (n, d') => (.nonterminal n, d')
  else
    match d.terminal? name with
    | some t => .ok (.terminal t, d)
    | none => (d.declareTerminal name).map fun (t, d') => (.terminal t, d')

/-- The right-hand side of an alternative, with its new symbols declared. The written empty string
leaves no symbol. -/
def internAll (d : Definition) :
    GrammarText.Alternative → Except DefinitionError (List GrammarSymbol × Definition)
  | [] => .ok ([], d)
  | .empty :: elements => d.internAll elements
  | .action a :: elements =>
    (d.internAll elements).map fun (symbols, d') => (.action a :: symbols, d')
  | .symbol name :: elements =>
    match d.intern name with
    | .error e => .error e
    | .ok (symbol, d) =>
      (d.internAll elements).map fun (symbols, d') => (symbol :: symbols, d')

/-- Declare a rule for every alternative of a left-hand side. -/
def declareAlternatives (d : Definition) (left : NonterminalId) :
    List GrammarText.Alternative → Except DefinitionError Definition
  | [] => .ok d
  | alternative :: others =>
    match d.internAll alternative with
    | .error e => .error e
    | .ok (right, d) =>
      match d.declareRule ⟨left, right⟩ with
      | .error e => .error e
      | .ok (_, d) => d.declareAlternatives left others

/-- Mark the nonterminals of these names. -/
def markAllInherited (d : Definition) : List String → Except DefinitionError Definition
  | [] => .ok d
  | name :: names =>
    match d.nonterminal? name with
    | none => .error (.unknownInherited name)
    | some n =>
      match d.markInherited n with
      | .error e => .error e
      | .ok d => d.markAllInherited names

/-- State the start symbol by its name, if there is one. -/
def setStartNamed (d : Definition) : Option String → Except DefinitionError Definition
  | none => .ok d
  | some name =>
    match d.nonterminal? name with
    | none => .error (.unknownStart name)
    | some n => d.setStart n

end Definition

namespace Loading

/-- Nothing is known before the first statement. -/
def initial : Loading := ⟨.empty, none, []⟩

/-- What is known after one more statement. -/
def statement (l : Loading) : GrammarText.Statement → Except DefinitionError Loading
  | .start name =>
    if l.start.isSome then .error .duplicateStart else .ok { l with start := some name }
  | .inherit name others => .ok { l with inherited := l.inherited ++ name :: others }
  | .rule left alternative others =>
    match l.definition.intern left with
    | .error e => .error e
    | .ok (.nonterminal n, d) =>
      (d.declareAlternatives n (alternative :: others)).map fun d' => { l with definition := d' }
    | .ok _ => .error (.terminalOnLeft left)

/-- What is known after a list of statements. -/
def statements (l : Loading) : List GrammarText.Statement → Except DefinitionError Loading
  | [] => .ok l
  | s :: ss =>
    match l.statement s with
    | .error e => .error e
    | .ok l => l.statements ss

/-- The grammar that the statements give. -/
def finish (l : Loading) : Except DefinitionError Grammar :=
  match l.definition.markAllInherited l.inherited with
  | .error e => .error e
  | .ok d =>
    match d.setStartNamed l.start with
    | .error e => .error e
    | .ok d => d.finish

end Loading

/-- Why a text gives no grammar. -/
inductive GrammarError
  /-- The text is no grammar text. -/
  | text (e : GrammarText.Error)
  /-- The statements of the text make no sense. -/
  | definition (e : DefinitionError)
  deriving DecidableEq, Repr

namespace Grammar

/-- The grammar of a list of statements. -/
def ofStatements (statements : List GrammarText.Statement) : Except DefinitionError Grammar :=
  match Loading.initial.statements statements with
  | .error e => .error e
  | .ok l => l.finish

/-- The grammar of a text. -/
def ofText (source : String) : Except GrammarError Grammar :=
  match GrammarText.read source with
  | .error e => .error (.text e)
  | .ok statements =>
    match ofStatements statements with
    | .error e => .error (.definition e)
    | .ok g => .ok g

/-- Refuse a grammar in which some nonterminals are on no left-hand side. -/
def validate (g : Grammar) : Except DefinitionError Unit :=
  match g.withoutRules with
  | [] => .ok ()
  | missing => .error (.withoutRules (missing.map g.nonterminalName))

end Grammar

end ArithFrontEnd
