import ArithFrontEnd.Analysis.Sets

/-!
# Prediction tables

A prediction table says which rule a nonterminal is to be expanded by when a terminal comes next. A
rule fills the cells of its left-hand side at the terminals of its SELECT set. Two rules that want
one cell are in conflict; a policy says what becomes of that. A rule of a nonterminal that inherits
also says where the inherited value goes: to the first action of the right-hand side.

## Main definitions

* `inheritedOffset` — how far above the expanded nonterminal the first action will stand.
* `Entry`, `Row`, `PredictionTable` — the cells.
* `ConflictPolicy`, `TableError` — what becomes of conflicts, and why there is no table.
* `PredictionTable.ofAnalysis`, `PredictionTable.ofGrammar` — the table of a grammar.
* `PredictionTable.agrees` — two tables predict the same and name the symbols alike.
-/

namespace ArithFrontEnd

/-- The height of the first action of a right-hand side above the place of the nonterminal that is
expanded: the cells that the symbols after the action take on the stack. -/
def inheritedOffset : List GrammarSymbol → Option Nat
  | [] => none
  | .action _ :: rest => some (rest.map Symbol.width).sum
  | _ :: rest => inheritedOffset rest

/-- A cell of a prediction table. -/
structure Entry where
  /-- The rule that is predicted. -/
  rule : RuleId
  /-- The right-hand side of the rule. -/
  production : List GrammarSymbol
  /-- Where the inherited value goes, if the left-hand side inherits. -/
  inherited : Option Nat
  deriving DecidableEq, Repr

/-- The filled cells of a nonterminal, in the order in which they were first filled. -/
abbrev Row := List (TerminalId × Entry)

namespace Row

/-- The cell at a terminal. -/
def find? (row : Row) (t : TerminalId) : Option Entry :=
  match row with
  | [] => none
  | (u, e) :: rest => if t = u then some e else find? rest t

/-- Fill the cell at a terminal. A cell that is filled anew keeps its place. -/
def fill (row : Row) (t : TerminalId) (e : Entry) : Row :=
  match row with
  | [] => [(t, e)]
  | (u, d) :: rest => if t = u then (t, e) :: rest else (u, d) :: fill rest t e

/-- Fill the cells at all terminals of a list. -/
def fillAll (row : Row) (ts : List TerminalId) (e : Entry) : Row :=
  ts.foldl (fun row t => row.fill t e) row

theorem find?_fill (row : Row) (t : TerminalId) (e : Entry) (u : TerminalId) :
    (row.fill t e).find? u = if u = t then some e else row.find? u := by
  induction row with
  | nil => simp [fill, find?]
  | cons cell rest ih =>
    obtain ⟨v, d⟩ := cell
    by_cases eq : t = v
    · subst eq
      by_cases h : u = t <;> simp [fill, find?, h]
    · by_cases h : u = v
      · simp [fill, find?, h, eq, Ne.symm eq]
      · simp [fill, find?, h, eq, ih]

/-- Filling the cells at some terminals changes these cells and no others. -/
theorem find?_fillAll (row : Row) (ts : List TerminalId) (e : Entry) (u : TerminalId) :
    (row.fillAll ts e).find? u = if u ∈ ts then some e else row.find? u := by
  induction ts generalizing row with
  | nil => simp [fillAll]
  | cons t ts ih =>
    have step : row.fillAll (t :: ts) e = (row.fill t e).fillAll ts e := rfl
    rw [step, ih, find?_fill]
    by_cases h : u = t <;> simp [h]

end Row

/-- What becomes of two rules that want one cell. -/
inductive ConflictPolicy
  /-- There is no table. -/
  | reject
  /-- The rule with the greater number takes the cell. -/
  | lastWins
  deriving DecidableEq, Repr

/-- Why a grammar has no table. -/
inductive TableError
  /-- Two rules of a nonterminal want the cell at a terminal. -/
  | conflict (n : NonterminalId) (t : TerminalId) (first second : RuleId)
  /-- A rule of a nonterminal that inherits has no action to receive the value. -/
  | missingAction (n : NonterminalId) (rule : RuleId)
  deriving DecidableEq, Repr

/-- Where two rules are in conflict, as messages say it. -/
def conflictText (g : Grammar) (n : NonterminalId) (t : TerminalId) : String :=
  s!"LL(1) conflict on ({g.nonterminalName n}, {g.terminalName t}): "

/-- What is said of a grammar without a table. -/
def TableError.message (g : Grammar) : TableError → String
  | .conflict n t first second =>
    conflictText g n t ++ s!"`{g.ruleText first}' and `{g.ruleText second}' are both predicted"
  | .missingAction n rule =>
    s!"`{g.ruleText rule}' has no action to receive the inherited attribute of " ++
      g.nonterminalName n

/-- The rows of all nonterminals, in order of their numbers. -/
abbrev Rows := List Row

/-- A prediction table with the names that messages need. -/
structure PredictionTable where
  /-- The symbols of the grammar. -/
  vocabulary : Vocabulary
  /-- The start symbol. -/
  start : NonterminalId
  /-- The cells. -/
  rows : Rows
  deriving DecidableEq, Repr

namespace PredictionTable

/-- The row of a nonterminal. -/
def row (rows : Rows) (n : NonterminalId) : Row := rows.getD n []

/-- Where the value goes that the left-hand side of a rule inherits, or the error if it inherits and
no action can receive the value. -/
def route (g : Grammar) (r : RuleId) (rule : Rule) : Except TableError (Option Nat) :=
  if g.isInherited rule.left then
    match inheritedOffset rule.right with
    | some offset => .ok (some offset)
    | none => .error (.missingAction rule.left r)
  else
    .ok none

/-- The cells that a rule wants and an earlier rule has: the terminals in ascending order, each with
the earlier rule. -/
def clashes (rows : Rows) (rule : Rule) (select : TerminalSet) : List (TerminalId × RuleId) :=
  select.ids.filterMap fun t => ((row rows rule.left).find? t).map fun e => (t, e.rule)

/-- Fill the cells of a rule. -/
def addRule (g : Grammar) (policy : ConflictPolicy) (select : TerminalSet) (rows : Rows)
    (r : RuleId) (rule : Rule) : Except TableError Rows :=
  match route g r rule with
  | .error e => .error e
  | .ok inherited =>
    match policy, clashes rows rule select with
    | .reject, (t, first) :: _ => .error (.conflict rule.left t first r)
    | _, _ =>
      .ok (rows.modify rule.left (Row.fillAll · select.ids ⟨r, rule.right, inherited⟩))

/-- Fill the cells of rules that are numbered from `r`. -/
def addRules (g : Grammar) (a : Analysis) (policy : ConflictPolicy) (r : RuleId) :
    List Rule → Rows → Except TableError Rows
  | [], rows => .ok rows
  | rule :: rules, rows =>
    match addRule g policy (a.selectOf r) rows r rule with
    | .error e => .error e
    | .ok rows => addRules g a policy (r + 1) rules rows

/-- The rows before the first rule. -/
def emptyRows (g : Grammar) : Rows := List.replicate g.nonterminals.length []

/-- The table of a grammar with these sets. -/
def ofAnalysis (g : Grammar) (a : Analysis) (policy : ConflictPolicy) :
    Except TableError PredictionTable :=
  (addRules g a policy 0 g.rules (emptyRows g)).map fun rows => ⟨g.toVocabulary, g.start, rows⟩

/-- The table of a grammar. -/
def ofGrammar (g : Grammar) (policy : ConflictPolicy) : Except TableError PredictionTable :=
  ofAnalysis g (.compute g) policy

/-- The cell of a nonterminal at a terminal. -/
def find? (table : PredictionTable) (n : NonterminalId) (t : TerminalId) : Option Entry :=
  (row table.rows n).find? t

/-- Two rows have the same cells, in whatever order. -/
def rowsAgree (a b : Row) : Bool :=
  a.length == b.length && a.all fun (t, e) => b.find? t == some e

/-- Two tables have the same start symbol, the same cells and the same names. -/
def agrees (a b : PredictionTable) : Bool :=
  a.start == b.start && a.vocabulary.terminals == b.vocabulary.terminals &&
    a.vocabulary.nonterminalNames == b.vocabulary.nonterminalNames &&
    a.rows.length == b.rows.length && (a.rows.zip b.rows).all fun (r, s) => rowsAgree r s

/-! ### The log -/

/-- What the log shows of a rule: the cells that it takes from earlier rules, and where an inherited
value goes. A rule that is refused is not shown. -/
def ruleEvents (g : Grammar) (policy : ConflictPolicy) (select : TerminalSet) (rows : Rows)
    (r : RuleId) (rule : Rule) : List Log.Event :=
  match route g r rule, policy, clashes rows rule select with
  | .error _, _, _ => []
  | .ok _, .reject, _ :: _ => []
  | .ok inherited, _, clashes =>
    let offset := inherited.elim "None" fun offset => s!"Some({offset})"
    (clashes.map fun (t, first) =>
      ⟨.warn, conflictText g rule.left t ++
        s!"`{g.ruleText first}' is overwritten by `{g.ruleText r}'"⟩) ++
      [⟨.debug, s!"{g.ruleText r} (inherited = {offset})"⟩]

/-- What the log shows of rules that are numbered from `r`, up to the first that is refused. -/
def rulesEvents (g : Grammar) (a : Analysis) (policy : ConflictPolicy) (r : RuleId) :
    List Rule → Rows → List Log.Event
  | [], _ => []
  | rule :: rules, rows =>
    ruleEvents g policy (a.selectOf r) rows r rule ++
      match addRule g policy (a.selectOf r) rows r rule with
      | .error _ => []
      | .ok rows => rulesEvents g a policy (r + 1) rules rows

/-- What the log shows of the making of a table. -/
def events (g : Grammar) (a : Analysis) (policy : ConflictPolicy) : List Log.Event :=
  rulesEvents g a policy 0 g.rules (emptyRows g)

end PredictionTable

end ArithFrontEnd
