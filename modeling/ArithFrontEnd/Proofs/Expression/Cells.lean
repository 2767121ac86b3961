import ArithFrontEnd.Proofs.Expression.Lexemes
import ArithFrontEnd.Proofs.Expression.Readings

/-!
# The table of the evaluator

The table of the evaluator says by the next token which part of an expression comes next.  All that
is needed of it is stated here by classes of tokens, together with what the actions do; the rest of
the theory does not look at rules any more.

## Main definitions

* `look` — the terminal of the next token, or the end of the input.
* `starters`, `termClosers`, `sumClosers` — what may come next at the start and at the end of a
  part.

## Main results

* `predict_operator`, `predict_sum`, … — the cells of the table.
* `look_mem_starters_iff` — a factor comes next if its terminal does.
-/

namespace ArithFrontEnd.Expression

/-- The terminal of the next token, or the end of the input. -/
def look : List Token → TerminalId
  | [] => .endOfInput
  | token :: _ => terminalOf token

theorem predict_next (n : NonterminalId) (tokens : List Token) :
    evaluatorTable.predictor.predict n ((evaluatorInput tokens).head?.map (·.terminal)) =
      evaluatorTable.predict n (some (look tokens)) := by
  cases tokens <;> rfl

/-! ### Cells -/

/-- The terminals that a factor starts with. -/
def starters : List TerminalId := [opening, identifier, number]

/-- The terminals that may come after a sum. -/
def sumClosers : List TerminalId := [.endOfInput, closing]

/-- The terminals that may come after a term. -/
def termClosers : List TerminalId := [.endOfInput, plus, minus, closing]

/-- The cells of the rule with this number at these terminals. -/
def cellsAt (r : RuleId) (inherited : Option Nat) (ts : List TerminalId) : Row :=
  evaluatorRules[r]?.elim [] fun rule => ts.map fun t => (t, ⟨r, rule.right, inherited⟩)

/-- The cells of the evaluator, by nonterminal and rule. -/
def evaluatorRows : Rows :=
  [cellsAt 0 none (plus :: minus :: starters),
    cellsAt 1 none [plus] ++ cellsAt 2 none [minus] ++ cellsAt 3 none starters,
    cellsAt 4 none starters,
    cellsAt 8 none starters,
    cellsAt 5 (some 3) [plus] ++ cellsAt 6 (some 3) [minus] ++ cellsAt 7 (some 0) sumClosers,
    cellsAt 12 none [opening] ++ cellsAt 13 none [identifier] ++ cellsAt 14 none [number],
    cellsAt 9 (some 3) [times] ++ cellsAt 10 (some 3) [slash] ++ cellsAt 11 (some 0) termClosers]

/-- The table of the evaluator, given explicitly. -/
theorem evaluatorTable_eq : evaluatorTable = ⟨evaluator.toVocabulary, goal, evaluatorRows⟩ := by
  -- the kernel computes the sets and the cells from the rules here, and nowhere else
  decide +kernel

theorem nonterminalName_evaluatorTable (n : NonterminalId) :
    evaluatorTable.predictor.nonterminalName n = evaluator.nonterminalName n := by
  rw [evaluatorTable_eq]
  rfl

theorem terminalName_evaluatorTable (t : Option TerminalId) :
    evaluatorTable.predictor.terminalName t = evaluator.terminalName (t.getD .endOfInput) := by
  rw [evaluatorTable_eq]
  rfl

/-- The parser and the recursive evaluation show what comes next alike. -/
theorem shownNext_evaluatorInput (tokens : List Token) :
    evaluatorTable.predictor.shownNext (evaluatorInput tokens) = shownHead tokens := by
  cases tokens with
  | nil => exact terminalName_evaluatorTable none
  | cons token rest => rfl

/-- The terminal of an operator. -/
def operatorTerminal : BinaryOp → TerminalId
  | .add => plus
  | .sub => minus
  | .mul => times
  | .div => slash

/-- The rest that an operator starts. -/
def restOf : BinaryOp → NonterminalId
  | .add => sumRest
  | .sub => sumRest
  | .mul => termRest
  | .div => termRest

/-- The right operand of an operator. -/
def operandOf : BinaryOp → NonterminalId
  | .add => term
  | .sub => term
  | .mul => factor
  | .div => factor

/-- The action that computes the value of an operator. -/
def computing : BinaryOp → ActionId
  | .add => 6
  | .sub => 8
  | .mul => 13
  | .div => 15

/-- The action that passes on what comes after the right operand of an operator. -/
def passing : BinaryOp → ActionId
  | .add => 7
  | .sub => 9
  | .mul => 14
  | .div => 16

/-- The action that computes the value of a sum with a sign. -/
def signing : BinaryOp → ActionId
  | .sub => 2
  | _ => 1

theorem predict_goal : ∀ t ∈ plus :: minus :: starters,
    evaluatorTable.predict goal (some t) = some ⟨[.nonterminal signedSum, .action 0], none⟩ := by
  rw [evaluatorTable_eq]
  decide

theorem predict_signedSum : ∀ t ∈ starters, evaluatorTable.predict signedSum (some t) =
    some ⟨[.nonterminal sum, .action 3], none⟩ := by
  rw [evaluatorTable_eq]
  decide

theorem predict_sign : ∀ sign ∈ [BinaryOp.add, .sub],
    evaluatorTable.predict signedSum (some (operatorTerminal sign)) =
      some ⟨[.terminal (operatorTerminal sign), .nonterminal sum, .action (signing sign)],
        none⟩ := by
  rw [evaluatorTable_eq]
  decide

theorem predict_sum : ∀ t ∈ starters, evaluatorTable.predict sum (some t) =
    some ⟨[.nonterminal term, .action 4, .nonterminal sumRest, .action 5], none⟩ := by
  rw [evaluatorTable_eq]
  decide

theorem predict_term : ∀ t ∈ starters, evaluatorTable.predict term (some t) =
    some ⟨[.nonterminal factor, .action 11, .nonterminal termRest, .action 12], none⟩ := by
  rw [evaluatorTable_eq]
  decide

/-- The value to the left of an operator goes to the action that computes. -/
theorem predict_operator (op : BinaryOp) :
    evaluatorTable.predict (restOf op) (some (operatorTerminal op)) =
      some ⟨[.terminal (operatorTerminal op), .nonterminal (operandOf op), .action (computing op),
        .nonterminal (restOf op), .action (passing op)], some 3⟩ := by
  rw [evaluatorTable_eq]
  cases op <;> decide

theorem predict_sumRest : ∀ t ∈ sumClosers,
    evaluatorTable.predict sumRest (some t) = some ⟨[.action 10], some 0⟩ := by
  rw [evaluatorTable_eq]
  decide

theorem predict_termRest : ∀ t ∈ termClosers,
    evaluatorTable.predict termRest (some t) = some ⟨[.action 17], some 0⟩ := by
  rw [evaluatorTable_eq]
  decide

theorem predict_factor_opening : evaluatorTable.predict factor (some opening) =
    some ⟨[.terminal opening, .nonterminal signedSum, .action 18, .terminal closing], none⟩ := by
  rw [evaluatorTable_eq]
  decide

theorem predict_factor_identifier : evaluatorTable.predict factor (some identifier) =
    some ⟨[.terminal identifier, .action 19], none⟩ := by
  rw [evaluatorTable_eq]
  decide

theorem predict_factor_number : evaluatorTable.predict factor (some number) =
    some ⟨[.terminal number, .action 20], none⟩ := by
  rw [evaluatorTable_eq]
  decide

/-- Nothing else starts a part that a factor starts. -/
theorem predict_eq_none : ∀ n ∈ [sum, term, factor], ∀ t < 10, t ∉ starters →
    evaluatorTable.predict n (some t) = none := by
  rw [evaluatorTable_eq]
  decide

theorem predict_signed_eq_none : ∀ n ∈ [goal, signedSum], ∀ t < 10,
    t ∉ plus :: minus :: starters → evaluatorTable.predict n (some t) = none := by
  rw [evaluatorTable_eq]
  decide

theorem predict_termRest_eq_none : ∀ t < 10, t ∉ times :: slash :: termClosers →
    evaluatorTable.predict termRest (some t) = none := by
  rw [evaluatorTable_eq]
  decide

/-! ### The next token -/

variable {token : Token} {op : BinaryOp} {tokens : List Token}

theorem terminalOf_of_sumOperator? (hlex : token.IsLexical) (h : sumOperator? token = some op) :
    terminalOf token = operatorTerminal op ∧ op ∈ [BinaryOp.add, .sub] := by
  obtain ⟨⟨-, hlt⟩, hsum, -⟩ := knownBy_terminalOf hlex
  rw [hsum] at h
  have hall : ∀ t < 10, ∀ op ∈ sumOperatorAt t,
      t = operatorTerminal op ∧ op ∈ [BinaryOp.add, .sub] := by decide
  exact hall _ hlt op h

theorem terminalOf_of_termOperator? (hlex : token.IsLexical) (h : termOperator? token = some op) :
    terminalOf token = operatorTerminal op ∧ op ∈ [BinaryOp.mul, .div] := by
  obtain ⟨⟨-, hlt⟩, -, hterm, -⟩ := knownBy_terminalOf hlex
  rw [hterm] at h
  have hall : ∀ t < 10, ∀ op ∈ termOperatorAt t,
      t = operatorTerminal op ∧ op ∈ [BinaryOp.mul, .div] := by decide
  exact hall _ hlt op h

theorem terminalOf_of_identifier (h : token.kind = .identifier) :
    terminalOf token = identifier := by
  rw [terminalOf, Token.terminal, Token.terminalName?, h]
  rfl

theorem terminalOf_of_number (h : token.kind = .number) : terminalOf token = number := by
  rw [terminalOf, Token.terminal, Token.terminalName?, h]
  rfl

theorem look_lt (hlex : ∀ token ∈ tokens, token.IsLexical) : look tokens < 10 := by
  cases tokens with
  | nil => decide
  | cons token rest => exact (knownBy_terminalOf (hlex token List.mem_cons_self)).1.2

/-- A factor comes next if its terminal does. -/
theorem look_mem_starters_iff (hlex : ∀ token ∈ tokens, token.IsLexical) :
    look tokens ∈ starters ↔ StartsFactor tokens := by
  cases tokens with
  | nil => exact ⟨fun h => absurd h (by decide), fun h => absurd h not_startsFactor_nil⟩
  | cons token rest =>
    obtain ⟨⟨-, hlt⟩, -, -, hopening, -, hatom⟩ :=
      knownBy_terminalOf (hlex token List.mem_cons_self)
    -- for tokens the question becomes one about the ten terminals
    have hstarts : ∀ t < 10, t ∈ starters ↔ t ∈ [identifier, number] ∨ t = opening := by decide
    rw [startsFactor_cons_iff, hatom, hopening, decide_eq_true_iff, decide_eq_true_iff]
    exact hstarts _ hlt

/-- A term is complete if the terminal that comes next says so. -/
theorem look_mem_termClosers_iff (hlex : ∀ token ∈ tokens, token.IsLexical) :
    look tokens ∈ termClosers ↔ completesTerm tokens = true := by
  cases tokens with
  | nil => decide
  | cons token rest =>
    obtain ⟨⟨hpos, hlt⟩, hsum, -, -, hclosing, -⟩ :=
      knownBy_terminalOf (hlex token List.mem_cons_self)
    have hcloses : ∀ t < 10, TerminalId.endOfInput < t → (t ∈ termClosers ↔
        ((sumOperatorAt t).isSome || decide (t = closing)) = true) := by decide
    rw [completesTerm, hsum, hclosing]
    exact hcloses _ hlt hpos

theorem isClosing_iff_terminalOf (hlex : token.IsLexical) :
    isClosing token = true ↔ terminalOf token = closing := by
  obtain ⟨-, -, -, -, hclosing, -⟩ := knownBy_terminalOf hlex
  rw [hclosing, decide_eq_true_iff]

theorem isOpening_iff_terminalOf (hlex : token.IsLexical) :
    isOpening token = true ↔ terminalOf token = opening := by
  obtain ⟨-, -, -, hopening, -⟩ := knownBy_terminalOf hlex
  rw [hopening, decide_eq_true_iff]

/-- Operators and parentheses have no values. -/
theorem value_eq_nothing (h : token.kind = .operator ∨ token.kind = .delimiter) :
    token.value = .nothing := by
  rw [Token.value]
  rcases h with h | h <;> rw [h]

/-- An atom has a value if it is known when the token is matched. -/
theorem valueOfAtom_eq (h : isAtom token = true) :
    (∃ v, token.value = .known v ∧ valueOfAtom token = .ok v) ∨
      token.value = .unknown ∧ valueOfAtom token = .error (.unknownValue (shownHead [token])) := by
  rcases isAtom_iff.1 h with hkind | hkind
  · exact Or.inr ⟨by rw [Token.value, hkind], by rw [valueOfAtom, hkind]⟩
  · rw [Token.value, hkind, valueOfAtom, hkind]
    cases Numeral.value? token.text with
    | some v => exact Or.inl ⟨v, rfl, rfl⟩
    | none => exact Or.inr ⟨rfl, rfl⟩

/-- An atom is a factor by itself. -/
theorem predict_atom (h : isAtom token = true) : ∃ b < 21, actionOf b = .assign ∧
    evaluatorTable.predict factor (some (terminalOf token)) =
      some ⟨[.terminal (terminalOf token), .action b], none⟩ := by
  rcases isAtom_iff.1 h with hkind | hkind
  · rw [terminalOf_of_identifier hkind]
    exact ⟨19, by decide, rfl, predict_factor_identifier⟩
  · rw [terminalOf_of_number hkind]
    exact ⟨20, by decide, rfl, predict_factor_number⟩

/-- After the last term of a sum comes a closing parenthesis or the end. -/
theorem look_mem_sumClosers {rest : List Token} (hlex : ∀ t ∈ token :: rest, t.IsLexical)
    (hnone : sumOperator? token = none) (h : completesTerm (token :: rest) = true) :
    terminalOf token ∈ sumClosers := by
  obtain ⟨⟨-, hlt⟩, hsum, -⟩ := knownBy_terminalOf (hlex token List.mem_cons_self)
  have hall : ∀ t < 10, sumOperatorAt t = none → t ∈ termClosers → t ∈ sumClosers := by decide
  exact hall _ hlt (hsum ▸ hnone) ((look_mem_termClosers_iff hlex).2 h)

/-- Nothing else comes after a factor. -/
theorem not_mem_of_termOperator? {rest : List Token}
    (hlex : ∀ t ∈ token :: rest, t.IsLexical) (hnone : termOperator? token = none)
    (h : ¬ completesTerm (token :: rest) = true) :
    terminalOf token ∉ times :: slash :: termClosers := by
  obtain ⟨⟨-, hlt⟩, -, hterm, -⟩ := knownBy_terminalOf (hlex token List.mem_cons_self)
  have hall : ∀ t < 10, termOperatorAt t = none → t ∉ termClosers →
      t ∉ times :: slash :: termClosers := by decide
  exact hall _ hlt (hterm ▸ hnone) fun hmem => h ((look_mem_termClosers_iff hlex).1 hmem)

/-- Nothing else starts an expression. -/
theorem not_mem_of_sumOperator? {rest : List Token}
    (hlex : ∀ t ∈ token :: rest, t.IsLexical) (hnone : sumOperator? token = none)
    (h : ¬ StartsFactor (token :: rest)) : terminalOf token ∉ plus :: minus :: starters := by
  obtain ⟨⟨-, hlt⟩, hsum, -⟩ := knownBy_terminalOf (hlex token List.mem_cons_self)
  have hall : ∀ t < 10, sumOperatorAt t = none → t ∉ starters → t ∉ plus :: minus :: starters := by
    decide
  exact hall _ hlt (hsum ▸ hnone) fun hmem => h ((look_mem_starters_iff hlex).1 hmem)

/-! ### Actions -/

theorem lookup_map {β : Type} (f : ActionId → β) {l : List ActionId} {a : ActionId} (h : a ∈ l) :
    (l.map fun a => (a, f a)).lookup a = some (f a) := by
  induction l with
  | nil => cases h
  | cons b l ih =>
    rw [List.map_cons, List.lookup_cons]
    by_cases heq : a = b
    · rw [heq, beq_self_eq_true]
    · rw [beq_eq_false_iff_ne.2 heq]
      exact ih ((List.mem_cons.1 h).resolve_left heq)

theorem find?_actions {a : ActionId} (h : a < 21) : actions.find? a = some (actionOf a) :=
  lookup_map actionOf (List.mem_range.2 h)

theorem combine_eq (op : BinaryOp) (a b : Value) :
    combine op a b = ((actionOf (computing op)).run [a, b]).mapError .action := by
  have hrun : (actionOf (computing op)).run [a, b] = op.apply a b := by cases op <;> rfl
  rw [hrun, combine]
  cases op.apply a b <;> rfl

theorem applySign_eq (sign : BinaryOp) (v : Value) :
    applySign sign v = ((actionOf (signing sign)).run [v]).mapError .action := by
  cases sign with
  | sub =>
    show opposite v = (Action.negate.run [v]).mapError .action
    rw [opposite, Action.negate]
    dsimp only [Action.unary]
    cases Value.ofInt? (-v.toInt) <;> rfl
  | _ => rfl

end ArithFrontEnd.Expression
