import ArithFrontEnd.Proofs.Engine.Wiring
import ArithFrontEnd.Proofs.Expression.Calculation
import ArithFrontEnd.Proofs.Prediction.Routing
import ArithFrontEnd.Proofs.Prediction.Selection

/-!
# The operands of the calculator

The actions of the calculator get the operands that they take, whatever the tokens are.  In its
grammar identifiers and numbers have values, and the rests of sums and of products inherit one; with
this every rule is wired up.

Only tokens can spoil the count.  A token of another kind whose text is the name of a terminal, such
as a keyword `id`, is read as an identifier or a number and has no value.  If the parser comes to
match it, the action below it lacks its operand.

## Main definitions

* `evaluatorWiring` — how many values the parts of the grammar deal with.
* `Matched` — the parser matches a token.

## Main results

* `evaluatorWiring_fits` — the rules and the actions of the calculator are wired up.
* `evaluate_wired` — **the calculator never finds itself at fault, and lacks an operand exactly
  where a token without a value stands for an identifier or a number.**
-/

namespace ArithFrontEnd.Expression

/-- The number of operands of an action: an operator has two. -/
def operandsOf (a : ActionId) : Nat := if a ∈ [6, 8, 13, 15] then 2 else 1

/-- Identifiers and numbers have values, and the rests of sums and of products inherit one. -/
def evaluatorWiring : Wiring TerminalId NonterminalId ActionId where
  hasValue t := decide (t ∈ [identifier, number])
  inherits := evaluator.isInherited
  operands a := if a < 21 then some (operandsOf a) else none

/-! ### The actions -/

theorem not_isMiscount_apply {op : BinaryOp} {a b : Value} {e : OperationError}
    (h : op.apply a b = .error e) : ¬ e.IsMiscount := by
  unfold BinaryOp.apply at h
  split at h
  · cases h
    exact id
  · split at h
    · cases h
    · cases h
      exact id

/-- An operation on one operand takes one. -/
theorem takes_unary {operation : Operation} {f : Value → Except OperationError Value}
    (announces : Bool) (hf : ∀ v e, f v = .error e → ¬ e.IsMiscount) :
    Action.Takes ⟨Action.unary operation f, announces⟩ 1 where
  few {values} h := by
    obtain rfl := List.length_eq_zero_iff.1 (Nat.lt_one_iff.1 h)
    exact ⟨operation, rfl⟩
  enough {values e} h hrun := by
    obtain ⟨v, rfl⟩ := List.length_eq_one_iff.1 h
    exact hf v e hrun

theorem takes_binary (op : BinaryOp) : (Action.binary op).Takes 2 where
  few {values} h := by
    match values with
    | [] => exact ⟨op.operation, rfl⟩
    | [_] => exact ⟨op.operation, rfl⟩
    | _ :: _ :: values =>
      simp only [List.length_cons] at h
      omega
  enough {values e} h hrun := by
    obtain ⟨a, b, rfl⟩ := List.length_eq_two.1 h
    exact not_isMiscount_apply hrun

theorem takes_negate : Action.negate.Takes 1 := by
  refine takes_unary false fun v e h => ?_
  split at h
  · cases h
  · cases h
    exact id

/-- Every action takes its operands. -/
theorem takes_actionOf (a : ActionId) : (actionOf a).Takes (operandsOf a) := by
  have hpasses {operation : Operation} (announces : Bool) :
      Action.Takes ⟨Action.unary operation .ok, announces⟩ 1 :=
    takes_unary announces (by simp)
  unfold actionOf operandsOf
  split
  · exact hpasses true
  · exact takes_negate
  · exact takes_binary .add
  · exact takes_binary .sub
  · exact takes_binary .mul
  · exact takes_binary .div
  · next hadd hsub hmul hdiv =>
    have hnot : a ∉ [6, 8, 13, 15] := by
      simp only [List.mem_cons, List.not_mem_nil, or_false, not_or]
      exact ⟨hadd, hsub, hmul, hdiv⟩
    rw [if_neg hnot]
    exact hpasses false

/-! ### The rules -/

/-- Every rule of the evaluator is wired up. -/
theorem wires_of_rule : ∀ rule ∈ evaluatorRules, evaluatorWiring.Wires rule.left
    ⟨rule.right, Option.map Nat.cast
      (if evaluator.isInherited rule.left then inheritedOffset rule.right else none)⟩ := by
  decide

theorem evaluatorWiring_fits : evaluatorWiring.Fits evaluatorTable.predictor actions where
  start := by
    rw [evaluatorTable_eq]
    decide
  wires {n next prediction} h := by
    obtain ⟨r, rule, hrule, rfl, -, hproduction, _, hroute, hinherited⟩ :=
      PredictionTable.predict_eq_some evaluator_wellFormed ofGrammar_evaluator h
    obtain ⟨production, inherited⟩ := prediction
    obtain rfl : production = rule.right := hproduction
    obtain rfl := PredictionTable.inherited_of_route hroute
    obtain rfl := hinherited
    exact wires_of_rule rule (List.mem_of_getElem? hrule)
  takes {a count} h := by
    unfold evaluatorWiring at h
    dsimp only at h
    split at h
    · next hlt =>
      obtain rfl := Option.some.inj h
      exact ⟨actionOf a, find?_actions hlt, takes_actionOf a⟩
    · contradiction

/-! ### The tokens -/

/-- Only identifiers and numbers have values, and they are read as what they are. -/
theorem hasValue_of_value {tokens : List Token} {token : InputToken TerminalId}
    (h : token ∈ evaluatorInput tokens) (hvalue : token.value ≠ .nothing) :
    evaluatorWiring.hasValue token.terminal = true := by
  obtain ⟨token, -, rfl⟩ := List.mem_map.1 h
  change token.value ≠ .nothing at hvalue
  change decide (terminalOf token ∈ [identifier, number]) = true
  unfold Token.value at hvalue
  split at hvalue
  · next hkind =>
    rw [terminalOf_of_identifier hkind]
    decide
  · next hkind =>
    rw [terminalOf_of_number hkind]
    decide
  · exact absurd rfl hvalue

/-- A token has no value if it is neither an identifier nor a number. -/
theorem value_eq_nothing_iff {token : Token} :
    token.value = .nothing ↔ token.kind ≠ .number ∧ token.kind ≠ .identifier := by
  unfold Token.value
  cases token.kind with
  | number => cases Numeral.value? token.text <;> simp
  | _ => simp

/-- The parser of the calculator matches this token of the list, the one between these parts. -/
def Matched (front : List Token) (token : Token) (rest : List Token) : Prop :=
  ∃ c c', Config.Reachable evaluatorTable.predictor actions
      (evaluatorInput (front ++ token :: rest)) c ∧
    c.step evaluatorTable.predictor actions = .running c' ∧
    c.input = evaluatorInput (token :: rest) ∧ c'.input = evaluatorInput rest

/-- A token that lacks its value is one that is matched and stands for an identifier or a number,
and is neither. -/
theorem exists_lacks_iff {tokens : List Token} :
    (∃ c token, Config.Reachable evaluatorTable.predictor actions (evaluatorInput tokens) c ∧
        evaluatorWiring.Lacks c token) ↔
      ∃ front token rest, tokens = front ++ token :: rest ∧ Matched front token rest ∧
        terminalOf token ∈ [identifier, number] ∧
        token.kind ≠ .number ∧ token.kind ≠ .identifier := by
  constructor
  · rintro ⟨c, shown, hreach, hlacks⟩
    obtain ⟨c', hstep, hinput, -⟩ :=
      hlacks.exists_step evaluatorTable.predictor actions
    -- what is left of the input is what is left of the tokens
    obtain ⟨front, hfront⟩ := hreach.input_suffix
    obtain ⟨front, left, rfl, -, hleft⟩ := List.map_eq_append_iff.1 hfront.symm
    obtain ⟨token, rest, rfl, htoken, hrest⟩ := List.map_eq_cons_iff.1 (hleft.trans hinput)
    subst htoken
    refine ⟨front, token, rest, rfl, ⟨c, c', hreach, hstep, hleft.symm, hrest.symm⟩, ?_, ?_⟩
    · exact of_decide_eq_true hlacks.promised
    · exact value_eq_nothing_iff.1 hlacks.missing
  · rintro ⟨front, token, rest, rfl, ⟨c, c', hreach, hstep, hinput, hrest⟩, hterminal, hkind⟩
    refine ⟨c, token.resolve evaluator.toVocabulary true, hreach, ?_, ⟨_, hinput⟩,
      decide_eq_true hterminal, value_eq_nothing_iff.2 hkind⟩
    have hmove := Config.move_of_step hstep
    rw [hinput, hrest] at hmove
    obtain ⟨cell, below, hstack, htop, -⟩ := List.map_eq_cons_iff.1 hmove.eq_terminal_cons
    exact ⟨cell.values, below, by rw [hstack, ← htop]⟩

/-! ### The calculator -/

/-- Whatever the tokens are, the calculator does not find that its rules and actions do not fit
together, and no action has too many operands.  An action has too few exactly where the parser comes
to match a token that stands for an identifier or a number and is of neither kind. -/
theorem evaluate_wired (tokens : List Token) :
    (∀ fault, evaluate tokens ≠ .error (.internal fault)) ∧
      (∀ operation expected found,
        evaluate tokens ≠ .error (.action (.tooManyOperands operation expected found))) ∧
      ((∃ operation expected found,
          evaluate tokens = .error (.action (.tooFewOperands operation expected found))) ↔
        ∃ front token rest, tokens = front ++ token :: rest ∧ Matched front token rest ∧
          terminalOf token ∈ [identifier, number] ∧
          token.kind ≠ .number ∧ token.kind ≠ .identifier) := by
  obtain ⟨v, hgives, hevaluate⟩ := exists_verdict_evaluate tokens
  obtain ⟨hresult, hcategory, hmany, hfew⟩ :=
    Wiring.verdict_of_fits evaluatorWiring_fits (fun _ => hasValue_of_value) hgives
  -- the answer is the verdict, which is not that there is no value
  have hanswer (e : ParseError) : evaluate tokens = .error e ↔ v = .error e := by
    rw [hevaluate]
    cases v with
    | error e' => simp [answerOf]
    | ok result =>
      cases result with
      | none => exact absurd rfl hresult
      | some w => simp [answerOf]
  refine ⟨fun fault h => ?_, fun operation expected found h => ?_, ?_⟩
  · exact hcategory _ ((hanswer _).1 h) rfl
  · exact hmany _ _ _ ((hanswer _).1 h)
  · simp only [hanswer, hfew, exists_lacks_iff]

/-- An operator whose text is the name of a terminal is matched as a number after `2 +`, and the
action below it lacks its operand. -/
theorem evaluate_wired_impostor :
    ∃ front token rest, [⟨.number, "2", 1⟩, ⟨.operator, "+", 1⟩, ⟨.operator, "num", 1⟩] =
        front ++ token :: rest ∧ Matched front token rest ∧
      terminalOf token ∈ [identifier, number] ∧
      token.kind ≠ .number ∧ token.kind ≠ .identifier :=
  (evaluate_wired _).2.2.1 ⟨.assignment, 1, 0, by decide +kernel⟩

end ArithFrontEnd.Expression
