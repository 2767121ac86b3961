import ArithFrontEnd.Proofs.Expression.Failure
import ArithFrontEnd.Proofs.Expression.Simulation
import ArithFrontEnd.Proofs.Prediction.Acyclic

/-!
# The calculator computes the expression

The calculator parses by the table of the evaluator, and values travel through its stack.  It gives
what the recursive evaluation gives, so its values are those that the tokens stand for, and its
errors are the first difficulties with the tokens.

## Main definitions

* `answerOf` — the answer of the calculator, given the verdict of its parser.

## Main results

* `comes_value` — the parser comes to the outcome of the recursive evaluation.
* `evaluate_exact` — **the calculator computes the expression or tells why it has no value.**
-/

namespace ArithFrontEnd.Expression

/-! ### The start symbol -/

variable {tokens : List Token}

theorem readSigned_of_look (hlex : ∀ t ∈ tokens, t.IsLexical)
    (h : look tokens ∈ plus :: minus :: starters) (part other : String) :
    readSigned part tokens = readSigned other tokens := by
  cases tokens with
  | nil => exact absurd h (by decide)
  | cons token rest =>
    rw [readSigned_cons, readSigned_cons]
    cases hsign : sumOperator? token with
    | some sign => rfl
    | none =>
      by_cases hstarts : StartsFactor (token :: rest)
      · exact readSum_of_startsFactor hstarts part other
      · exact absurd h (not_mem_of_sumOperator? hlex hsign hstarts)

theorem readSigned_of_not (hlex : ∀ t ∈ tokens, t.IsLexical)
    (h : look tokens ∉ plus :: minus :: starters) (part : String) :
    readSigned part tokens = .error (cannotStart part tokens) := by
  cases tokens with
  | nil => exact readSigned_nil part
  | cons token rest =>
    rw [readSigned_cons]
    cases hsign : sumOperator? token with
    | some sign =>
      obtain ⟨hterminal, hmem⟩ := terminalOf_of_sumOperator? (hlex token List.mem_cons_self) hsign
      have hsigns : ∀ op ∈ [BinaryOp.add, .sub],
          operatorTerminal op ∈ plus :: minus :: starters := by decide
      refine absurd ?_ h
      show terminalOf token ∈ _
      rw [hterminal]
      exact hsigns sign hmem
    | none =>
      refine readSum_of_not (fun hstarts => h ?_) part
      exact List.mem_cons_of_mem _ (List.mem_cons_of_mem _ ((look_mem_starters_iff hlex).2 hstarts))

/-- With the end of the input on top, the value is the result if no token is left. -/
theorem comes_result (v : Value) (rest : List Token) :
    Comes [⟨.synthesized goal, [v]⟩, ⟨.endMarker, []⟩] rest
      (match rest with
        | [] => .ok (some v)
        | token :: rest => .error (.unexpectedToken "#" (shownHead (token :: rest)))) := by
  refine .synthesized_last rfl ?_
  cases rest with
  | nil => exact .of_running rfl (.of_accepted rfl)
  | cons token rest =>
    have hend : evaluatorTable.predictor.terminalName none = "#" := terminalName_evaluatorTable none
    rw [← hend]
    exact .of_rejected rfl

/-- The parser comes to the outcome of the recursive evaluation. -/
theorem comes_value (hlex : ∀ t ∈ tokens, t.IsLexical) :
    Comes [⟨.nonterminal goal, []⟩, ⟨.synthesized goal, []⟩, ⟨.endMarker, []⟩] tokens
      ((value tokens).map some) := by
  rw [value_eq]
  by_cases hlook : look tokens ∈ plus :: minus :: starters
  · refine comes_expanded (predict_goal _ hlook) ?_
    rw [readSigned_of_look hlex hlook "S" "E"]
    -- the action below the expression announces its value
    refine delivers_signed tokens hlex 0 [] _ _ (fun v rest hread => ?_) fun e hread => ?_
    · refine comes_performed (by decide) rfl rfl ?_
      have hresult := comes_result v rest
      rw [hread]
      cases rest <;> exact hresult
    · rw [hread]
      rfl
  · rw [readSigned_of_not hlex hlook]
    have hnone := predict_signed_eq_none goal (by decide) _ (look_lt hlex) hlook
    exact comes_unpredicted hnone

/-! ### The calculator -/

theorem evaluator_wellFormed : evaluator.WellFormed where
  left {rule} h := by
    have hall : ∀ rule ∈ evaluatorRules, evaluator.Declares (.nonterminal rule.left) := by decide
    exact hall rule h
  right {rule} h {s} hs := by
    have hall : ∀ rule ∈ evaluatorRules, ∀ s ∈ rule.right, evaluator.Declares s := by decide
    exact hall rule h s hs
  start := by decide

/-- The calculator is unfolded as a function: given a list of tokens, unfolding it would mean to
parse the list. -/
theorem evaluate_eq : evaluate = fun tokens =>
    match parse evaluatorTable.predictor actions (evaluatorInput tokens) with
    | .error e => .error e
    | .ok none => .error (.internal .noFinalValue)
    | .ok (some v) => .ok v := by
  delta evaluate
  rfl

/-- The answer of the calculator, given the verdict of its parser. -/
def answerOf : Verdict → Except ParseError Value
  | .error e => .error e
  | .ok none => .error (.internal .noFinalValue)
  | .ok (some v) => .ok v

/-- The calculator answers with what its parser comes to. -/
theorem evaluate_eq_of_gives {v : Verdict}
    (h : (Config.initial evaluatorTable.predictor (evaluatorInput tokens)).Gives
      evaluatorTable.predictor actions v) : evaluate tokens = answerOf v := by
  obtain ⟨w, hw⟩ := PredictionTable.exists_verdict evaluator_wellFormed ofGrammar_evaluator actions
    (evaluatorInput tokens)
  rw [evaluate_eq]
  dsimp only
  rw [parse_eq_of_gives h hw]
  rfl

/-- The parser of the calculator comes to a verdict. -/
theorem exists_verdict_evaluate (tokens : List Token) :
    ∃ v, (Config.initial evaluatorTable.predictor (evaluatorInput tokens)).Gives
      evaluatorTable.predictor actions v ∧ evaluate tokens = answerOf v := by
  obtain ⟨v, hrun⟩ := PredictionTable.exists_verdict evaluator_wellFormed ofGrammar_evaluator
    actions (evaluatorInput tokens)
  exact ⟨v, ⟨_, hrun⟩, evaluate_eq_of_gives ⟨_, hrun⟩⟩

/-- The calculator gives what the recursive evaluation gives. -/
theorem evaluate_eq_value (hlex : ∀ t ∈ tokens, t.IsLexical) : evaluate tokens = value tokens := by
  have hcomes : (Config.initial evaluatorTable.predictor (evaluatorInput tokens)).Gives
      evaluatorTable.predictor actions ((value tokens).map some) := by
    have hstart : evaluatorTable.predictor.start = goal := by rw [evaluatorTable_eq]; rfl
    rw [Config.initial, hstart]
    exact comes_value hlex
  rw [evaluate_eq_of_gives hcomes]
  cases value tokens <;> rfl

/-- On tokens from a source text, the calculator gives what the recursive evaluation gives.  It
gives a value just if the tokens are an expression that stands for that integer, and an error just
if that is the first difficulty with them from left to right. -/
theorem evaluate_exact (tokens : List Token) (hlex : ∀ token ∈ tokens, token.IsLexical) :
    evaluate tokens = value tokens ∧
    (∀ v, evaluate tokens = .ok v ↔ Denotes .signed tokens v.toInt) ∧
    (∀ e, evaluate tokens = .error e ↔ Fails .signed "S" tokens e ∨
      ∃ before token rest n, tokens = before ++ token :: rest ∧ Denotes .signed before n ∧
        isClosing token = true ∧ e = .unexpectedToken "#" (shownHead (token :: rest))) := by
  have heq := evaluate_eq_value hlex
  refine ⟨heq, fun v => ?_, fun e => ?_⟩
  · rw [heq]
    exact value_eq_ok_iff hlex
  · rw [heq]
    exact value_eq_error_iff hlex

/-- `-1+2` stands for minus three, because the sign is that of the whole sum.  In `1/0*x` the
divisor is met before the identifier. -/
theorem evaluate_exact_first_difficulty :
    Denotes .signed [⟨.operator, "-", 1⟩, ⟨.number, "1", 1⟩, ⟨.operator, "+", 1⟩,
      ⟨.number, "2", 1⟩] (-3) ∧
    evaluate [⟨.number, "1", 1⟩, ⟨.operator, "/", 1⟩, ⟨.number, "0", 1⟩, ⟨.operator, "*", 1⟩,
      ⟨.identifier, "x", 1⟩] = .error (.action .divisionByZero) := by
  obtain ⟨-, hvalue, -⟩ := evaluate_exact [⟨.operator, "-", 1⟩, ⟨.number, "1", 1⟩,
    ⟨.operator, "+", 1⟩, ⟨.number, "2", 1⟩] (by decide)
  obtain ⟨-, -, herror⟩ := evaluate_exact [⟨.number, "1", 1⟩, ⟨.operator, "/", 1⟩,
    ⟨.number, "0", 1⟩, ⟨.operator, "*", 1⟩, ⟨.identifier, "x", 1⟩] (by decide)
  refine ⟨(hvalue (-3)).1 (by decide +kernel), (herror _).2 (Or.inl ?_)⟩
  have hone : Denotes .term [⟨.number, "1", 1⟩] 1 :=
    .factor (.number rfl (by decide +kernel) (by decide +kernel))
  have hzero : Denotes .factor [⟨.number, "0", 1⟩] 0 :=
    .number rfl (by decide +kernel) (by decide +kernel)
  have hquotient : Fails .term "S" ([⟨.number, "1", 1⟩] ++ ⟨.operator, "/", 1⟩ ::
      [⟨.number, "0", 1⟩] ++ [⟨.operator, "*", 1⟩, ⟨.identifier, "x", 1⟩])
      (.action .divisionByZero) :=
    .product hone rfl hzero (.divisionByZero ⟨rfl, rfl⟩)
  exact .unsigned (by decide) (.term hquotient)

end ArithFrontEnd.Expression
