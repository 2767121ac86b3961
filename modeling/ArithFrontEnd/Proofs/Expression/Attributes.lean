import ArithFrontEnd.Proofs.Engine.Attributes
import ArithFrontEnd.Proofs.Expression.Agreement
import ArithFrontEnd.Proofs.Expression.Calculation

/-!
# The calculator and the recognizer agree on the syntax

The recognizer parses by the table of the calculator without attributes, and reads tokens without
their values.  So it accepts what the calculator computes, and rejects tokens with the same words,
whatever the tokens are.

## Main results

* `predictor_recognizerTable` — the recognizer is the calculator without attributes.
* `attributes_agree_on_syntax` — **attributes never change the verdict on the syntax**, of any
  parser, and so of the calculator.
-/

namespace ArithFrontEnd

section Engine

variable {T N A : Type} [DecidableEq T] [DecidableEq A]

/-- The step limit has no part in a run. -/
theorem Config.run_stepLimit (p : Predictor T N A) (limit : Nat → Nat) (r : Registry A)
    (steps : Nat) (c : Config T N A) :
    c.run { p with stepLimit := limit } r steps = c.run p r steps := by
  induction steps generalizing c with
  | zero => rfl
  | succ steps ih =>
    have hstep : c.step { p with stepLimit := limit } r = c.step p r := rfl
    rw [Config.run, Config.run, hstep]
    cases c.step p r with
    | running c' => exact ih c'
    | accepted result => rfl
    | rejected e => rfl

theorem Config.gives_stepLimit (p : Predictor T N A) (limit : Nat → Nat) (r : Registry A)
    (input : List (InputToken T)) {v : Verdict} :
    (Config.initial { p with stepLimit := limit } input).Gives { p with stepLimit := limit } r v ↔
      (Config.initial p input).Gives p r v := by
  simp only [Config.Gives, Config.run_stepLimit]
  rfl

end Engine

namespace Expression

/-- The recognizer is the calculator without attributes, with a limit of its own. -/
theorem predictor_recognizerTable : recognizerTable.predictor =
    { evaluatorTable.predictor.erase with stepLimit := recognizerTable.predictor.stepLimit } := by
  have hpredict : recognizerTable.predictor.predict = evaluatorTable.predictor.erase.predict :=
    funext fun n => funext fun t => predict_recognizerTable n t
  have hstart : recognizerTable.start = evaluatorTable.start := by
    rw [recognizerTable_eq, evaluatorTable_eq]
  have hterminals : recognizerTable.vocabulary.terminalName =
      evaluatorTable.vocabulary.terminalName := by
    rw [recognizerTable_eq, evaluatorTable_eq]
    rfl
  have hnonterminals : recognizerTable.vocabulary.nonterminalName =
      evaluatorTable.vocabulary.nonterminalName := by
    rw [recognizerTable_eq, evaluatorTable_eq]
    rfl
  rw [Predictor.mk.injEq]
  refine ⟨hstart, hpredict, ?_, hnonterminals, rfl, rfl⟩
  exact funext fun t => congrFun hterminals (t.getD .endOfInput)

/-- The recognizer reads what the calculator reads, without values. -/
theorem recognizerInput_eq (tokens : List Token) :
    recognizerInput tokens = (evaluatorInput tokens).map .erase := by
  rw [recognizerInput, evaluatorInput, Token.resolveAll, Token.resolveAll, List.map_map]
  rfl

/-- What the calculator without attributes comes to is what the recognizer comes to. -/
theorem gives_recognizer {tokens : List Token} {w : Verdict} :
    (Config.initial recognizerTable.predictor (recognizerInput tokens)).Gives
        recognizerTable.predictor .empty w ↔
      (Config.initial evaluatorTable.predictor.erase ((evaluatorInput tokens).map .erase)).Gives
        evaluatorTable.predictor.erase .empty w := by
  rw [predictor_recognizerTable, recognizerInput_eq]
  exact Config.gives_stepLimit evaluatorTable.predictor.erase _ _ _

theorem exists_verdict_check (tokens : List Token) :
    ∃ w, (Config.initial recognizerTable.predictor (recognizerInput tokens)).Gives
      recognizerTable.predictor .empty w ∧ check tokens = w.map fun _ => () := by
  obtain ⟨w, hrun⟩ := PredictionTable.exists_verdict recognizer_wellFormed ofGrammar_recognizer
    .empty (recognizerInput tokens)
  refine ⟨w, ⟨_, hrun⟩, check_eq_of_gives ?_⟩
  rw [← initial_recognizer]
  exact ⟨_, hrun⟩

theorem answerOf_eq_ok {v : Verdict} {a : Value} : answerOf v = .ok a ↔ v = .ok (some a) := by
  rcases v with e | _ | a' <;> simp [answerOf]

/-- An answer that is about the syntax is the verdict of the parser. -/
theorem answerOf_eq_error {v : Verdict} {e : ParseError} (hcategory : e.category = .syntactic) :
    answerOf v = .error e ↔ v = .error e := by
  rcases v with e' | _ | a'
  · simp [answerOf]
  · simp only [answerOf, Except.error.injEq, reduceCtorEq, iff_false]
    rintro rfl
    cases hcategory
  · simp [answerOf]

/-- Where the parser accepts, either there is an answer or a value is missing. -/
theorem exists_answerOf_ok (result : Option Value) :
    (∃ a, answerOf (.ok result) = .ok a) ∨
      ∃ e, answerOf (.ok result) = .error e ∧ e.category ≠ .syntactic := by
  cases result with
  | none => exact Or.inr ⟨_, rfl, nofun⟩
  | some a => exact Or.inl ⟨a, rfl⟩

/-- The calculator computes what the recognizer accepts, and rejects tokens as the recognizer does,
unless a value is missing or wrong. -/
theorem evaluate_agrees_with_check (tokens : List Token) :
    AgreeOnSyntax () (evaluate tokens = ·) (check tokens = ·) := by
  obtain ⟨v, hv, hevaluate⟩ := exists_verdict_evaluate tokens
  obtain ⟨w, hw, hcheck⟩ := exists_verdict_check tokens
  have hagree := (agreeOnSyntax_erase evaluatorTable.predictor actions (evaluatorInput tokens)).1
  have hw := gives_recognizer.1 hw
  rw [hevaluate, hcheck]
  constructor
  case accepted =>
    intro a h
    obtain rfl := answerOf_eq_ok.1 h
    rw [hw.unique (hagree.accepted hv)]
    rfl
  case rejected =>
    intro e h hcategory
    obtain rfl := (answerOf_eq_error hcategory).1 h
    rw [hw.unique (hagree.rejected hv hcategory)]
    rfl
  case of_accepted =>
    intro _ h
    cases w with
    | error e => cases h
    | ok result =>
      rcases hagree.of_accepted hw with ⟨a, ha⟩ | ⟨e, he, hcategory⟩
      · rw [hv.unique ha]
        exact exists_answerOf_ok a
      · rw [hv.unique he]
        exact Or.inr ⟨e, rfl, hcategory⟩
  case of_rejected =>
    intro e h hcategory
    cases w with
    | ok result => cases h
    | error e' =>
      obtain rfl : e' = e := Except.error.inj h
      rcases hagree.of_rejected hw hcategory with he | ⟨e'', he, hcategory'⟩
      · rw [hv.unique he]
        exact Or.inl rfl
      · rw [hv.unique he]
        exact Or.inr ⟨e'', rfl, hcategory'⟩

end Expression

/-- Attributes do not change the verdict on the syntax, whatever the productions, the actions, the
places of inherited values and the tokens are.  So the calculator judges the syntax of an expression
as the recognizer does. -/
theorem attributes_agree_on_syntax :
    (∀ (T N A : Type) [DecidableEq T] [DecidableEq A] (p : Predictor T N A) (r : Registry A)
      (input : List (InputToken T)),
      AgreeOnSyntax none ((Config.initial p input).Gives p r)
          ((Config.initial p.erase (input.map .erase)).Gives p.erase .empty) ∧
        AgreeOnSyntax none (parse p r input = ·)
          (parse p.erase .empty (input.map .erase) = ·)) ∧
      ∀ tokens : List Token,
        AgreeOnSyntax () (Expression.evaluate tokens = ·) (Expression.check tokens = ·) :=
  ⟨fun _ _ _ _ _ p r input => agreeOnSyntax_erase p r input, Expression.evaluate_agrees_with_check⟩

end ArithFrontEnd
