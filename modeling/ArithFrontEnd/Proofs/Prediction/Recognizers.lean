import ArithFrontEnd.Proofs.Engine.TokenValues
import ArithFrontEnd.Proofs.Prediction.Acceptance
import ArithFrontEnd.Proofs.Prediction.Stopping

/-!
# Tables without actions

A parser without actions may be expected to recognize its input and to have no result.  But the
value of a token that ends a right-hand side comes to the place of the nonterminal there, and
without an action below it is the result of the parse.  So the result is that of the last such
token, and there is none just if none of these tokens has a value.

## Main results

* `actionless_of_actions_nil`, `unrouted_of_actions_nil` — a grammar without actions has a table
  that runs none and sends no values.
* `parse_recognizer` — the verdicts of such a table.
* `parse_actionless` — **what a parser without actions has for a result.**
* `actionless_parse_has_value` — a parser without actions need not be without a result.
-/

namespace ArithFrontEnd

/-! ### Tables of grammars -/

namespace PredictionTable

variable {g : Grammar} {policy : ConflictPolicy} {table : PredictionTable}

theorem actionless_of_actions_nil (hg : g.WellFormed) (htable : ofGrammar g policy = .ok table)
    (hactions : ∀ rule ∈ g.rules, rule.actions = []) : table.predictor.Actionless :=
  fun _ _ _ h => (predict_of_actions_nil hg htable hactions h).2

theorem unrouted_of_actions_nil (hg : g.WellFormed) (htable : ofGrammar g policy = .ok table)
    (hactions : ∀ rule ∈ g.rules, rule.actions = []) : table.predictor.Unrouted :=
  fun _ _ _ h => (predict_of_actions_nil hg htable hactions h).1

/-- Where a grammar has no conflicts and no actions, its parser accepts the inputs that its
predictions read, if no value is unknown. -/
theorem parse_recognizer (hg : g.IsDefined) (htable : ofGrammar g .reject = .ok table)
    (hactions : ∀ rule ∈ g.rules, rule.actions = []) (registry : Registry ActionId)
    (input : List (InputToken TerminalId)) (result : Option Value) :
    parse table.predictor registry input = .ok result ↔
      (∀ token ∈ input, token.value ≠ .unknown) ∧
        ∃ closing, table.predictor.Reads [.nonterminal table.start] input [] closing ∧
          result = lastValue closing := by
  obtain ⟨v, hrun, hparse, -⟩ := parse_halts hg htable registry input
  have hgives : (Config.initial table.predictor input).Gives table.predictor registry v := ⟨_, hrun⟩
  have hiff : parse table.predictor registry input = .ok result ↔
      (Config.initial table.predictor input).Gives table.predictor registry (.ok result) := by
    rw [hparse]
    exact ⟨fun h => h ▸ hgives, fun h => hgives.unique h⟩
  rw [hiff]
  exact Config.gives_ok_iff (actionless_of_actions_nil hg.wellFormed htable hactions)
    (unrouted_of_actions_nil hg.wellFormed htable hactions)

end PredictionTable

/-! ### The result of a parser without actions -/

/-- If a parser without actions has a result, it is the value of a token of the input.  Where no
values are sent, the parser accepts what its predictions read, if no value is unknown, and the
result is the value of the last token with one among those that close a right-hand side. -/
theorem parse_actionless {T N A : Type} [DecidableEq T] [DecidableEq A] {p : Predictor T N A}
    (hp : p.Actionless) (r : Registry A) (input : List (InputToken T)) :
    (∀ result, parse p r input = .ok result →
      (Config.initial p input).Gives p r (.ok result)) ∧
    (∀ v, (Config.initial p input).Gives p r (.ok (some v)) →
      ∃ token ∈ input, token.value = .known v) ∧
    (p.Unrouted → ∀ result, (Config.initial p input).Gives p r (.ok result) ↔
      (∀ token ∈ input, token.value ≠ .unknown) ∧
        ∃ closing, p.Reads [.nonterminal p.start] input [] closing ∧
          result = lastValue closing) := by
  refine ⟨fun result h => ?_, fun v => (Config.Sourced.initial p input).of_gives hp,
    fun hp' result => Config.gives_ok_iff hp hp'⟩
  unfold parse at h
  dsimp only at h
  split at h
  · next verdict hrun => exact ⟨_, h ▸ hrun⟩
  · cases h

/-- The grammar `S -> a B c`, `B -> b`. -/
def Grammar.nested : Grammar where
  terminals := ["a", "b", "c"]
  nonterminals := [⟨"S", false⟩, ⟨"B", false⟩]
  rules := [⟨0, [.terminal 2, .nonterminal 1, .terminal 4]⟩, ⟨1, [.terminal 3]⟩]
  start := 0

/-- The table of `S -> a B c`, `B -> b`. -/
def PredictionTable.nested : PredictionTable :=
  ⟨Grammar.nested.toVocabulary, 0,
    [[(2, ⟨0, [.terminal 2, .nonterminal 1, .terminal 4], none⟩)], [(3, ⟨1, [.terminal 3], none⟩)]]⟩

/-- Of `a`, `b` and `c` with the values 1 and 2 and none, `b` and `c` close a right-hand side, and
the result is 2. -/
theorem parse_actionless_nested :
    PredictionTable.ofGrammar .nested .reject = .ok .nested ∧
    parse PredictionTable.nested.predictor .empty
      [⟨2, .known 1, "a"⟩, ⟨3, .known 2, "b"⟩, ⟨4, .nothing, "c"⟩] = .ok (some 2) ∧
    (∃ token ∈ [⟨2, .known 1, "a"⟩, ⟨3, .known 2, "b"⟩, (⟨4, .nothing, "c"⟩ : InputToken Nat)],
      token.value = .known 2) ∧
    ∃ closing, PredictionTable.nested.predictor.Reads [.nonterminal 0]
        [⟨2, .known 1, "a"⟩, ⟨3, .known 2, "b"⟩, ⟨4, .nothing, "c"⟩] [] closing ∧
      some 2 = lastValue closing := by
  have hg : Grammar.nested.IsDefined :=
    ⟨[.terminal "a", .terminal "b", .terminal "c", .nonterminal "S", .nonterminal "B",
      .rule 0 [.terminal 2, .nonterminal 1, .terminal 4], .rule 1 [.terminal 3]], rfl⟩
  have htable : PredictionTable.ofGrammar .nested .reject = .ok .nested := by decide +kernel
  have hactions : ∀ rule ∈ Grammar.nested.rules, rule.actions = [] := by decide
  have hp := PredictionTable.actionless_of_actions_nil hg.wellFormed htable hactions
  have hp' := PredictionTable.unrouted_of_actions_nil hg.wellFormed htable hactions
  have hparse : parse PredictionTable.nested.predictor .empty
      [⟨2, .known 1, "a"⟩, ⟨3, .known 2, "b"⟩, ⟨4, .nothing, "c"⟩] = .ok (some 2) := by
    decide +kernel
  obtain ⟨hgives, htoken, hreads⟩ := parse_actionless hp .empty
    [⟨2, .known 1, "a"⟩, ⟨3, .known 2, "b"⟩, ⟨4, .nothing, "c"⟩]
  have hresult := hgives _ hparse
  exact ⟨htable, hparse, htoken 2 hresult, ((hreads hp' (some 2)).1 hresult).2⟩

/-- The grammar `S -> num`. -/
def Grammar.number : Grammar where
  terminals := ["num"]
  nonterminals := [⟨"S", false⟩]
  rules := [⟨0, [.terminal 2]⟩]
  start := 0

/-- The table of `S -> num`. -/
def PredictionTable.number : PredictionTable :=
  ⟨Grammar.number.toVocabulary, 0, [[(2, ⟨0, [.terminal 2], none⟩)]]⟩

/-- The table of `S -> num` has no actions, but on the number 7 the result is 7. -/
theorem actionless_parse_has_value :
    PredictionTable.ofGrammar .number .reject = .ok .number ∧
    parse PredictionTable.number.predictor .empty [⟨2, .known 7, "7"⟩] = .ok (some 7) ∧
    ¬ ∀ (p : Predictor TerminalId NonterminalId ActionId) (r : Registry ActionId)
      (input : List (InputToken TerminalId)) (result : Option Value), p.Actionless →
        parse p r input = .ok result → result = none := by
  have hg : Grammar.number.IsDefined :=
    ⟨[.terminal "num", .nonterminal "S", .rule 0 [.terminal 2]], rfl⟩
  have htable : PredictionTable.ofGrammar .number .reject = .ok .number := by decide +kernel
  have hactions : ∀ rule ∈ Grammar.number.rules, rule.actions = [] := by decide
  have hparse : parse PredictionTable.number.predictor .empty [⟨2, .known 7, "7"⟩] =
      .ok (some 7) := by decide +kernel
  refine ⟨htable, hparse, fun hnone => ?_⟩
  cases hnone _ _ _ _ (PredictionTable.actionless_of_actions_nil hg.wellFormed htable hactions)
    hparse

end ArithFrontEnd
