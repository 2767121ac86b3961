import ArithFrontEnd.Proofs.Analysis.Successors
import ArithFrontEnd.Proofs.Prediction.Faults

/-!
# What a table predicts

A rule is the right choice for a nonterminal if what comes next can come first in its right-hand
side, or if the right-hand side can be empty and what comes next can come after the nonterminal.  A
table predicts such rules, and where conflicts are refused there is only one.

## Main definitions

* `Grammar.Selects` — the rule is the right choice.

## Main results

* `predict_eq_some`, `predict_of_selects` — **a table predicts the rules that are the right
  choice.**
* `selects_unique` — only one rule is, where conflicts are refused.
-/

namespace ArithFrontEnd

open Analysis (compute)

variable {g : Grammar} {t : TerminalId}

/-- The rule is the right choice for its left-hand side when this terminal comes next. -/
def Grammar.Selects (g : Grammar) (t : TerminalId) (rule : Rule) : Prop :=
  g.Begins t rule.right ∨ g.Nullable rule.right ∧ t ∈ (compute g).followOf rule.left

theorem mem_selectOf_iff (hg : g.WellFormed) {r : RuleId} {rule : Rule}
    (h : g.rules[r]? = some rule) : t ∈ (compute g).selectOf r ↔ g.Selects t rule := by
  rw [Analysis.mem_selectOf h]
  show t ∈ (Analysis.firstOf (Analysis.firstSets g) rule.right).terminals ∨
    (Analysis.firstOf (Analysis.firstSets g) rule.right).nullable = true ∧ _ ↔ _
  rw [Analysis.mem_firstSets_iff hg, Analysis.nullable_firstSets_iff hg]
  rfl

/-! ### Predictions -/

namespace PredictionTable

variable {policy : ConflictPolicy} {table : PredictionTable} {n : NonterminalId}
  {next : Option TerminalId} {prediction : Prediction TerminalId NonterminalId ActionId}

/-- A table predicts right-hand sides of rules that are the right choice. -/
theorem predict_eq_some (hg : g.WellFormed) (htable : ofGrammar g policy = .ok table)
    (h : table.predict n next = some prediction) :
    ∃ r rule, g.rules[r]? = some rule ∧ rule.left = n ∧ g.Selects (next.getD .endOfInput) rule ∧
      prediction.production = rule.right ∧
      ∃ inherited, route g r rule = .ok inherited ∧
        prediction.inherited = inherited.map Nat.cast := by
  obtain ⟨e, he, rfl⟩ := Option.map_eq_some_iff.1 h
  obtain ⟨rule, hrule, -, hleft, ht, hproduction, hroute⟩ :=
    (ofGrammar_spec hg htable).1.rule_of_find? he
  exact ⟨e.rule, rule, hrule, hleft, (mem_selectOf_iff hg hrule).1 ht, hproduction, _, hroute, rfl⟩

/-- Where conflicts are refused, one rule of a nonterminal is the right choice. -/
theorem selects_unique (hg : g.WellFormed) (htable : ofGrammar g .reject = .ok table)
    {r r' : RuleId} {rule rule' : Rule} (hrule : g.rules[r]? = some rule)
    (hrule' : g.rules[r']? = some rule') (hleft : rule.left = rule'.left) (ht : g.Selects t rule)
    (ht' : g.Selects t rule') : r = r' :=
  (ofGrammar_spec hg htable).2.2 rfl r r' rule rule' t (List.getElem?_eq_some_iff.1 hrule).1
    (List.getElem?_eq_some_iff.1 hrule').1 hrule hrule' hleft ((mem_selectOf_iff hg hrule).2 ht)
    ((mem_selectOf_iff hg hrule').2 ht')

/-- Where conflicts are refused, a table predicts the rule that is the right choice. -/
theorem predict_of_selects (hg : g.WellFormed) (htable : ofGrammar g .reject = .ok table)
    {r : RuleId} {rule : Rule} (hrule : g.rules[r]? = some rule)
    (ht : g.Selects (next.getD .endOfInput) rule) :
    ∃ prediction, table.predict rule.left next = some prediction ∧
      prediction.production = rule.right := by
  obtain ⟨e, he⟩ := (ofGrammar_spec hg htable).1.find?_of_rule (List.getElem?_eq_some_iff.1 hrule).1
    hrule ((mem_selectOf_iff hg hrule).2 ht)
  have hpredict : table.predict rule.left next = some ⟨e.production, e.inherited.map Nat.cast⟩ := by
    rw [predict, find?, he]
    rfl
  refine ⟨_, hpredict, ?_⟩
  obtain ⟨r', rule', hrule', hleft', ht', hproduction, -⟩ := predict_eq_some hg htable hpredict
  obtain rfl := selects_unique hg htable hrule hrule' hleft'.symm ht ht'
  obtain rfl := Option.some.inj (hrule.symm.trans hrule')
  exact hproduction

/-- Where conflicts are refused, what is predicted is the rule that is the right choice. -/
theorem production_of_selects (hg : g.WellFormed) (htable : ofGrammar g .reject = .ok table)
    {rule : Rule} (hrule : rule ∈ g.rules) (ht : g.Selects (next.getD .endOfInput) rule)
    (h : table.predict rule.left next = some prediction) : prediction.production = rule.right := by
  obtain ⟨r, hr⟩ := List.mem_iff_getElem?.1 hrule
  obtain ⟨prediction', h', hproduction⟩ := predict_of_selects hg htable hr ht
  rw [h] at h'
  obtain rfl := Option.some.inj h'
  exact hproduction

end PredictionTable
end ArithFrontEnd
