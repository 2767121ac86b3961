import ArithFrontEnd.Prediction.Predictor
import ArithFrontEnd.Proofs.Analysis.FixedPoint
import ArithFrontEnd.Proofs.Grammar.WellFormed

/-!
# The cells of a table

The rules fill the cells of a table one after the other.  After some of them a cell is filled
exactly if one of these rules wants it, and holds the last that does.

## Main definitions

* `RowsSpec` — what the rows hold after some of the rules.

## Main results

* `addRule_eq_ok` — what a rule does that is accepted.
* `emptyRows_spec`, `addRule_spec` — **the cells before the first rule, and after one more.**
-/

namespace ArithFrontEnd
namespace PredictionTable

/-- What the rows hold after as many rules as `k`. -/
structure RowsSpec (g : Grammar) (a : Analysis) (k : Nat) (rows : Rows) : Prop where
  /-- There are as many rows as nonterminals. -/
  length_eq : rows.length = g.nonterminals.length
  /-- A filled cell holds a rule that wants it. -/
  rule_of_find? {n : NonterminalId} {t : TerminalId} {e : Entry}
    (h : (row rows n).find? t = some e) :
    ∃ rule, g.rules[e.rule]? = some rule ∧ e.rule < k ∧ rule.left = n ∧ t ∈ a.selectOf e.rule ∧
      e.production = rule.right ∧ route g e.rule rule = .ok e.inherited
  /-- No later rule wants the cell. -/
  le_of_find? {n : NonterminalId} {t : TerminalId} {e : Entry}
    (h : (row rows n).find? t = some e) {r : RuleId} {rule : Rule} (hr : r < k)
    (hrule : g.rules[r]? = some rule) (hleft : rule.left = n) (ht : t ∈ a.selectOf r) : r ≤ e.rule
  /-- A cell that a rule wants is filled. -/
  find?_of_rule {r : RuleId} {rule : Rule} {t : TerminalId} (hr : r < k)
    (hrule : g.rules[r]? = some rule) (ht : t ∈ a.selectOf r) :
    ∃ e, (row rows rule.left).find? t = some e

variable {g : Grammar} {a : Analysis} {policy : ConflictPolicy} {k : Nat} {rows rows' : Rows}

/-- A right-hand side has no place for an inherited value if it has no action. -/
theorem inheritedOffset_eq_none_iff {rule : Rule} :
    inheritedOffset rule.right = none ↔ rule.actions = [] := by
  rw [Rule.actions]
  induction rule.right with
  | nil => exact iff_of_true rfl rfl
  | cons s right ih =>
    cases s with
    | terminal t => exact ih
    | nonterminal n => exact ih
    | action a => exact iff_of_false (Option.some_ne_none _) (List.cons_ne_nil _ _)

theorem row_modify (n m : NonterminalId) (f : Row → Row) :
    row (rows.modify m f) n = if n = m ∧ n < rows.length then f (row rows n) else row rows n :=
  Analysis.getD_modify

/-! ### One rule -/

/-- A rule that is accepted has a place for an inherited value, wants no cell that is taken where
conflicts are refused, and fills the cells that it wants. -/
theorem addRule_eq_ok {select : TerminalSet} {r : RuleId} {rule : Rule}
    (h : addRule g policy select rows r rule = .ok rows') :
    ∃ inherited, route g r rule = .ok inherited ∧
      (policy = .reject → ∀ t ∈ select, (row rows rule.left).find? t = none) ∧
      rows' = rows.modify rule.left (Row.fillAll · select.ids ⟨r, rule.right, inherited⟩) := by
  unfold addRule at h
  cases hroute : route g r rule with
  | error e => rw [hroute] at h; cases h
  | ok inherited =>
    rw [hroute] at h
    dsimp only at h
    split at h
    · cases h
    · next hfree =>
      refine ⟨inherited, rfl, ?_, (Except.ok.inj h).symm⟩
      rintro rfl t ht
      cases hfind : (row rows rule.left).find? t with
      | none => rfl
      | some e =>
        have hmem : (t, e.rule) ∈ clashes rows rule select :=
          List.mem_filterMap.2 ⟨t, ht, by rw [hfind]; rfl⟩
        cases hclashes : clashes rows rule select with
        | nil => rw [hclashes] at hmem; cases hmem
        | cons clash clashes => exact absurd hclashes (hfree clash.1 clash.2 clashes rfl)

/-- The cells after one more rule. -/
theorem addRule_spec (hg : g.WellFormed) (h : RowsSpec g a k rows) {rule : Rule}
    (hrule : g.rules[k]? = some rule)
    (hadd : addRule g policy (a.selectOf k) rows k rule = .ok rows') :
    RowsSpec g a (k + 1) rows' := by
  obtain ⟨inherited, hroute, -, rfl⟩ := addRule_eq_ok hadd
  have hleft : rule.left < rows.length := by
    rw [h.length_eq]
    exact Vocabulary.hasNonterminal_iff.1 (hg.left (List.mem_of_getElem? hrule))
  have hfind : ∀ n t, (row (rows.modify rule.left
      (Row.fillAll · (a.selectOf k).ids ⟨k, rule.right, inherited⟩)) n).find? t =
        if n = rule.left ∧ t ∈ a.selectOf k then some ⟨k, rule.right, inherited⟩
        else (row rows n).find? t := by
    intro n t
    rw [row_modify]
    by_cases heq : n = rule.left
    · simp only [heq, hleft, and_self, if_true, true_and, Row.find?_fillAll, TerminalSet.mem_def]
    · simp [heq]
  refine ⟨by rw [List.length_modify, h.length_eq], fun {n t e} he => ?_, fun {n t e} he {r rule'} hr
    hrule' hleft' ht => ?_, fun {r rule' t} hr hrule' ht => ?_⟩
  -- a cell that the rule wants is the rule's, and any other one is as it was
  · rw [hfind] at he
    split at he
    · next hwants =>
      obtain rfl := Option.some.inj he
      exact ⟨rule, hrule, Nat.lt_succ_self k, hwants.1.symm, hwants.2, rfl, hroute⟩
    · obtain ⟨rule', hrule', hlt, hrest⟩ := h.rule_of_find? he
      exact ⟨rule', hrule', Nat.lt_succ_of_lt hlt, hrest⟩
  · rw [hfind] at he
    split at he
    · obtain rfl := Option.some.inj he
      exact Nat.le_of_lt_succ hr
    · next hnot =>
      rcases Nat.lt_or_eq_of_le (Nat.le_of_lt_succ hr) with hlt | rfl
      · exact h.le_of_find? he hlt hrule' hleft' ht
      · obtain rfl := Option.some.inj (hrule.symm.trans hrule')
        exact absurd ⟨hleft'.symm, ht⟩ hnot
  · rw [hfind]
    split
    · exact ⟨_, rfl⟩
    · next hnot =>
      rcases Nat.lt_or_eq_of_le (Nat.le_of_lt_succ hr) with hlt | rfl
      · exact h.find?_of_rule hlt hrule' ht
      · obtain rfl := Option.some.inj (hrule.symm.trans hrule')
        exact absurd ⟨rfl, ht⟩ hnot

/-- Before the first rule no cell is filled. -/
theorem emptyRows_spec (g : Grammar) (a : Analysis) : RowsSpec g a 0 (emptyRows g) where
  length_eq := List.length_replicate
  rule_of_find? {n t e} h := by
    have hrow : row (emptyRows g) n = [] := by
      rw [row, emptyRows, List.getD_eq_getElem?_getD, List.getElem?_replicate]
      split <;> rfl
    rw [hrow] at h
    cases h
  le_of_find? _ _ _ hr := absurd hr (Nat.not_lt_zero _)
  find?_of_rule hr := absurd hr (Nat.not_lt_zero _)

end PredictionTable
end ArithFrontEnd
