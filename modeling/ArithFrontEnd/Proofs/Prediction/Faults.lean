import ArithFrontEnd.Proofs.Prediction.Cells

/-!
# Which grammars have a table

A rule is at fault if no action of it can receive an inherited value, or if an earlier rule of the
nonterminal wants one of its cells and conflicts are refused.  The rules are added in order, up to
the first that is at fault.  So there is a table exactly if no rule is at fault, and otherwise the
error says what is wrong with the first one that is.

## Main definitions

* `LacksAction`, `Wants`, `Clash` — what a rule lacks, the cells that it wants, and those that it
  has in common with an earlier rule.
* `AtFault`, `Blames`, `BlamesFirst` — the rules at fault, and what an error says of them.
* `Filled` — the first rules are in the rows, and none of them is at fault.
* `SelectDisjoint` — rules of one nonterminal want different cells.
* `HoldsLast` — a cell holds the last rule that wants it.

## Main results

* `blames_of_addRule`, `addRule_filled` — what one more rule does.
* `exists_table_iff` — there is a table exactly if no rule is at fault.
* `ofGrammar_spec` — the cells of the table of a grammar.
* `ofGrammar_exact` — **a table is made exactly where the rules allow it**, what its cells hold, and
  which error there is otherwise.
-/

namespace ArithFrontEnd
namespace PredictionTable

/-! ### Faults -/

/-- The left-hand side inherits, and no action of the rule can receive the value. -/
def LacksAction (g : Grammar) (rule : Rule) : Prop :=
  g.isInherited rule.left = true ∧ rule.actions = []

/-- The rule is one of the nonterminal, and the terminal is in its SELECT set. -/
def Wants (g : Grammar) (a : Analysis) (n : NonterminalId) (t : TerminalId) (r : RuleId) : Prop :=
  ∃ rule, g.rules[r]? = some rule ∧ rule.left = n ∧ t ∈ a.selectOf r

/-- The rule wants a cell that an earlier one wants. -/
structure Clash (g : Grammar) (a : Analysis) (n : NonterminalId) (t : TerminalId)
    (first second : RuleId) : Prop where
  /-- One rule is before the other. -/
  lt : first < second
  /-- The earlier rule wants the cell. -/
  first : Wants g a n t first
  /-- The later rule wants it, too. -/
  second : Wants g a n t second

/-- The rule stands in the way of a table. -/
def AtFault (g : Grammar) (a : Analysis) (policy : ConflictPolicy) (r : RuleId) : Prop :=
  (∃ rule, g.rules[r]? = some rule ∧ LacksAction g rule) ∨
    policy = .reject ∧ ∃ n t first, Clash g a n t first r

/-- The error says what is wrong with a rule.  A missing action comes before conflicts, and of the
conflicts that at the smallest terminal. -/
inductive Blames (g : Grammar) (a : Analysis) (r : RuleId) : TableError → Prop
  /-- There is no action. -/
  | missingAction {rule : Rule} (hrule : g.rules[r]? = some rule) (hlacks : LacksAction g rule) :
      Blames g a r (.missingAction rule.left r)
  /-- One earlier rule wants the same cell, and none wants one at a smaller terminal. -/
  | conflict {rule : Rule} {t : TerminalId} {first : RuleId} (hrule : g.rules[r]? = some rule)
      (hhas : ¬ LacksAction g rule) (hclash : Clash g a rule.left t first r)
      (honly : ∀ first', Clash g a rule.left t first' r → first' = first)
      (hleast : ∀ t' first', Clash g a rule.left t' first' r → t ≤ t') :
      Blames g a r (.conflict rule.left t first r)

/-- The error says what is wrong with the first rule that is at fault. -/
def BlamesFirst (g : Grammar) (a : Analysis) (policy : ConflictPolicy) (e : TableError) : Prop :=
  ∃ r, AtFault g a policy r ∧ (∀ r' < r, ¬ AtFault g a policy r') ∧ Blames g a r e

variable {g : Grammar} {a : Analysis} {policy : ConflictPolicy} {k : Nat} {rows rows' : Rows}

theorem Wants.of_rule {r : RuleId} {rule : Rule} {n : NonterminalId} {t : TerminalId}
    (h : Wants g a n t r) (hrule : g.rules[r]? = some rule) : rule.left = n ∧ t ∈ a.selectOf r := by
  obtain ⟨rule', hrule', hleft, ht⟩ := h
  obtain rfl := Option.some.inj (hrule.symm.trans hrule')
  exact ⟨hleft, ht⟩

theorem Wants.lt_length {r : RuleId} {n : NonterminalId} {t : TerminalId} (h : Wants g a n t r) :
    r < g.rules.length := by
  obtain ⟨rule, hrule, -⟩ := h
  exact (List.getElem?_eq_some_iff.1 hrule).1

/-- A rule at fault is a rule. -/
theorem AtFault.lt_length {r : RuleId} (h : AtFault g a policy r) : r < g.rules.length := by
  rcases h with ⟨rule, hrule, -⟩ | ⟨-, n, t, first, hclash⟩
  · exact (List.getElem?_eq_some_iff.1 hrule).1
  · exact hclash.second.lt_length

/-- Where the last rule wins, only a missing action stands in the way. -/
theorem lacksAction_of_lastWins {r : RuleId} (h : AtFault g a .lastWins r) :
    ∃ rule, g.rules[r]? = some rule ∧ LacksAction g rule := by
  rcases h with hlacks | ⟨hpolicy, -⟩
  · exact hlacks
  · cases hpolicy

/-- There is one thing to be said of a rule. -/
theorem Blames.unique {r : RuleId} {e e' : TableError} (h : Blames g a r e) (h' : Blames g a r e') :
    e = e' := by
  cases h with
  | missingAction hrule hlacks =>
    cases h' with
    | missingAction hrule' =>
      obtain rfl := Option.some.inj (hrule.symm.trans hrule')
      rfl
    | conflict hrule' hhas' =>
      obtain rfl := Option.some.inj (hrule.symm.trans hrule')
      exact absurd hlacks hhas'
  | conflict hrule hhas hclash honly hleast =>
    cases h' with
    | missingAction hrule' hlacks' =>
      obtain rfl := Option.some.inj (hrule.symm.trans hrule')
      exact absurd hlacks' hhas
    | conflict hrule' _ hclash' honly' hleast' =>
      obtain rfl := Option.some.inj (hrule.symm.trans hrule')
      obtain rfl := Nat.le_antisymm (hleast _ _ hclash') (hleast' _ _ hclash)
      rw [honly' _ hclash]

/-- The error is about a single rule. -/
theorem BlamesFirst.unique {e e' : TableError} (h : BlamesFirst g a policy e)
    (h' : BlamesFirst g a policy e') : e = e' := by
  obtain ⟨r, hfault, hbefore, hblames⟩ := h
  obtain ⟨r', hfault', hbefore', hblames'⟩ := h'
  obtain rfl : r = r' := Nat.le_antisymm (Nat.le_of_not_lt fun hlt => hbefore r' hlt hfault')
    (Nat.le_of_not_lt fun hlt => hbefore' r hlt hfault)
  exact hblames.unique hblames'

/-! ### One rule -/

theorem route_eq_error_iff {r : RuleId} {rule : Rule} {e : TableError} :
    route g r rule = .error e ↔ LacksAction g rule ∧ e = .missingAction rule.left r := by
  rw [route, LacksAction, ← inheritedOffset_eq_none_iff]
  cases g.isInherited rule.left with
  | false => simp
  | true => cases inheritedOffset rule.right <;> simp [eq_comm]

/-- The first clash is at the smallest terminal at which there is one. -/
theorem clashes_eq_cons {rule : Rule} {select : TerminalSet} {t : TerminalId} {first : RuleId}
    {others : List (TerminalId × RuleId)} (h : clashes rows rule select = (t, first) :: others) :
    t ∈ select ∧ (∃ e, (row rows rule.left).find? t = some e ∧ e.rule = first) ∧
      ∀ t' ∈ select, ∀ e, (row rows rule.left).find? t' = some e → t ≤ t' := by
  obtain ⟨before, u, after, hids, hbefore, hu, -⟩ := List.filterMap_eq_cons_iff.1 h
  obtain ⟨e, he, heq⟩ := Option.map_eq_some_iff.1 hu
  obtain ⟨rfl, rfl⟩ := Prod.mk.inj heq
  have hascending : (before ++ u :: after).Pairwise (· < ·) := hids ▸ select.ascending
  have hafter := (List.pairwise_cons.1 (List.pairwise_append.1 hascending).2.1).1
  refine ⟨?_, ⟨e, he, rfl⟩, fun t' ht' e' he' => ?_⟩
  · rw [TerminalSet.mem_def, hids]
    exact List.mem_append_right _ List.mem_cons_self
  · rw [TerminalSet.mem_def, hids] at ht'
    rcases List.mem_append.1 ht' with hmem | hmem
    · -- before the first clash no cell is taken
      have hnone := hbefore t' hmem
      rw [he'] at hnone
      cases hnone
    · rcases List.mem_cons.1 hmem with rfl | hmem
      · exact Nat.le_refl _
      · exact Nat.le_of_lt (hafter t' hmem)

/-- A rule that is refused lacks an action, or the cell at a terminal is taken and none at a smaller
one. -/
theorem addRule_eq_error {select : TerminalSet} {r : RuleId} {rule : Rule} {e : TableError}
    (h : addRule g policy select rows r rule = .error e) :
    LacksAction g rule ∧ e = .missingAction rule.left r ∨
      ¬ LacksAction g rule ∧ policy = .reject ∧ ∃ t ∈ select, ∃ taken,
        (row rows rule.left).find? t = some taken ∧ e = .conflict rule.left t taken.rule r ∧
          ∀ t' ∈ select, ∀ e', (row rows rule.left).find? t' = some e' → t ≤ t' := by
  unfold addRule at h
  split at h
  · next e' hroute =>
    obtain rfl := Except.error.inj h
    exact Or.inl (route_eq_error_iff.1 hroute)
  · next inherited hroute =>
    split at h
    · next t first others hclashes =>
      obtain rfl := Except.error.inj h
      obtain ⟨ht, ⟨taken, htaken, rfl⟩, hleast⟩ := clashes_eq_cons hclashes
      refine Or.inr ⟨fun hlacks => ?_, rfl, t, ht, taken, htaken, rfl, hleast⟩
      cases hroute.symm.trans (route_eq_error_iff.2 ⟨hlacks, rfl⟩)
    · cases h

/-- The first rules are in the rows, and none of them is at fault. -/
structure Filled (g : Grammar) (a : Analysis) (policy : ConflictPolicy) (k : Nat) (rows : Rows) :
    Prop where
  /-- The cells are those of the rules. -/
  spec : RowsSpec g a k rows
  /-- None of the rules is at fault. -/
  faultless {r : RuleId} (h : r < k) : ¬ AtFault g a policy r

/-- The cells that are taken are those that the rules before want. -/
theorem RowsSpec.taken_iff (h : RowsSpec g a k rows) {n : NonterminalId} {t : TerminalId} :
    (∃ e, (row rows n).find? t = some e) ↔ ∃ r < k, Wants g a n t r := by
  constructor
  · rintro ⟨e, he⟩
    obtain ⟨rule, hrule, hlt, hleft, ht, -⟩ := h.rule_of_find? he
    exact ⟨e.rule, hlt, rule, hrule, hleft, ht⟩
  · rintro ⟨r, hlt, rule, hrule, rfl, ht⟩
    exact h.find?_of_rule hlt hrule ht

/-- A rule that is refused is at fault, and the error says why. -/
theorem blames_of_addRule (h : Filled g a policy k rows) {rule : Rule} {e : TableError}
    (hrule : g.rules[k]? = some rule)
    (hadd : addRule g policy (a.selectOf k) rows k rule = .error e) :
    AtFault g a policy k ∧ Blames g a k e := by
  rcases addRule_eq_error hadd with ⟨hlacks, rfl⟩ | ⟨hhas, rfl, t, ht, taken, htaken, rfl, hleast⟩
  · exact ⟨Or.inl ⟨rule, hrule, hlacks⟩, .missingAction hrule hlacks⟩
  · obtain ⟨rule', hrule', hlt, hleft, ht', -⟩ := h.spec.rule_of_find? htaken
    have hwants : Wants g a rule.left t taken.rule := ⟨rule', hrule', hleft, ht'⟩
    have hclash : Clash g a rule.left t taken.rule k := ⟨hlt, hwants, rule, hrule, rfl, ht⟩
    refine ⟨Or.inr ⟨rfl, _, _, _, hclash⟩, .conflict hrule hhas hclash ?_ ?_⟩
    · -- of two earlier rules with the same cell one would be at fault
      rintro first' ⟨hlt', hwants', -⟩
      rcases Nat.lt_trichotomy first' taken.rule with hless | heq | hgreater
      · exact absurd (Or.inr ⟨rfl, _, _, _, hless, hwants', hwants⟩) (h.faultless hlt)
      · exact heq
      · exact absurd (Or.inr ⟨rfl, _, _, _, hgreater, hwants, hwants'⟩) (h.faultless hlt')
    · rintro t' first' ⟨hlt', hfirst', hsecond'⟩
      obtain ⟨e', he'⟩ := h.spec.taken_iff.2 ⟨first', hlt', hfirst'⟩
      exact hleast t' (hsecond'.of_rule hrule).2 e' he'

/-- A rule that is accepted is not at fault. -/
theorem addRule_filled (hg : g.WellFormed) (h : Filled g a policy k rows) {rule : Rule}
    (hrule : g.rules[k]? = some rule)
    (hadd : addRule g policy (a.selectOf k) rows k rule = .ok rows') :
    Filled g a policy (k + 1) rows' := by
  refine ⟨addRule_spec hg h.spec hrule hadd, fun {r} hr => ?_⟩
  rcases Nat.lt_or_eq_of_le (Nat.le_of_lt_succ hr) with hlt | rfl
  · exact h.faultless hlt
  obtain ⟨inherited, hroute, hfree, -⟩ := addRule_eq_ok hadd
  rintro (⟨rule', hrule', hlacks⟩ | ⟨rfl, n, t, first, hlt, hfirst, hsecond⟩)
  · obtain rfl := Option.some.inj (hrule.symm.trans hrule')
    cases hroute.symm.trans (route_eq_error_iff.2 ⟨hlacks, rfl⟩)
  · obtain ⟨rfl, ht⟩ := hsecond.of_rule hrule
    obtain ⟨e, he⟩ := h.spec.taken_iff.2 ⟨first, hlt, hfirst⟩
    cases (hfree rfl t ht).symm.trans he

/-! ### All rules -/

/-- The rules that are left are added up to the first that is at fault. -/
theorem addRules_filled (hg : g.WellFormed) {before rules : List Rule}
    (hrules : g.rules = before ++ rules) (h : Filled g a policy before.length rows) :
    (∀ rows', addRules g a policy before.length rules rows = .ok rows' →
        Filled g a policy g.rules.length rows') ∧
      ∀ e, addRules g a policy before.length rules rows = .error e → BlamesFirst g a policy e := by
  induction rules generalizing before rows with
  | nil =>
    rw [List.append_nil] at hrules
    refine ⟨fun rows' hadd => ?_, nofun⟩
    obtain rfl := Except.ok.inj hadd
    exact hrules ▸ h
  | cons rule rules ih =>
    have hrule : g.rules[before.length]? = some rule := by simp [hrules]
    rw [addRules]
    cases hstep : addRule g policy (a.selectOf before.length) rows before.length rule with
    | error e =>
      refine ⟨nofun, fun e' hadd => ?_⟩
      obtain rfl := Except.error.inj hadd
      obtain ⟨hfault, hblames⟩ := blames_of_addRule h hrule hstep
      exact ⟨before.length, hfault, fun r' hlt => h.faultless hlt, hblames⟩
    | ok rows₁ =>
      have hlength : (before ++ [rule]).length = before.length + 1 := List.length_append
      have hrules' : g.rules = (before ++ [rule]) ++ rules := by rw [hrules, List.append_cons]
      have hfilled : Filled g a policy (before ++ [rule]).length rows₁ :=
        hlength ▸ addRule_filled hg h hrule hstep
      exact hlength ▸ ih hrules' hfilled

/-- The table of a grammar without faults, or the error about the first rule that is at fault. -/
theorem ofGrammar_filled (hg : g.WellFormed) (policy : ConflictPolicy) :
    (∀ table, ofGrammar g policy = .ok table →
        Filled g (.compute g) policy g.rules.length table.rows) ∧
      ∀ e, ofGrammar g policy = .error e → BlamesFirst g (.compute g) policy e := by
  have hempty : Filled g (.compute g) policy 0 (emptyRows g) :=
    ⟨emptyRows_spec g _, fun h => absurd h (Nat.not_lt_zero _)⟩
  have hrules : g.rules = [] ++ g.rules := rfl
  have hall := addRules_filled hg hrules hempty
  unfold ofGrammar ofAnalysis
  cases hrows : addRules g (.compute g) policy 0 g.rules (emptyRows g) with
  | ok rows =>
    refine ⟨fun table htable => ?_, nofun⟩
    obtain rfl := Except.ok.inj htable
    exact hall.1 rows hrows
  | error e =>
    refine ⟨nofun, fun e' he => ?_⟩
    obtain rfl := Except.error.inj he
    exact hall.2 e hrows

/-- There is a table exactly if no rule is at fault. -/
theorem exists_table_iff (hg : g.WellFormed) :
    (∃ table, ofGrammar g policy = .ok table) ↔ ∀ r, ¬ AtFault g (.compute g) policy r := by
  obtain ⟨hok, herror⟩ := ofGrammar_filled hg policy
  constructor
  · rintro ⟨table, htable⟩ r hfault
    exact (hok table htable).faultless hfault.lt_length hfault
  · intro hfaultless
    cases hgrammar : ofGrammar g policy with
    | ok table => exact ⟨table, rfl⟩
    | error e =>
      obtain ⟨r, hfault, -⟩ := herror e hgrammar
      exact absurd hfault (hfaultless r)

/-- The error is the one about the first rule that is at fault. -/
theorem ofGrammar_eq_error_iff (hg : g.WellFormed) {e : TableError} :
    ofGrammar g policy = .error e ↔ BlamesFirst g (.compute g) policy e := by
  have herror := (ofGrammar_filled hg policy).2
  refine ⟨herror e, fun hblames => ?_⟩
  cases hgrammar : ofGrammar g policy with
  | ok table =>
    obtain ⟨r, hfault, -⟩ := hblames
    exact absurd hfault ((exists_table_iff hg).1 ⟨table, hgrammar⟩ r)
  | error e' => rw [hblames.unique (herror e' hgrammar)]

/-- No rule is at fault if every rule that has to receives a value, and no cell is wanted twice
where conflicts are refused. -/
theorem faultless_reject_iff :
    (∀ r, ¬ AtFault g a .reject r) ↔
      (∀ rule ∈ g.rules, g.isInherited rule.left = true → rule.actions ≠ []) ∧
        ∀ n t r r', Wants g a n t r → Wants g a n t r' → r = r' := by
  constructor
  · refine fun hfaultless => ⟨fun rule hrule hinherits hactions => ?_, fun n t r r' h h' => ?_⟩
    · obtain ⟨r, hr⟩ := List.mem_iff_getElem?.1 hrule
      exact hfaultless r (Or.inl ⟨rule, hr, hinherits, hactions⟩)
    · rcases Nat.lt_trichotomy r r' with hlt | heq | hgt
      · exact absurd (Or.inr ⟨rfl, n, t, r, hlt, h, h'⟩) (hfaultless r')
      · exact heq
      · exact absurd (Or.inr ⟨rfl, n, t, r', hgt, h', h⟩) (hfaultless r)
  · rintro ⟨hactions, hdisjoint⟩ r (⟨rule, hrule, hinherits, hlacks⟩ | ⟨-, n, t, first, hclash⟩)
    · exact hactions rule (List.mem_of_getElem? hrule) hinherits hlacks
    · exact absurd hclash.lt (hdisjoint n t _ _ hclash.first hclash.second ▸ Nat.lt_irrefl _)

/-! ### The cells of a table -/

/-- Rules of one nonterminal want different cells. -/
def SelectDisjoint (g : Grammar) (a : Analysis) (k : Nat) : Prop :=
  ∀ r r' rule rule' t, r < k → r' < k → g.rules[r]? = some rule → g.rules[r']? = some rule' →
    rule.left = rule'.left → t ∈ a.selectOf r → t ∈ a.selectOf r' → r = r'

/-- A table starts where its grammar does. -/
theorem start_of_ofGrammar {table : PredictionTable} (h : ofGrammar g policy = .ok table) :
    table.start = g.start := by
  unfold ofGrammar ofAnalysis at h
  cases hrows : addRules g (.compute g) policy 0 g.rules (emptyRows g) with
  | error e => rw [hrows] at h; cases h
  | ok rows =>
    rw [hrows] at h
    obtain rfl := Except.ok.inj h
    rfl

/-- A table has the cells of the rules of the grammar, whose sets are disjoint where conflicts are
refused. -/
theorem ofGrammar_spec (hg : g.WellFormed) {table : PredictionTable}
    (h : ofGrammar g policy = .ok table) :
    RowsSpec g (.compute g) g.rules.length table.rows ∧ table.start = g.start ∧
      (policy = .reject → SelectDisjoint g (.compute g) g.rules.length) := by
  refine ⟨((ofGrammar_filled hg policy).1 table h).spec, start_of_ofGrammar h, ?_⟩
  rintro rfl r r' rule rule' t - - hrule hrule' hleft ht ht'
  have hfaultless := (exists_table_iff hg).1 ⟨table, h⟩
  exact (faultless_reject_iff.1 hfaultless).2 rule'.left t r r' ⟨rule, hrule, hleft, ht⟩
    ⟨rule', hrule', rfl, ht'⟩

/-- The cell holds the last rule that wants it, with its right-hand side. -/
structure HoldsLast (g : Grammar) (a : Analysis) (n : NonterminalId) (t : TerminalId) (e : Entry) :
    Prop where
  /-- The rule wants the cell. -/
  wants : Wants g a n t e.rule
  /-- No later rule wants it. -/
  last {r : RuleId} (h : Wants g a n t r) : r ≤ e.rule
  /-- The right-hand side is that of the rule. -/
  production : g.rules[e.rule]?.map (·.right) = some e.production

/-- What a cell holds after all rules. -/
theorem RowsSpec.holdsLast (h : RowsSpec g a g.rules.length rows) {n : NonterminalId}
    {t : TerminalId} {e : Entry} (he : (row rows n).find? t = some e) : HoldsLast g a n t e := by
  obtain ⟨rule, hrule, -, hleft, ht, hproduction, -⟩ := h.rule_of_find? he
  refine ⟨⟨rule, hrule, hleft, ht⟩, fun {r} hwants => ?_, by rw [hrule, hproduction]; rfl⟩
  obtain ⟨rule', hrule', hleft', ht'⟩ := hwants
  exact h.le_of_find? he (List.getElem?_eq_some_iff.1 hrule').1 hrule' hleft' ht'

/-- Where conflicts are refused there is a table exactly if every rule of a nonterminal that
inherits has an action and no two rules of a nonterminal want the same cell.  Under either policy
the cells that are wanted are filled, each with the last rule that wants it, which is the only one
where conflicts are refused.  Without a table the error says what is wrong with the first rule that
is at fault, and where the last rule wins this is a missing action. -/
theorem ofGrammar_exact (hg : g.IsDefined) :
    ((∃ table, ofGrammar g .reject = .ok table) ↔
      (∀ rule ∈ g.rules, g.isInherited rule.left = true → rule.actions ≠ []) ∧
        ∀ n t r r', Wants g (.compute g) n t r → Wants g (.compute g) n t r' → r = r') ∧
    ∀ policy,
      (∀ table, ofGrammar g policy = .ok table → ∀ n t,
        ((∃ e, table.find? n t = some e) ↔ ∃ r, Wants g (.compute g) n t r) ∧
        ∀ e, table.find? n t = some e → HoldsLast g (.compute g) n t e ∧
          (policy = .reject → ∀ r, Wants g (.compute g) n t r → r = e.rule)) ∧
      (∀ e, ofGrammar g policy = .error e ↔ BlamesFirst g (.compute g) policy e) ∧
      ∀ e, policy = .lastWins → ofGrammar g policy = .error e → ∃ n r, e = .missingAction n r := by
  have hwell := hg.wellFormed
  refine ⟨(exists_table_iff hwell).trans faultless_reject_iff, fun policy =>
    ⟨fun table htable n t => ?_, fun e => ofGrammar_eq_error_iff hwell, ?_⟩⟩
  · have hfilled := (ofGrammar_filled hwell policy).1 table htable
    refine ⟨hfilled.spec.taken_iff.trans ?_, fun e he => ?_⟩
    · exact exists_congr fun r => and_iff_right_of_imp Wants.lt_length
    · have hholds : HoldsLast g (.compute g) n t e := hfilled.spec.holdsLast he
      refine ⟨hholds, ?_⟩
      rintro rfl r hwants
      have hfaultless := (exists_table_iff hwell).1 ⟨table, htable⟩
      exact (faultless_reject_iff.1 hfaultless).2 n t r e.rule hwants hholds.wants
  · rintro e rfl he
    obtain ⟨r, hfault, -, hblames⟩ := (ofGrammar_eq_error_iff hwell).1 he
    obtain ⟨rule, hrule, hlacks⟩ := lacksAction_of_lastWins hfault
    exact ⟨_, _, hblames.unique (.missingAction hrule hlacks)⟩

end PredictionTable

/-- The grammar `S -> a b`, `S -> a c`, in which both rules are predicted for `a`. -/
def Grammar.commonBeginning : Grammar where
  terminals := ["a", "b", "c"]
  nonterminals := [⟨"S", false⟩]
  rules := [⟨0, [.terminal 2, .terminal 3]⟩, ⟨0, [.terminal 2, .terminal 4]⟩]
  start := 0

namespace PredictionTable

/-- The last rule is predicted for `S -> a b`, `S -> a c`. -/
def commonBeginning : PredictionTable :=
  ⟨Grammar.commonBeginning.toVocabulary, 0, [[(2, ⟨1, [.terminal 2, .terminal 4], none⟩)]]⟩

/-- The second rule for `a` is refused, or it takes the cell of the first. -/
theorem ofGrammar_exact_commonBeginning : Grammar.commonBeginning.IsDefined ∧
    BlamesFirst .commonBeginning (.compute .commonBeginning) .reject (.conflict 0 2 0 1) ∧
      ofGrammar .commonBeginning .lastWins = .ok commonBeginning ∧
      ∃ e, commonBeginning.find? 0 2 = some e ∧ e.rule = 1 ∧
        HoldsLast .commonBeginning (.compute .commonBeginning) 0 2 e := by
  have hg : Grammar.commonBeginning.IsDefined :=
    ⟨[.terminal "a", .terminal "b", .terminal "c", .nonterminal "S",
      .rule 0 [.terminal 2, .terminal 3], .rule 0 [.terminal 2, .terminal 4]], rfl⟩
  have hrejected : ofGrammar .commonBeginning .reject = .error (.conflict 0 2 0 1) := by
    decide +kernel
  have htable : ofGrammar .commonBeginning .lastWins = .ok commonBeginning := by decide +kernel
  refine ⟨hg, (((ofGrammar_exact hg).2 .reject).2.1 _).1 hrejected, htable, _, rfl, rfl, ?_⟩
  exact ((((ofGrammar_exact hg).2 .lastWins).1 _ htable 0 2).2 _ rfl).1

end PredictionTable
end ArithFrontEnd
