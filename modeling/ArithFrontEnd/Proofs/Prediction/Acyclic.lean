import ArithFrontEnd.Proofs.Engine.Halting
import ArithFrontEnd.Proofs.Prediction.Selection

/-!
# Tables without conflicts do not lead in circles

Where conflicts are refused, a nonterminal that leads to others while the same token comes next
either has the token among the terminals that can come first in it, or is empty and has the token
after it. In the first case the way to the token is one nonterminal shorter at each step; in the
second the way to the empty sequence is.  A nonterminal of the first kind may lead to one of the
second kind, but not back.  So no nonterminal leads back to itself, left-recursive or not.

## Main results

* `not_vanishes_of_begins`, `not_follow_of_begins` — a nonterminal that the token begins does not
  vanish, and is not both empty and followed by it.
* `reject_acyclic` — **a table without conflicts leads in no circle.**
* `exists_verdict` — the step limit is enough for it.
-/

namespace ArithFrontEnd
namespace PredictionTable

open Analysis (compute)

variable {g : Grammar} {table : PredictionTable} {next : Option TerminalId}

/-! ### Sizes of a table -/

theorem mem_of_find? {row : Row} {t : TerminalId} {e : Entry} (h : row.find? t = some e) :
    (t, e) ∈ row := by
  induction row with
  | nil => cases h
  | cons cell rest ih =>
    obtain ⟨u, d⟩ := cell
    unfold Row.find? at h
    split at h
    · next heq =>
      rw [heq, Option.some.inj h]
      exact List.mem_cons_self
    · exact List.mem_cons_of_mem _ (ih h)

theorem le_foldl_max {xs : List Nat} {x b : Nat} (h : x ≤ b ∨ x ∈ xs) : x ≤ xs.foldl max b := by
  induction xs generalizing b with
  | nil => exact h.resolve_right List.not_mem_nil
  | cons y ys ih =>
    refine ih ?_
    rcases h with h | h
    · exact Or.inl (Nat.le_trans h (Nat.le_max_left b y))
    · rcases List.mem_cons.1 h with rfl | h
      · exact Or.inl (Nat.le_max_right b x)
      · exact Or.inr h

/-- A filled cell is in one of the rows, and its right-hand side is not wider than the table. -/
theorem find?_bounds {n : NonterminalId} {t : TerminalId} {e : Entry}
    (h : table.find? n t = some e) :
    n < table.rows.length ∧ e.production.length ≤ table.width := by
  have hlt : n < table.rows.length := by
    by_contra hge
    rw [find?, row, List.getD_eq_getElem?_getD,
      List.getElem?_eq_none (Nat.le_of_not_lt hge)] at h
    cases h
  refine ⟨hlt, le_foldl_max (Or.inr ?_)⟩
  have hrow : row table.rows n = table.rows[n] := by
    rw [row, List.getD_eq_getElem?_getD, List.getElem?_eq_getElem hlt, Option.getD_some]
  rw [find?, hrow] at h
  refine List.mem_flatMap.2 ⟨table.rows[n], List.getElem_mem hlt, ?_⟩
  exact List.mem_map.2 ⟨(t, e), mem_of_find? h, rfl⟩

/-! ### Ways to a token and to the empty sequence -/

/-- What the token begins does not vanish while the token comes next. -/
theorem not_vanishes_of_begins (hg : g.WellFormed) (htable : ofGrammar g .reject = .ok table)
    {w : List GrammarSymbol} (h : g.Begins (next.getD .endOfInput) w) :
    ¬ Vanishes table.predictor next w := by
  induction h with
  | terminal w =>
    intro hvanishes
    cases hvanishes
  | action a _ ih =>
    intro hvanishes
    cases hvanishes with
    | action _ rest => exact ih rest
  | rule mem right w ih =>
    intro hvanishes
    cases hvanishes with
    | nonterminal found first _ =>
      rw [production_of_selects hg htable mem (Or.inl right) found] at first
      exact ih first
  | later _ _ ih =>
    intro hvanishes
    cases hvanishes with
    | nonterminal _ _ rest => exact ih rest

/-- What the token begins is not both empty and followed by the token. -/
theorem not_follow_of_begins (hg : g.WellFormed) (htable : ofGrammar g .reject = .ok table)
    {t : TerminalId} {X : TerminalId → Prop} {w : List GrammarSymbol} (h : g.Begins t w)
    (hcovered : Covered g X w) (hnull : g.Nullable w) : ¬ X t := by
  induction h generalizing X with
  | terminal w => cases hnull
  | action a _ ih => exact ih hcovered.tail hnull.tail
  | @rule rule mem right w ih =>
    -- the right-hand side that the token begins would be empty, with the token after it
    intro hX
    have hfollow := hcovered.head (Or.inr ⟨hnull.tail, hX⟩)
    have hempty : g.Nullable rule.right := by
      generalize hleft : rule.left = n at hnull
      cases hnull with
      | @nonterminal rule' _ mem' right' =>
        obtain ⟨r, hr⟩ := List.mem_iff_getElem?.1 mem
        obtain ⟨r', hr'⟩ := List.mem_iff_getElem?.1 mem'
        -- both rules are the right choice, so they are the same
        obtain rfl := selects_unique hg htable hr hr' hleft (Or.inl right)
          (Or.inr ⟨right', hleft ▸ hfollow⟩)
        obtain rfl := Option.some.inj (hr.symm.trans hr')
        exact right'
    exact ih (covered_rule hg mem) hempty hfollow
  | later _ _ ih => exact ih hcovered.tail hnull.tail

/-! ### Nonterminals that lead to others -/

/-- All nonterminals that are led to from this one are led to finitely often. -/
abbrev Founded (table : PredictionTable) (next : Option TerminalId) (n : NonterminalId) : Prop :=
  Acc (fun m n => Leads table.predictor next n m) n

/-- The nonterminals of a sequence that can come next are founded. -/
def AllFounded (table : PredictionTable) (next : Option TerminalId) (w : List GrammarSymbol) :
    Prop :=
  ∀ before n after, w = before ++ .nonterminal n :: after →
    Vanishes table.predictor next before → Founded table next n

theorem AllFounded.action {w : List GrammarSymbol} (h : AllFounded table next w) (a : ActionId) :
    AllFounded table next (.action a :: w) := by
  intro before n after hw hbefore
  cases before with
  | nil => simp at hw
  | cons s before =>
    obtain ⟨rfl, hw'⟩ := List.cons.inj hw
    cases hbefore with
    | action _ rest => exact h before n after hw' rest

theorem AllFounded.nonterminal {n : NonterminalId} {w : List GrammarSymbol}
    (hn : Founded table next n)
    (h : Vanishes table.predictor next [.nonterminal n] → AllFounded table next w) :
    AllFounded table next (.nonterminal n :: w) := by
  intro before m after hw hbefore
  cases before with
  | nil =>
    obtain ⟨hm, -⟩ := List.cons.inj hw
    rw [← Symbol.nonterminal.inj hm]
    exact hn
  | cons s before =>
    obtain ⟨rfl, hw'⟩ := List.cons.inj hw
    cases hbefore with
    | nonterminal found first rest =>
      exact h (.nonterminal found first .nil) before m after hw' rest

/-- A nonterminal is founded if the nonterminals are that come next in the rule that is chosen. -/
theorem founded_of_rule (hg : g.WellFormed) (htable : ofGrammar g .reject = .ok table)
    {rule : Rule} (hrule : rule ∈ g.rules) (ht : g.Selects (next.getD .endOfInput) rule)
    (h : AllFounded table next rule.right) : Founded table next rule.left := by
  refine .intro _ ?_
  rintro m ⟨prediction, before, after, hpredict, hproduction, hbefore⟩
  rw [production_of_selects hg htable hrule ht hpredict] at hproduction
  exact h before m after hproduction hbefore

/-- Where a sequence is empty and the token comes after it, the way to the empty sequence gets
shorter. -/
theorem allFounded_of_nullable (hg : g.WellFormed) (htable : ofGrammar g .reject = .ok table)
    {X : TerminalId → Prop} {w : List GrammarSymbol} (h : g.Nullable w) (hcovered : Covered g X w)
    (hX : X (next.getD .endOfInput)) (hbegins : ¬ g.Begins (next.getD .endOfInput) w) :
    AllFounded table next w := by
  induction h generalizing X with
  | nil =>
    intro before n after hw
    simp at hw
  | action a _ ih => exact (ih hcovered.tail hX fun h => hbegins (.action a h)).action a
  | nonterminal mem right rest ihright ihrest =>
    have hfollow := hcovered.head (Or.inr ⟨rest, hX⟩)
    refine .nonterminal ?_ fun _ => ihrest hcovered.tail hX fun h =>
      hbegins (.later (.nonterminal mem right .nil) h)
    refine founded_of_rule hg htable mem (Or.inr ⟨right, hfollow⟩) ?_
    exact ihright (covered_rule hg mem) hfollow fun h => hbegins (.rule mem h _)

/-- Where the token begins a sequence, the way to the token gets shorter. -/
theorem allFounded_of_begins (hg : g.WellFormed) (htable : ofGrammar g .reject = .ok table)
    {X : TerminalId → Prop} {w : List GrammarSymbol} (h : g.Begins (next.getD .endOfInput) w)
    (hcovered : Covered g X w) : AllFounded table next w := by
  induction h generalizing X with
  | terminal w =>
    intro before n after hw hbefore
    cases before with
    | nil => simp at hw
    | cons s before =>
      obtain ⟨rfl, -⟩ := List.cons.inj hw
      cases hbefore
  | action a _ ih => exact (ih hcovered.tail).action a
  | rule mem right w ih =>
    refine .nonterminal (founded_of_rule hg htable mem (Or.inl right) (ih (covered_rule hg mem)))
      fun hvanishes => absurd hvanishes ?_
    exact not_vanishes_of_begins hg htable (.rule mem right [])
  | @later n w first rest ih =>
    -- the nonterminal is empty and the token comes after it
    refine .nonterminal ?_ fun _ => ih hcovered.tail
    have hfollow := hcovered.head (Or.inl rest)
    have hsingle : Covered g (· ∈ (compute g).followOf n) [.nonterminal n] := .single fun _ h => h
    have hbegins : ¬ g.Begins (next.getD .endOfInput) [.nonterminal n] :=
      fun h => not_follow_of_begins hg htable h hsingle first hfollow
    exact allFounded_of_nullable hg htable first hsingle hfollow hbegins [] n [] rfl .nil

/-- Every nonterminal is founded in a table without conflicts. -/
theorem founded (hg : g.WellFormed) (htable : ofGrammar g .reject = .ok table)
    (next : Option TerminalId) (n : NonterminalId) : Founded table next n := by
  cases hpredict : table.predict n next with
  | none =>
    refine .intro _ ?_
    rintro m ⟨prediction, before, after, hpredict', -⟩
    rw [show table.predict n next = some prediction from hpredict'] at hpredict
    cases hpredict
  | some prediction =>
    obtain ⟨r, rule, hrule, rfl, hselects, -⟩ := predict_eq_some hg htable hpredict
    have mem := List.mem_of_getElem? hrule
    refine founded_of_rule hg htable mem hselects ?_
    by_cases hbegins : g.Begins (next.getD .endOfInput) rule.right
    · exact allFounded_of_begins hg htable hbegins (covered_rule hg mem)
    · obtain ⟨hnull, hfollow⟩ := hselects.resolve_left hbegins
      exact allFounded_of_nullable hg htable hnull (covered_rule hg mem) hfollow hbegins

/-- A table without conflicts leads in no circle. -/
theorem reject_acyclic (hg : g.WellFormed) (htable : ofGrammar g .reject = .ok table) :
    table.predictor.Acyclic (List.range table.rows.length) table.width where
  finite {n t} h := by
    obtain ⟨prediction, hpredict⟩ := Option.ne_none_iff_exists'.1 h
    obtain ⟨e, he, -⟩ := Option.map_eq_some_iff.1 hpredict
    exact List.mem_range.2 (find?_bounds he).1
  width_le {n t prediction} h := by
    obtain ⟨e, he, rfl⟩ := Option.map_eq_some_iff.1 h
    exact (find?_bounds he).2
  acyclic t n hcycle := by
    -- a nonterminal that leads back to itself leads on forever
    have hfounded : WellFounded fun m n => Leads table.predictor t n m :=
      ⟨founded hg htable t⟩
    have hirrefl := hfounded.transGen
    exact hirrefl.irrefl.irrefl n (Relation.transGen_swap.2 hcycle)

/-- The step limit of a table without conflicts is enough for a verdict on every input. -/
theorem exists_verdict (hg : g.WellFormed) (htable : ofGrammar g .reject = .ok table)
    (registry : Registry ActionId) (input : List (InputToken TerminalId)) :
    ∃ v, (Config.initial table.predictor input).run table.predictor registry
      (table.predictor.stepLimit input.length) = some v := by
  have hrun := run_of_acyclic (r := registry) (reject_acyclic hg htable) input
  rwa [List.length_range] at hrun

end PredictionTable
end ArithFrontEnd
