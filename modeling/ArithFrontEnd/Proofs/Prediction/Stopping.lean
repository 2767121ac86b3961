import ArithFrontEnd.Proofs.Prediction.Acyclic

/-!
# Parsing stops

A parser with a table without conflicts comes to its verdict within the step limit, whatever the
grammar, the actions and the tokens are.  So the limit is never the reason for a verdict.  This
needs the table to be without conflicts: where a later rule takes the cell of an earlier one, a
nonterminal may be replaced by itself and more for ever.

## Main results

* `step_ne_stepLimit` — no step rejects the input because of the step limit.
* `run_of_leftRecursive` — a nonterminal that is replaced by itself first is never read.
* `parse_halts` — **a parser with a table without conflicts stops on every input.**
* `lastWins_never_halts` — a table whose conflicts have been overruled may not.
-/

namespace ArithFrontEnd

/-! ### Steps and the limit -/

section Engine

variable {T N A : Type} [DecidableEq T] [DecidableEq A] {p : Predictor T N A} {r : Registry A}

namespace Config

/-- No step rejects the input because of the step limit. -/
theorem step_ne_stepLimit (c : Config T N A) (steps : Nat) :
    c.step p r ≠ .rejected (.internal (.stepLimit steps)) := by
  unfold step
  split
  · split <;> simp
  · next cell below hstack =>
    split
    · unfold atEnd
      split <;> simp
    · unfold matchToken
      repeat' split
      all_goals simp
    · simp only [expand, pop_eq hstack]
      repeat' split
      all_goals simp
    · rw [synthesize, pop_eq hstack]
      repeat' split
      all_goals simp
    · simp only [perform, pop_eq hstack]
      repeat' split
      all_goals simp

/-- No run ends because of the step limit. -/
theorem run_ne_stepLimit {c : Config T N A} {allowed : Nat} (steps : Nat) :
    c.run p r allowed ≠ some (.error (.internal (.stepLimit steps))) := by
  intro h
  obtain ⟨c', -, hverdict⟩ := exists_step_of_run (P := fun _ => True) (fun _ _ _ _ => trivial)
    trivial h
  exact step_ne_stepLimit c' steps (Progress.verdict?_eq_error_iff.1 hverdict)

/-- While a nonterminal is replaced by itself with other symbols after it, there is no verdict. -/
theorem run_of_leftRecursive {n : N} {input : List (InputToken T)} {rest : List (Symbol T N A)}
    {inherited : Option Int}
    (hpredict : p.predict n (nextTerminal? input) = some ⟨.nonterminal n :: rest, inherited⟩)
    (steps : Nat) (below : List (Cell T N A)) (result : Option Value) :
    run p r steps ⟨.new (.nonterminal n) :: below, input, result⟩ = none := by
  induction steps generalizing below with
  | zero => rfl
  | succ steps ih =>
    -- the nonterminal is on top again, with more cells below it
    have hstep : step p r ⟨.new (.nonterminal n) :: below, input, result⟩ =
        .running ⟨expansion (.nonterminal n :: rest) ++ below, input, result⟩ := by
      have hnext : p.predict n (next? ⟨.new (.nonterminal n) :: below, input, result⟩) =
          some ⟨.nonterminal n :: rest, inherited⟩ := hpredict
      show expand p n _ = _
      rw [expand, hnext]
      rfl
    rw [run, hstep]
    exact ih _

end Config
end Engine

/-! ### Tables -/

namespace PredictionTable

variable {g : Grammar} {table : PredictionTable}

/-- A parser with a table without conflicts comes to a verdict on every input, with any actions.
The number of steps is bounded by the size of the table and the number of tokens, and the bound is
never the reason for the verdict. -/
theorem parse_halts (hg : g.IsDefined) (htable : ofGrammar g .reject = .ok table)
    (registry : Registry ActionId) (input : List (InputToken TerminalId)) :
    ∃ v, (Config.initial table.predictor input).run table.predictor registry
        (sufficientSteps table.rows.length table.width input.length) = some v ∧
      parse table.predictor registry input = v ∧
      ∀ steps, v ≠ .error (.internal (.stepLimit steps)) := by
  obtain ⟨v, hv⟩ := exists_verdict hg.wellFormed htable registry input
  refine ⟨v, hv, by rw [parse, hv], fun steps hlimit => ?_⟩
  rw [hlimit] at hv
  exact Config.run_ne_stepLimit steps hv

end PredictionTable

/-- The grammar `S -> A`, `S -> b`, `A -> A a`, in which `A` is left-recursive and derives no
sentence. -/
def Grammar.unproductive : Grammar where
  terminals := ["a", "b"]
  nonterminals := [⟨"S", false⟩, ⟨"A", false⟩]
  rules := [⟨0, [.nonterminal 1]⟩, ⟨0, [.terminal 3]⟩, ⟨1, [.nonterminal 1, .terminal 2]⟩]
  start := 0

namespace PredictionTable

/-- Only `b` is predicted for `S -> A`, `S -> b`, `A -> A a`. -/
def unproductive : PredictionTable :=
  ⟨Grammar.unproductive.toVocabulary, 0, [[(3, ⟨1, [.terminal 3], none⟩)], []]⟩

/-- A left-recursive nonterminal does no harm where conflicts are refused, also on a token that
stands for the end of the input and on one that the grammar does not know. -/
theorem parse_halts_unproductive :
    ofGrammar .unproductive .reject = .ok unproductive ∧
    ∃ v, parse unproductive.predictor .empty
        [⟨3, .nothing, "b"⟩, ⟨.endOfInput, .nothing, "end"⟩, ⟨.unknown, .unknown, "?"⟩] = v ∧
      ∀ steps, v ≠ .error (.internal (.stepLimit steps)) := by
  have hg : Grammar.unproductive.IsDefined :=
    ⟨[.terminal "a", .terminal "b", .nonterminal "S", .nonterminal "A", .rule 0 [.nonterminal 1],
      .rule 0 [.terminal 3], .rule 1 [.nonterminal 1, .terminal 2]], rfl⟩
  have htable : ofGrammar .unproductive .reject = .ok unproductive := by decide +kernel
  obtain ⟨v, -, hparse, hlimit⟩ := parse_halts hg htable .empty
    [⟨3, .nothing, "b"⟩, ⟨.endOfInput, .nothing, "end"⟩, ⟨.unknown, .unknown, "?"⟩]
  exact ⟨htable, v, hparse, hlimit⟩

/-- The rule `S -> S a` takes the cell of `S -> a` where the last rule wins, and then `S` is
replaced by itself for ever when `a` comes next. -/
theorem lastWins_never_halts : ∃ (g : Grammar) (table : PredictionTable), g.IsDefined ∧
    ofGrammar g .lastWins = .ok table ∧ ∀ registry value shown steps,
      (Config.initial table.predictor [⟨2, value, shown⟩]).run table.predictor registry steps =
        none := by
  let g : Grammar :=
    ⟨⟨["a"], [⟨"S", false⟩]⟩, [⟨0, [.terminal 2]⟩, ⟨0, [.nonterminal 0, .terminal 2]⟩], 0⟩
  let table : PredictionTable :=
    ⟨g.toVocabulary, 0, [[(2, ⟨1, [.nonterminal 0, .terminal 2], none⟩)]]⟩
  refine ⟨g, table, ⟨[.terminal "a", .nonterminal "S", .rule 0 [.terminal 2],
    .rule 0 [.nonterminal 0, .terminal 2]], rfl⟩, by decide +kernel, ?_⟩
  intro registry value shown steps
  have hpredict : table.predictor.predict 0 (nextTerminal? [⟨2, value, shown⟩]) =
      some ⟨[.nonterminal 0, .terminal 2], none⟩ := rfl
  exact Config.run_of_leftRecursive hpredict steps _ none

end PredictionTable
end ArithFrontEnd
