import ArithFrontEnd.Proofs.Engine.Carrying
import ArithFrontEnd.Proofs.Prediction.Language

/-!
# Sentences are accepted

The tokens of a sentence are not rejected, but a value may be missing or wrong.  Where there are no
actions this cannot happen: the value of a token is dropped by the cell that it goes to, so that
only the cell on top can have a value, and has one at most.

## Main definitions

* `Quiet` — a configuration without actions, with one value on top at most.

## Main results

* `step_of_quiet` — a quiet configuration with a move goes on and stays quiet.
* `parse_exact` — **the parser of a table accepts the sentences of the grammar and nothing else.**
-/

namespace ArithFrontEnd
namespace PredictionTable

variable {g : Grammar} {policy : ConflictPolicy} {table : PredictionTable}

/-! ### Values do not matter without actions -/

/-- Without actions, only the cell on top can have a value, and one at most; and no token that is
left has a value that is unknown. -/
structure Quiet (c : Config TerminalId NonterminalId ActionId) : Prop where
  /-- No action is to be run. -/
  no_action {cell : Cell TerminalId NonterminalId ActionId} (h : cell ∈ c.stack) :
    cell.kind.isAction = false
  /-- The cell on top has a value at most. -/
  top {cell : Cell TerminalId NonterminalId ActionId}
    {below : List (Cell TerminalId NonterminalId ActionId)} (h : c.stack = cell :: below) :
    cell.values.length ≤ 1
  /-- The cells below have no values. -/
  below {cell : Cell TerminalId NonterminalId ActionId}
    {below : List (Cell TerminalId NonterminalId ActionId)} (h : c.stack = cell :: below)
    {other : Cell TerminalId NonterminalId ActionId} (hother : other ∈ below) : other.values = []
  /-- The values of the tokens that are left are known. -/
  known {token : InputToken TerminalId} (h : token ∈ c.input) : token.value ≠ .unknown

/-- Only the cell on top of a quiet stack has a value. -/
theorem Quiet.eq_carrying {c : Config TerminalId NonterminalId ActionId} (h : Quiet c) :
    ∃ w, c.stack = carrying w (kindsOf c.stack) := by
  obtain ⟨stack, input, result⟩ := c
  cases stack with
  | nil => exact ⟨none, rfl⟩
  | cons cell below =>
    obtain ⟨kind, values⟩ := cell
    have htop : values.length ≤ 1 := h.top rfl
    refine ⟨values.head?, ?_⟩
    rw [kindsOf_cons, carrying, map_new_kindsOf fun other hother => h.below rfl hother]
    rcases values with - | ⟨v, - | ⟨w, values⟩⟩
    · rfl
    · rfl
    · simp at htop

/-- A stack of which only the cell on top has a value is quiet. -/
theorem quiet_carrying {w : Option Value} {kinds : Kinds} {input : List (InputToken TerminalId)}
    {result : Option Value} (hkinds : ∀ kind ∈ kinds, kind.isAction = false)
    (hknown : ∀ token ∈ input, token.value ≠ .unknown) :
    Quiet ⟨carrying w kinds, input, result⟩ where
  no_action {cell} hcell := by
    have hkind : cell.kind ∈ kindsOf (carrying w kinds) := List.mem_map_of_mem hcell
    rw [kindsOf_carrying] at hkind
    exact hkinds _ hkind
  top {cell below} hstack := by
    cases kinds with
    | nil => cases hstack
    | cons kind kinds =>
      obtain ⟨rfl, -⟩ := List.cons.inj hstack
      cases w <;> simp
  below {cell below} hstack {other} hother := by
    cases kinds with
    | nil => cases hstack
    | cons kind kinds =>
      obtain ⟨-, rfl⟩ := List.cons.inj hstack
      obtain ⟨kind, -, rfl⟩ := List.mem_map.1 hother
      rfl
  known {token} htoken := hknown token htoken

/-- What a table without actions predicts has no actions and delivers nothing. -/
theorem predict_of_actions_nil (hg : g.WellFormed) (htable : ofGrammar g policy = .ok table)
    (hactions : ∀ rule ∈ g.rules, rule.actions = []) {n : NonterminalId} {next : Option TerminalId}
    {prediction : Prediction TerminalId NonterminalId ActionId}
    (h : table.predict n next = some prediction) :
    prediction.inherited = none ∧ ∀ s ∈ prediction.production, s.isAction = false := by
  obtain ⟨r, rule, hrule, -, -, hproduction, inherited, hroute, hinherited⟩ :=
    predict_eq_some hg htable h
  have hright : ∀ s ∈ rule.right, s.isAction = false := by
    intro s hs
    have hnone := List.filterMap_eq_nil_iff.1 (hactions rule (List.mem_of_getElem? hrule)) s hs
    cases s with
    | terminal t => rfl
    | nonterminal n => rfl
    | action a => cases hnone
  refine ⟨?_, hproduction ▸ hright⟩
  rw [hinherited]
  rw [route, inheritedOffset_eq_none_iff.2 (hactions rule (List.mem_of_getElem? hrule))] at hroute
  split at hroute
  · cases hroute
  · rw [← Except.ok.inj hroute]
    rfl

/-- A quiet configuration with a move goes on and stays quiet, if the end of the input is expected
last. -/
theorem step_of_quiet (hg : g.WellFormed) (htable : ofGrammar g policy = .ok table)
    (hactions : ∀ rule ∈ g.rules, rule.actions = []) (registry : Registry ActionId)
    {c : Config TerminalId NonterminalId ActionId} (h : Quiet c)
    (hends : ∀ t, kindsOf c.stack ≠ [.terminal t]) {kinds : Kinds}
    {rest : List (InputToken TerminalId)}
    (hmove : Move table.predictor (kindsOf c.stack) c.input kinds rest) :
    ∃ c', c.step table.predictor registry = .running c' ∧ Quiet c' := by
  obtain ⟨stack, input, result⟩ := c
  obtain ⟨w, hstack⟩ : ∃ w, stack = carrying w (kindsOf stack) := h.eq_carrying
  have hkinds : ∀ kind ∈ kindsOf stack, kind.isAction = false := by
    intro kind hkind
    obtain ⟨cell, hcell, rfl⟩ := List.mem_map.1 hkind
    exact h.no_action hcell
  have hknown : ∀ token ∈ input, token.value ≠ .unknown := fun token htoken => h.known htoken
  change Move table.predictor (kindsOf stack) input kinds rest at hmove
  change ∀ t, kindsOf stack ≠ [.terminal t] at hends
  generalize kindsOf stack = top at *
  subst hstack
  have hbelow : ∀ kind ∈ top.tail, kind.isAction = false :=
    fun kind hkind => hkinds kind (List.mem_of_mem_tail hkind)
  cases hmove with
  | finish => exact ⟨_, Config.step_carrying_endMarker, quiet_carrying hbelow hknown⟩
  | performed a => cases hkinds _ List.mem_cons_self
  | left n => exact ⟨_, Config.step_carrying_synthesized hbelow, quiet_carrying hbelow hknown⟩
  | @matched t token _ _ hterminal =>
    subst hterminal
    have hne : kinds ≠ [] := fun hnil => hends token.terminal (by rw [hnil])
    exact ⟨_, Config.step_carrying_terminal (hknown token List.mem_cons_self) hne,
      quiet_carrying hbelow fun other hother => hknown other (List.mem_cons_of_mem _ hother)⟩
  | expanded _ hpredict =>
    obtain ⟨hinherited, hproduction⟩ := predict_of_actions_nil hg htable hactions hpredict
    exact ⟨_, Config.step_carrying_nonterminal hpredict hinherited,
      quiet_carrying (isAction_of_mem_append hproduction hbelow) hknown⟩

/-- Without actions and unknown values, the verdict on a sentence is no error. -/
theorem accepts_of_quiet (hg : g.WellFormed) (htable : ofGrammar g .reject = .ok table)
    (hactions : ∀ rule ∈ g.rules, rule.actions = []) {registry : Registry ActionId}
    {input : List (InputToken TerminalId)} (hsentence : g.IsSentence (terminalsOf input))
    (hknown : ∀ token ∈ input, token.value ≠ .unknown) {steps : Nat} {v : Verdict}
    (h : (Config.initial table.predictor input).run table.predictor registry steps = some v) :
    ∃ result, v = .ok result := by
  -- the end of the input is expected last, so that a value always has a cell to go to
  have hterminal : ∀ {c : Config TerminalId NonterminalId ActionId} (t : TerminalId),
      OnTheWay g (kindsOf c.stack) c.input → kindsOf c.stack ≠ [.terminal t] := by
    intro c t hc hstack
    obtain ⟨before, hbefore, -⟩ := hc.ends.resolve_left (by simp [hstack])
    rw [hstack] at hbefore
    cases before with
    | nil => simp at hbefore
    | cons k before => simp at hbefore
  have hinitial : Quiet (Config.initial table.predictor input) := by
    rw [Config.initial_eq]
    exact quiet_carrying (by simp [CellKind.isAction]) hknown
  obtain ⟨c, ⟨hc, hquiet⟩, hverdict⟩ := Config.exists_step_of_run
    (P := fun c => OnTheWay g (kindsOf c.stack) c.input ∧ Quiet c)
    (fun c c' hc hstep => by
      have hmove := Config.move_of_step hstep
      obtain ⟨c'', hstep', hquiet'⟩ :=
        step_of_quiet hg htable hactions registry hc.2 (hterminal · hc.1) hmove
      rw [hstep] at hstep'
      obtain rfl := Progress.running.inj hstep'
      exact ⟨move_onTheWay hg htable hc.1 hmove, hquiet'⟩)
    ⟨initial_onTheWay hg htable hsentence, hinitial⟩ h
  rcases hc.exists_move hg htable with ⟨hstack, hinput⟩ | ⟨kinds', rest', hmove⟩
  · obtain ⟨stack, rest, result⟩ := c
    obtain rfl : stack = [] := List.map_eq_nil_iff.1 hstack
    obtain rfl : rest = [] := hinput
    exact ⟨result, (Option.some.inj hverdict).symm⟩
  · obtain ⟨c', hstep, -⟩ :=
      step_of_quiet hg htable hactions registry hquiet (hterminal · hc) hmove
    rw [hstep] at hverdict
    cases hverdict

/-! ### The language of a table -/

/-- A parser with a table accepts sentences only, in whatever number of steps.  Where conflicts are
refused, a sentence has one leftmost derivation and its tokens are not rejected; it is accepted if
no rule has an action and no token an unknown value. -/
theorem parse_exact (hg : g.IsDefined) (htable : ofGrammar g policy = .ok table)
    (registry : Registry ActionId) (input : List (InputToken TerminalId)) :
    (∀ steps result, (Config.initial table.predictor input).run table.predictor registry steps =
      some (.ok result) → g.IsSentence (input.map (·.terminal))) ∧
    (∀ result, parse table.predictor registry input = .ok result →
      g.IsSentence (input.map (·.terminal))) ∧
    (policy = .reject → g.IsSentence (input.map (·.terminal)) →
      (∃ rs, g.Leftmost [.nonterminal g.start] rs (input.map (·.terminal)) ∧
        ∀ rs', g.Leftmost [.nonterminal g.start] rs' (input.map (·.terminal)) → rs' = rs) ∧
      (∀ steps e, (Config.initial table.predictor input).run table.predictor registry steps =
        some (.error e) → e.category ≠ .syntactic) ∧
      (∀ e, parse table.predictor registry input = .error e → e.category ≠ .syntactic) ∧
      ((∀ rule ∈ g.rules, rule.actions = []) → (∀ token ∈ input, token.value ≠ .unknown) →
        ∃ result, parse table.predictor registry input = .ok result)) := by
  have hwf := hg.wellFormed
  refine ⟨fun steps result => isSentence_of_run hwf htable, fun result h => ?_, ?_⟩
  · -- the parser accepts with what a run gives, and with nothing at the step limit
    dsimp only [parse] at h
    split at h
    · next v hv =>
      rw [h] at hv
      exact isSentence_of_run hwf htable hv
    · cases h
  · rintro rfl hsentence
    obtain ⟨v, hv⟩ := exists_verdict hwf htable registry input
    have hparse : parse table.predictor registry input = v := by
      rw [parse, hv]
    obtain ⟨rs, hrs⟩ := Grammar.isSentence_iff.1 hsentence
    refine ⟨⟨rs, hrs, fun rs' hrs' => ?_⟩, fun steps e => not_syntactic_of_run hwf htable hsentence,
      fun e he => ?_, fun hactions hknown => ?_⟩
    · exact leftmost_unique hwf htable (covered_start hwf) hrs' hrs
    · rw [← hparse, he] at hv
      exact not_syntactic_of_run hwf htable hsentence hv
    · rw [hparse]
      exact accepts_of_quiet hwf htable hactions hsentence hknown hv

/-- The table of `S -> A b`, `A -> a A`, `A -> ε`. -/
def aStarB : PredictionTable where
  vocabulary := Grammar.aStarB.toVocabulary
  start := 0
  rows :=
    [[(2, ⟨0, [.nonterminal 1, .terminal 3], none⟩), (3, ⟨0, [.nonterminal 1, .terminal 3], none⟩)],
      [(2, ⟨1, [.terminal 2, .nonterminal 1], none⟩), (3, ⟨2, [], none⟩)]]

/-- The tokens `a a b`, of which the first has a value, are accepted, so they are a sentence; and so
they are not rejected and have one leftmost derivation. -/
theorem parse_exact_aStarB :
    Grammar.aStarB.IsSentence [2, 2, 3] ∧
      (∃ rs, Grammar.aStarB.Leftmost [.nonterminal 0] rs [2, 2, 3] ∧
        ∀ rs', Grammar.aStarB.Leftmost [.nonterminal 0] rs' [2, 2, 3] → rs' = rs) ∧
      ∃ result, parse aStarB.predictor .empty
        [⟨2, .known 7, "a"⟩, ⟨2, .nothing, "a"⟩, ⟨3, .nothing, "b"⟩] = .ok result := by
  have htable : ofGrammar .aStarB .reject = .ok aStarB := by decide +kernel
  obtain ⟨-, hsound, hcomplete⟩ := parse_exact Grammar.aStarB_isDefined htable .empty
    [⟨2, .known 7, "a"⟩, ⟨2, .nothing, "a"⟩, ⟨3, .nothing, "b"⟩]
  have hsentence := hsound none (by decide +kernel)
  obtain ⟨hunique, -, -, haccepts⟩ := hcomplete rfl hsentence
  exact ⟨hsentence, hunique, haccepts (by decide) (by decide)⟩

end PredictionTable
end ArithFrontEnd
