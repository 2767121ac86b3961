import ArithFrontEnd.Proofs.Engine.StackShape
import ArithFrontEnd.Proofs.Prediction.Cells

/-!
# Where inherited values go

The table of a grammar sends an inherited value to the first action of the right-hand side that is
predicted, which is a cell of that right-hand side.  So a parser with such a table sends a value
neither beyond a right-hand side nor below it, as predictions that are made by hand may.

## Main results

* `lt_length_of_inheritedOffset` — the first action of a right-hand side is one of its cells.
* `addRules_routedInside` — the cells of a table send values to such places.
* `exists_height_of_predict` — the offsets of a table lead up into right-hand sides.
* `exists_offset_of_misfit` — what a fault shows is the offset of a cell that was made by hand.
* `stack_sound` — **the stack of a parser keeps its shape**, and why predictions and actions may not
  fit together.
-/

namespace ArithFrontEnd

/-- A right-hand side has as many cells as its symbols are wide. -/
theorem length_expansion {T N A : Type} (production : List (Symbol T N A)) :
    (expansion production).length = (production.map Symbol.width).sum := by
  induction production with
  | nil => rfl
  | cons s production ih =>
    rw [expansion_cons, List.length_append, ih, List.map_cons, List.sum_cons]
    cases s <;> rfl

/-- The first action of a right-hand side is one of its cells. -/
theorem lt_length_of_inheritedOffset {production : List GrammarSymbol} {height : Nat}
    (h : inheritedOffset production = some height) : height < (expansion production).length := by
  induction production with
  | nil => cases h
  | cons s production ih =>
    rw [expansion_cons, List.length_append]
    cases s with
    | action a =>
      obtain rfl := Option.some.inj h
      rw [← length_expansion]
      exact Nat.lt_add_of_pos_left Nat.one_pos
    | terminal t => exact Nat.lt_add_left _ (ih h)
    | nonterminal n => exact Nat.lt_add_left _ (ih h)

namespace PredictionTable

/-- The cells of the rows send no value beyond a right-hand side. -/
def RoutedInside (rows : Rows) : Prop :=
  ∀ n t e, (row rows n).find? t = some e → ∀ height, e.inherited = some height →
    height < (expansion e.production).length

variable {g : Grammar} {a : Analysis} {policy : ConflictPolicy} {rows rows' : Rows}

/-- A value that is inherited goes to the first action. -/
theorem inherited_of_route {r : RuleId} {rule : Rule} {inherited : Option Nat}
    (h : route g r rule = .ok inherited) :
    inherited = if g.isInherited rule.left then inheritedOffset rule.right else none := by
  unfold route at h
  split at h
  · next hinherits =>
    rw [if_pos hinherits]
    split at h
    · next hoffset => rw [hoffset, Except.ok.inj h]
    · cases h
  · next hinherits => rw [if_neg hinherits, Except.ok.inj h]

theorem lt_length_of_route {r : RuleId} {rule : Rule} {height : Nat}
    (h : route g r rule = .ok (some height)) : height < (expansion rule.right).length := by
  have hheight := inherited_of_route h
  split at hheight
  · exact lt_length_of_inheritedOffset hheight.symm
  · cases hheight

theorem addRule_routedInside {select : TerminalSet} {r : RuleId} {rule : Rule}
    (hrows : RoutedInside rows) (h : addRule g policy select rows r rule = .ok rows') :
    RoutedInside rows' := by
  obtain ⟨inherited, hroute, -, rfl⟩ := addRule_eq_ok h
  intro n t e he height hheight
  rw [row_modify] at he
  split at he
  · rw [Row.find?_fillAll] at he
    split at he
    · obtain rfl := Option.some.inj he
      exact lt_length_of_route (hroute.trans (congrArg _ hheight))
    · exact hrows n t e he height hheight
  · exact hrows n t e he height hheight

theorem addRules_routedInside {r : RuleId} {rules : List Rule} (hrows : RoutedInside rows)
    (h : addRules g a policy r rules rows = .ok rows') : RoutedInside rows' := by
  induction rules generalizing r rows with
  | nil =>
    obtain rfl := Except.ok.inj h
    exact hrows
  | cons rule rules ih =>
    rw [addRules] at h
    cases hadd : addRule g policy (a.selectOf r) rows r rule with
    | error e => rw [hadd] at h; cases h
    | ok rows₁ =>
      rw [hadd] at h
      exact ih (addRule_routedInside hrows hadd) h

theorem routedInside_of_ofAnalysis {table : PredictionTable}
    (h : ofAnalysis g a policy = .ok table) : RoutedInside table.rows := by
  unfold ofAnalysis at h
  cases hrows : addRules g a policy 0 g.rules (emptyRows g) with
  | error e => rw [hrows] at h; cases h
  | ok rows =>
    rw [hrows] at h
    obtain rfl := Except.ok.inj h
    refine addRules_routedInside (fun n t e he => ?_) hrows
    obtain ⟨rule, -, hlt, -⟩ := (emptyRows_spec g a).rule_of_find? he
    exact absurd hlt (Nat.not_lt_zero _)

/-- The offsets of a table lead up to cells of the right-hand sides. -/
theorem exists_height_of_predict {table : PredictionTable} (h : ofAnalysis g a policy = .ok table)
    {n : NonterminalId} {next : Option TerminalId} {production : List GrammarSymbol}
    {offset : Int} (hpredict : table.predict n next = some ⟨production, some offset⟩) :
    ∃ height : Nat, offset = height ∧ height < (expansion production).length := by
  obtain ⟨e, he, hprediction⟩ := Option.map_eq_some_iff.1 hpredict
  obtain ⟨rfl, hinherited⟩ := Prediction.mk.inj hprediction
  obtain ⟨height, hheight, rfl⟩ := Option.map_eq_some_iff.1 hinherited
  exact ⟨height, rfl, routedInside_of_ofAnalysis h _ _ e he height hheight⟩

/-- A table sends no value to where no cell is. -/
theorem not_misfit_routedOutside {table : PredictionTable} (h : ofAnalysis g a policy = .ok table)
    (r : Registry ActionId) (n : String) (word : UInt64) :
    ¬ Misfit table.predictor r (.routedOutside n word) := by
  intro hmisfit
  cases hmisfit with
  | routedOutside below hpredict hlong =>
    obtain ⟨height, rfl, hlt⟩ := exists_height_of_predict h hpredict
    have hle := hlong _ (Offset.height?_natCast below height)
    omega

end PredictionTable

/-- Where predictions are made by hand, the word that a fault shows is the offset of a cell. -/
theorem exists_offset_of_misfit {start : Nat} {cells : List HandCell} {r : Registry Nat}
    {n : String} {word : UInt64} (h : Misfit (.ofCells start cells) r (.routedOutside n word)) :
    ∃ cell ∈ cells, cell.offset = some word := by
  cases h with
  | routedOutside below hpredict =>
    obtain ⟨cell, hcell, hprediction⟩ := Option.map_eq_some_iff.1 hpredict
    obtain ⟨-, hoffset⟩ := Prediction.mk.inj hprediction
    obtain ⟨word, hword, rfl⟩ := Option.map_eq_some_iff.1 hoffset
    exact ⟨cell, List.mem_of_find?_eq_some hcell, by rw [Offset.toWord_ofWord, hword]⟩

/-- In every configuration that a parse reaches the stack has its shape, and where predictions and
actions are found not to fit together it is for one of a few reasons, none of which lies in the
stack and one of which does not apply to the table of a grammar. -/
theorem stack_sound :
    (∀ {T N A : Type} [DecidableEq T] [DecidableEq A] (p : Predictor T N A) (r : Registry A)
      (input : List (InputToken T)),
      (∀ c, Config.Reachable p r input c → StackShape p.start (kindsOf c.stack) ∧
        ∀ f, c.step p r = .rejected (.internal f) → Misfit p r f ∧ ¬ f.OfStack) ∧
      ∀ f, parse p r input = .error (.internal f) →
        (Misfit p r f ∨ f = .stepLimit (p.stepLimit input.length)) ∧ ¬ f.OfStack) ∧
    ∀ g a policy table, PredictionTable.ofAnalysis g a policy = .ok table → ∀ r input n word,
      (∀ c, Config.Reachable table.predictor r input c →
        c.step table.predictor r ≠ .rejected (.internal (.routedOutside n word))) ∧
      parse table.predictor r input ≠ .error (.internal (.routedOutside n word)) := by
  refine ⟨fun p r input => ⟨fun c hc => ?_, fun f hf => ?_⟩,
    fun g a policy table htable r input n word => ⟨fun c hc hstep => ?_, fun hparse => ?_⟩⟩
  · have hsound := Sound.of_reachable hc
    refine ⟨hsound.stackShape, fun f hf => ?_⟩
    have hmisfit := Config.misfit_of_step hsound hf
    exact ⟨hmisfit, hmisfit.not_ofStack⟩
  · refine ⟨misfit_of_parse hf, ?_⟩
    rcases misfit_of_parse hf with hmisfit | rfl
    · exact hmisfit.not_ofStack
    · exact (nomatch ·)
  · exact PredictionTable.not_misfit_routedOutside htable r n word
      (Config.misfit_of_step (.of_reachable hc) hstep)
  · rcases misfit_of_parse hparse with hmisfit | hlimit
    · exact PredictionTable.not_misfit_routedOutside htable r n word hmisfit
    · cases hlimit

/-- The grammar `S -> x A`, `A -> {0} y`, in which `A` inherits. -/
def Grammar.inheriting : Grammar where
  terminals := ["x", "y"]
  nonterminals := [⟨"S", false⟩, ⟨"A", true⟩]
  rules := [⟨0, [.terminal 2, .nonterminal 1]⟩, ⟨1, [.action 0, .terminal 3]⟩]
  start := 0

/-- The value of `A` goes to the action of `A -> {0} y`, above the place of `y`. -/
def PredictionTable.inheriting : PredictionTable :=
  ⟨Grammar.inheriting.toVocabulary, 0,
    [[(2, ⟨0, [.terminal 2, .nonterminal 1], none⟩)], [(3, ⟨1, [.action 0, .terminal 3], some 1⟩)]]⟩

/-- Predictions made by hand for `S -> x A`, `A ->`, with a machine word for the value of `A`. -/
def Predictor.routedBy (word : UInt64) : Predictor Nat Nat Nat :=
  .ofCells 0 [⟨0, some 0, [.terminal 0, .nonterminal 1], none⟩, ⟨1, none, [], some word⟩]

/-- The value of the token `x` goes to `A`.  Predictions made by hand may send it beyond the empty
right-hand side, or down to the place of `A`, from where it comes to be the result; in the table of
the grammar that inherits it has an action to go to. -/
theorem stack_sound_inheriting :
    (∃ c, Config.Reachable (.routedBy 5) .empty [⟨0, .known 3, "x"⟩] c ∧
      kindsOf c.stack = [.nonterminal 1, .synthesized 1, .synthesized 0, .endMarker] ∧
      StackShape 0 (kindsOf c.stack) ∧
      c.step (.routedBy 5) .empty = .rejected (.internal (.routedOutside "N1" 5)) ∧
      Misfit (.routedBy 5) (.empty : Registry Nat) (.routedOutside "N1" 5)) ∧
    (∃ c, Config.Reachable (.routedBy 18446744073709551615) .empty [⟨0, .known 3, "x"⟩] c ∧
      c.stack = [⟨.synthesized 1, [3]⟩, .new (.synthesized 0), .new .endMarker] ∧
      StackShape 0 (kindsOf c.stack)) ∧
    ∃ table, PredictionTable.ofAnalysis .inheriting (.compute .inheriting) .reject = .ok table ∧
      parse table.predictor .empty [⟨2, .known 3, "x"⟩, ⟨3, .nothing, "y"⟩] =
        .error (.internal (.unregisteredAction "ActionID(0)")) ∧
      parse table.predictor .empty [⟨2, .known 3, "x"⟩, ⟨3, .nothing, "y"⟩] ≠
        .error (.internal (.routedOutside "A" 1)) ∧
      Misfit table.predictor .empty (.unregisteredAction "ActionID(0)") := by
  have hmatched (word : UInt64) : Config.Reachable (.routedBy word) .empty [⟨0, .known 3, "x"⟩]
      ⟨[⟨.nonterminal 1, [3]⟩, .new (.synthesized 1), .new (.synthesized 0), .new .endMarker], [],
        none⟩ := (Config.Reachable.initial.step rfl).step rfl
  refine ⟨?_, ?_, ?_⟩
  · have hrouted : Config.step (.routedBy 5) .empty ⟨[⟨.nonterminal 1, [3]⟩, .new (.synthesized 1),
        .new (.synthesized 0), .new .endMarker], [], none⟩ =
          .rejected (.internal (.routedOutside "N1" 5)) := by decide +kernel
    obtain ⟨hshape, hfault⟩ := (stack_sound.1 _ _ _).1 _ (hmatched 5)
    exact ⟨_, hmatched 5, rfl, hshape, hrouted, (hfault _ hrouted).1⟩
  · have hwrapped : Config.step (.routedBy 18446744073709551615) .empty ⟨[⟨.nonterminal 1, [3]⟩,
        .new (.synthesized 1), .new (.synthesized 0), .new .endMarker], [], none⟩ =
          .running ⟨[⟨.synthesized 1, [3]⟩, .new (.synthesized 0), .new .endMarker], [], none⟩ := by
      decide +kernel
    have hreachable := (hmatched _).step hwrapped
    exact ⟨_, hreachable, rfl, ((stack_sound.1 _ _ _).1 _ hreachable).1⟩
  · have htable : PredictionTable.ofAnalysis .inheriting (.compute .inheriting) .reject =
        .ok .inheriting := by decide +kernel
    have hparse : parse PredictionTable.inheriting.predictor .empty
        [⟨2, .known 3, "x"⟩, ⟨3, .nothing, "y"⟩] =
          .error (.internal (.unregisteredAction "ActionID(0)")) := by decide +kernel
    have hnever := (stack_sound.2 _ _ _ _ htable .empty
      [⟨2, .known 3, "x"⟩, ⟨3, .nothing, "y"⟩] "A" 1).2
    refine ⟨_, htable, hparse, hnever, ?_⟩
    rcases ((stack_sound.1 _ _ _).2 _ hparse).1 with hmisfit | hlimit
    · exact hmisfit
    · cases hlimit

end ArithFrontEnd
