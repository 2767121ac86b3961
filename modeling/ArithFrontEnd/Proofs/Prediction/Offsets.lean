import ArithFrontEnd.Engine.Layout
import ArithFrontEnd.Proofs.Engine.Verdicts
import ArithFrontEnd.Proofs.Prediction.Routing
import ArithFrontEnd.Proofs.Prediction.Selection

/-!
# Offsets and the layout of the stack

The offset of a right-hand side is computed from the widths of its symbols, before anything is on a
stack.  The parser puts the cells of the right-hand side on whatever stack there is.  Both come to
the same place: counted from the place of the nonterminal that is replaced, the offset is the height
of the cell that runs the first action.

## Main results

* `inheritedOffset_append` — the offset is told by the symbols after the first action.
* `step_nonterminal_iff` — the parser expands a nonterminal by putting what is predicted on the
  stack.
* `offset_meets_layout` — **the offset is the height of the first action on every stack.**
-/

namespace ArithFrontEnd

variable {before after production : List GrammarSymbol} {a : ActionId}

/-- The offset is told by the symbols after the first action. -/
theorem inheritedOffset_append (hbefore : ∀ b, .action b ∉ before) :
    inheritedOffset (before ++ .action a :: after) = some (expansion after).length := by
  induction before with
  | nil => exact congrArg some (length_expansion after).symm
  | cons s before ih =>
    have hrest := ih fun b hb => hbefore b (List.mem_cons_of_mem _ hb)
    cases s with
    | terminal t => exact hrest
    | nonterminal n => exact hrest
    | action b => exact absurd List.mem_cons_self (hbefore b)

/-- There is no offset without an action. -/
theorem inheritedOffset_eq_none : inheritedOffset production = none ↔
    ∀ a, .action a ∉ production := by
  rw [@PredictionTable.inheritedOffset_eq_none_iff ⟨0, production⟩, Rule.actions,
    List.filterMap_eq_nil_iff]
  constructor
  · intro h a ha
    cases h _ ha
  · intro h s hs
    cases s with
    | terminal t => rfl
    | nonterminal n => rfl
    | action a => exact absurd hs (h a)

/-! ### The step that puts a right-hand side on the stack -/

section Expansion

variable {T N A : Type}

/-- What is put on a stack from the bottom up delivers a value as an expansion does. -/
theorem pushPrediction_carrying (below : List (Cell T N A)) (production : List (Symbol T N A))
    (offset : Int) (v : Value) :
    pushPrediction below.reverse.toArray ⟨production, some offset⟩ [v] =
      (deliverBy v below.length offset (expansion production ++ below)).map fun cells =>
        cells.reverse.toArray := by
  have hbelow : below.reverse.toArray.size = below.length := by simp
  simp only [pushPrediction, hbelow, pushAll_reverse, deliverBy, Option.map_bind]
  refine congrArg _ (funext fun height => ?_)
  have hsize : (expansion production ++ below).reverse.toArray.size =
      (expansion production ++ below).length := by simp [Nat.add_comm]
  rw [hsize, Function.comp_apply]
  split
  · next hlt =>
    have hdeliver : deliverAt v height (expansion production ++ below) = some _ := if_pos hlt
    rw [hdeliver, Option.map_some, reverse_of_deliverAt hdeliver]
  · next hge => rw [deliverAt, if_neg hge, Option.map_none]

variable [DecidableEq T] [DecidableEq A] {p : Predictor T N A} {r : Registry A}
  {n : N} {values : List Value} {below : List (Cell T N A)} {input : List (InputToken T)}
  {result : Option Value} {prediction : Prediction T N A} {c : Config T N A}

/-- The parser expands a nonterminal by putting what is predicted on the stack. -/
theorem step_nonterminal_iff (hpredict : p.predict n (nextTerminal? input) = some prediction) :
    Config.step p r ⟨⟨.nonterminal n, values⟩ :: below, input, result⟩ = .running c ↔
      ∃ stack, pushPrediction below.reverse.toArray prediction values = some stack ∧
        c = ⟨stack.toList.reverse, input, result⟩ := by
  have hnext : p.predict n (Config.next? ⟨⟨.nonterminal n, values⟩ :: below, input, result⟩) =
    some prediction := hpredict
  show Config.expand p n _ = _ ↔ _
  obtain ⟨production, inherited⟩ := prediction
  rw [Config.expand, hnext]
  simp only [Config.pop]
  rcases values with - | ⟨v, - | ⟨w, values⟩⟩
  · simp [pushPrediction, pushAll_reverse, eq_comm]
  · cases inherited with
    | none => simp [pushPrediction, pushAll_reverse, eq_comm]
    | some offset =>
      rw [pushPrediction_carrying]
      cases hdeliver : deliverBy v below.length offset (expansion production ++ below) with
      | none => simp [hdeliver]
      | some cells => simp [hdeliver, eq_comm]
  · simp [pushPrediction]

end Expansion

/-! ### The first action -/

section FirstAction

variable {offset : Nat} {stack pushed : Array (Cell TerminalId NonterminalId ActionId)}

/-- The symbols after the first action lift the stack to its offset. -/
theorem size_pushAll_after (hoffset : inheritedOffset (before ++ .action a :: after) = some offset)
    (hbefore : ∀ b, .action b ∉ before) : (pushAll stack after).size = stack.size + offset := by
  rw [inheritedOffset_append hbefore] at hoffset
  rw [size_pushAll, Option.some.inj hoffset]

/-- The cell of the first action is the one at its offset. -/
theorem getElem?_pushAll_offset
    (hoffset : inheritedOffset (before ++ .action a :: after) = some offset)
    (hbefore : ∀ b, .action b ∉ before) :
    (pushAll stack (before ++ .action a :: after))[stack.size + offset]? =
      some (.new (.action a)) := by
  have hsize : (pushAll stack after).size = stack.size + offset :=
    size_pushAll_after hoffset hbefore
  have hlt : stack.size + offset < (pushAll stack (.action a :: after)).size := by
    rw [pushAll_cons, size_pushSymbol, hsize]
    exact Nat.lt_succ_self _
  rw [pushAll_append, getElem?_pushAll hlt, pushAll_cons, ← hsize]
  exact Array.getElem?_push_size

/-- One value at most, and a place for it, are put on a stack. -/
theorem exists_pushPrediction {inherited : Option Int} {values : List Value}
    (hvalues : values.length ≤ 1)
    (hinside : inherited = none ∨ inherited = some (offset : Int))
    (hoffset : offset < (expansion production).length) :
    ∃ pushed, pushPrediction stack ⟨production, inherited⟩ values = some pushed := by
  have hlt : stack.size + offset < (pushAll stack production).size := by
    rw [size_pushAll]
    omega
  rcases values with - | ⟨v, - | ⟨w, values⟩⟩
  · exact ⟨_, rfl⟩
  · rcases hinside with rfl | rfl
    · exact ⟨_, rfl⟩
    · exact ⟨_, if_pos hlt⟩
  · simp at hvalues

/-- The first action receives the value that the prediction sends to its offset. -/
theorem getElem?_pushPrediction {inherited : Option Int} {values : List Value}
    (hpushed : pushPrediction stack ⟨before ++ .action a :: after, inherited⟩ values = some pushed)
    (hoffset : inheritedOffset (before ++ .action a :: after) = some offset)
    (hbefore : ∀ b, .action b ∉ before) :
    pushed[stack.size + offset]? =
      some ⟨.action a, if inherited = some (offset : Int) then values else []⟩ := by
  have hcell : (pushAll stack (before ++ .action a :: after))[stack.size + offset]? =
      some (.new (.action a)) := getElem?_pushAll_offset hoffset hbefore
  match values, inherited with
  | [], _ =>
    obtain rfl := Option.some.inj hpushed
    rw [hcell, ite_self]
    rfl
  | [_], none =>
    obtain rfl := Option.some.inj hpushed
    exact hcell
  | [v], some sent =>
    obtain ⟨height, hheight, hmodified⟩ := Option.bind_eq_some_iff.1 hpushed
    have hsent : stack.size + sent = height := Offset.height?_eq_some_iff.1 hheight
    split at hmodified
    · obtain rfl := Option.some.inj hmodified
      rw [Array.getElem?_modify, hcell]
      by_cases heq : sent = offset
      · have hsame : height = stack.size + offset := by omega
        simp [heq, hsame, Cell.receive, Cell.new]
      · have hother : height ≠ stack.size + offset := by omega
        simp [heq, hother, Cell.new]
    · cases hmodified
  | _ :: _ :: _, _ => cases hpushed

end FirstAction

/-- The offset of a right-hand side with an action is the height of the first action on every stack,
and the parser that expands by it has that action there.  It receives the value that is sent to the
offset, as a table does for every nonterminal that inherits. -/
theorem offset_meets_layout (production : List GrammarSymbol) :
    (inheritedOffset production = none ↔ ∀ a, .action a ∉ production) ∧
    (∀ before a after, production = before ++ .action a :: after → (∀ b, .action b ∉ before) →
      ∃ offset, inheritedOffset production = some offset ∧
        (∀ stack : Array (Cell TerminalId NonterminalId ActionId),
          (pushAll stack after).size = stack.size + offset ∧
          pushAll stack production =
            pushAll ((pushAll stack after).push (.new (.action a))) before ∧
          (pushAll stack production)[stack.size + offset]? = some (.new (.action a))) ∧
        ∀ (p : Predictor TerminalId NonterminalId ActionId) (r : Registry ActionId) n below input
          result inherited, p.predict n (nextTerminal? input) = some ⟨production, inherited⟩ →
          (∀ values c,
            Config.step p r ⟨⟨.nonterminal n, values⟩ :: below, input, result⟩ = .running c →
            c.stack.reverse[below.length + offset]? =
              some ⟨.action a, if inherited = some (offset : Int) then values else []⟩) ∧
          ∀ values, values.length ≤ 1 → inherited = none ∨ inherited = some (offset : Int) →
            ∃ c, Config.step p r ⟨⟨.nonterminal n, values⟩ :: below, input, result⟩ = .running c) ∧
    ∀ g policy table n next inherited, g.IsDefined →
      PredictionTable.ofGrammar g policy = .ok table →
      table.predictor.predict n next = some ⟨production, inherited⟩ →
      inherited = (if g.isInherited n then inheritedOffset production else none).map Nat.cast := by
  refine ⟨inheritedOffset_eq_none, ?_, ?_⟩
  · rintro before a after rfl hbefore
    have hoffset : inheritedOffset (before ++ .action a :: after) =
        some (expansion after).length := inheritedOffset_append hbefore
    refine ⟨_, hoffset, fun stack => ⟨size_pushAll_after hoffset hbefore, ?_,
      getElem?_pushAll_offset hoffset hbefore⟩, ?_⟩
    · rw [pushAll_append, pushAll_cons]
      rfl
    · intro p r n below input result inherited hpredict
      constructor
      · intro values c hstep
        obtain ⟨pushed, hpushed, rfl⟩ := (step_nonterminal_iff hpredict).1 hstep
        have hcell := getElem?_pushPrediction hpushed hoffset hbefore
        simpa using hcell
      · intro values hvalues hinherited
        obtain ⟨pushed, hpushed⟩ := exists_pushPrediction hvalues hinherited
          (lt_length_of_inheritedOffset hoffset)
        exact ⟨_, (step_nonterminal_iff hpredict).2 ⟨pushed, hpushed, rfl⟩⟩
  · intro g policy table n next inherited hg htable hpredict
    obtain ⟨r, rule, -, rfl, -, rfl, _, hroute, rfl⟩ :=
      PredictionTable.predict_eq_some hg.wellFormed htable hpredict
    rw [PredictionTable.inherited_of_route hroute]

/-- The grammar `E'' -> + T {6} E'' {7}`, `E'' -> {10}`, `T -> x`, in which `E''` inherits. -/
def Grammar.signedRest : Grammar where
  terminals := ["+", "x"]
  nonterminals := [⟨"E''", true⟩, ⟨"T", false⟩]
  rules :=
    [⟨0, [.terminal 2, .nonterminal 1, .action 6, .nonterminal 0, .action 7]⟩, ⟨0, [.action 10]⟩,
      ⟨1, [.terminal 3]⟩]
  start := 0

/-- Three cells are below the first action of `+ T {6} E'' {7}`. -/
def PredictionTable.signedRest : PredictionTable :=
  ⟨Grammar.signedRest.toVocabulary, 0,
    [[(2, ⟨0, [.terminal 2, .nonterminal 1, .action 6, .nonterminal 0, .action 7], some 3⟩),
        (0, ⟨1, [.action 10], some 0⟩)],
      [(3, ⟨2, [.terminal 3], none⟩)]]⟩

theorem offset_meets_layout_signedRest :
    PredictionTable.ofGrammar .signedRest .reject = .ok .signedRest ∧
    some (3 : Int) = (if Grammar.signedRest.isInherited 0 then
      inheritedOffset [.terminal 2, .nonterminal 1, .action 6, .nonterminal 0, .action 7]
        else none).map Nat.cast ∧
    ∃ c, Config.step PredictionTable.signedRest.predictor .empty
        ⟨[⟨.nonterminal 0, [5]⟩, .new .endMarker], [⟨2, .nothing, "+"⟩], none⟩ = .running c ∧
      c.stack.reverse[1 + 3]? = some ⟨.action 6, [5]⟩ := by
  have hg : Grammar.signedRest.IsDefined :=
    ⟨[.terminal "+", .terminal "x", .nonterminal "E''", .nonterminal "T", .inherited 0,
      .rule 0 [.terminal 2, .nonterminal 1, .action 6, .nonterminal 0, .action 7],
      .rule 0 [.action 10], .rule 1 [.terminal 3]], rfl⟩
  have htable : PredictionTable.ofGrammar .signedRest .reject = .ok .signedRest := by
    decide +kernel
  obtain ⟨-, hlayout, hrouted⟩ := offset_meets_layout
    [.terminal 2, .nonterminal 1, .action 6, .nonterminal 0, .action 7]
  obtain ⟨offset, hoffset, -, hexpand⟩ := hlayout [.terminal 2, .nonterminal 1] 6
    [.nonterminal 0, .action 7] rfl (by simp)
  obtain rfl : 3 = offset := Option.some.inj hoffset
  obtain ⟨hcell, hgoes⟩ := hexpand PredictionTable.signedRest.predictor .empty 0 [.new .endMarker]
    [⟨2, .nothing, "+"⟩] none (some 3) rfl
  obtain ⟨c, hc⟩ := hgoes [5] (Nat.le_refl 1) (Or.inr rfl)
  exact ⟨htable, hrouted _ _ _ _ (some 2) _ hg htable rfl, c, hc, hcell _ _ hc⟩

end ArithFrontEnd
