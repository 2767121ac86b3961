import ArithFrontEnd.Proofs.Engine.Carrying

/-!
# Values without actions

Where no right-hand side has an action, tokens are the only source of values.  The value of a token
goes to the cell below it.  A terminal drops it, and so does a nonterminal, if predictions do not
say where it goes.  But the token that ends a right-hand side stands on the place of the nonterminal
that it closes, and as there is no action below, the value becomes the result of the parse.

## Main definitions

* `lastValue` — the last of the values of some tokens.
* `Predictor.Actionless`, `Predictor.Unrouted` — there are no actions, and no values are sent.
* `Predictor.Reads` — symbols are read by predictions, with the tokens that close a right-hand side.
* `Config.Sourced` — all values are those of tokens.

## Main results

* `Config.Sourced.of_gives` — **the result is the value of a token.**
* `goesTo_of_reads`, `exists_reads_of_run` — the parser reads symbols just if predictions do.
* `gives_ok_iff` — **the result is the value of the last token that closes a right-hand side.**
-/

namespace ArithFrontEnd

variable {T N A : Type}

/-- The last of the values of tokens that are known. -/
def lastValue (tokens : List (InputToken T)) : Option Value :=
  (tokens.filterMap (·.value.known?)).getLast?

theorem lastValue_append (xs ys : List (InputToken T)) :
    lastValue (xs ++ ys) = (lastValue ys).or (lastValue xs) := by
  rw [lastValue, List.filterMap_append, List.getLast?_append]
  rfl

namespace Predictor

/-- No right-hand side that is predicted has an action. -/
def Actionless (p : Predictor T N A) : Prop :=
  ∀ n next prediction, p.predict n next = some prediction →
    ∀ s ∈ prediction.production, s.isAction = false

/-- No prediction says where the value of a nonterminal goes. -/
def Unrouted (p : Predictor T N A) : Prop :=
  ∀ n next prediction, p.predict n next = some prediction → prediction.inherited = none

/-- Symbols without actions are read from an input by predictions, up to the rest of the input.  Of
the tokens that are read, those are noted that close a right-hand side, of which the symbols are the
end. -/
inductive Reads (p : Predictor T N A) :
    List (Symbol T N A) → List (InputToken T) → List (InputToken T) → List (InputToken T) → Prop
  /-- There is nothing to read. -/
  | nil (input : List (InputToken T)) : Reads p [] input input []
  /-- The last symbol is a terminal, and its token closes the right-hand side. -/
  | last (token : InputToken T) (rest : List (InputToken T)) :
      Reads p [.terminal token.terminal] (token :: rest) rest [token]
  /-- A token is read, and other symbols follow. -/
  | terminal (token : InputToken T) {s : Symbol T N A} {symbols : List (Symbol T N A)}
      {input rest closing : List (InputToken T)} (h : Reads p (s :: symbols) input rest closing) :
      Reads p (.terminal token.terminal :: s :: symbols) (token :: input) rest closing
  /-- A nonterminal is read by what is predicted for it. -/
  | nonterminal {n : N} {prediction : Prediction T N A} {symbols : List (Symbol T N A)}
      {input middle rest closing closing' : List (InputToken T)}
      (hpredict : p.predict n (nextTerminal? input) = some prediction)
      (h : Reads p prediction.production input middle closing)
      (hrest : Reads p symbols middle rest closing') :
      Reads p (.nonterminal n :: symbols) input rest (closing ++ closing')

end Predictor

/-! ### All values are those of tokens -/

/-- One of the tokens has this value. -/
def HasValue (tokens : List (InputToken T)) (v : Value) : Prop :=
  ∃ token ∈ tokens, token.value = .known v

/-- There are no actions, and all values come from these tokens. -/
structure Config.Sourced (tokens : List (InputToken T)) (c : Config T N A) : Prop where
  /-- The input that is left consists of such tokens. -/
  input : ∀ token ∈ c.input, token ∈ tokens
  /-- No action is to be run. -/
  no_action : ∀ cell ∈ c.stack, cell.kind.isAction = false
  /-- The values that cells have collected are those of tokens. -/
  values : ∀ cell ∈ c.stack, ∀ v ∈ cell.values, HasValue tokens v
  /-- The result, if there is one, is the value of a token. -/
  result : ∀ v, c.result = some v → HasValue tokens v

namespace Config.Sourced

variable {tokens input : List (InputToken T)} {cell : Cell T N A} {below cells : List (Cell T N A)}
  {result : Option Value} {v : Value}

/-- A cell may be taken away. -/
theorem tail (h : Sourced tokens ⟨cell :: below, input, result⟩) :
    Sourced tokens ⟨below, input, result⟩ where
  input := h.input
  no_action other hother := h.no_action other (List.mem_cons_of_mem _ hother)
  values other hother := h.values other (List.mem_cons_of_mem _ hother)
  result := h.result

/-- Cells without actions may be added, if their values are those of tokens. -/
theorem append (h : Sourced tokens ⟨below, input, result⟩)
    (hcells : ∀ cell ∈ cells, cell.kind.isAction = false ∧ ∀ v ∈ cell.values, HasValue tokens v) :
    Sourced tokens ⟨cells ++ below, input, result⟩ where
  input := h.input
  no_action other hother :=
    (List.mem_append.1 hother).elim (fun hmem => (hcells other hmem).1) (h.no_action other)
  values other hother :=
    (List.mem_append.1 hother).elim (fun hmem => (hcells other hmem).2) (h.values other)
  result := h.result

/-- The value of a token may be delivered. -/
theorem deliver {cells' : List (Cell T N A)} (h : Sourced tokens ⟨cells, input, result⟩)
    (hv : HasValue tokens v)
    (hcells : ∀ cell ∈ cells', cell ∈ cells ∨ ∃ other ∈ cells, cell = other.receive v) :
    Sourced tokens ⟨cells', input, result⟩ where
  input := h.input
  no_action cell hcell := by
    rcases hcells cell hcell with hold | ⟨other, hother, rfl⟩
    · exact h.no_action cell hold
    · exact h.no_action other hother
  values cell hcell := by
    rcases hcells cell hcell with hold | ⟨other, hother, rfl⟩
    · exact h.values cell hold
    · intro w hw
      rcases List.mem_append.1 hw with hold | hnew
      · exact h.values other hother w hold
      · rwa [List.mem_singleton.1 hnew]
  result := h.result

/-- A cell may receive the value of a token. -/
theorem receive (h : Sourced tokens ⟨cell :: below, input, result⟩) (hv : HasValue tokens v) :
    Sourced tokens ⟨cell.receive v :: below, input, result⟩ := by
  refine h.deliver hv fun other hother => ?_
  rcases List.mem_cons.1 hother with rfl | hmem
  · exact Or.inr ⟨cell, List.mem_cons_self, rfl⟩
  · exact Or.inl (List.mem_cons_of_mem _ hmem)

theorem drop_input {token : InputToken T} (h : Sourced tokens ⟨below, token :: input, result⟩) :
    Sourced tokens ⟨below, input, result⟩ :=
  ⟨fun other hother => h.input other (List.mem_cons_of_mem _ hother), h.no_action, h.values,
    h.result⟩

theorem initial (p : Predictor T N A) (input : List (InputToken T)) :
    (Config.initial p input).Sourced input where
  input _ htoken := htoken
  no_action := by simp [Config.initial, Cell.new, CellKind.isAction]
  values := by simp [Config.initial, Cell.new]
  result := by simp [Config.initial]

variable [DecidableEq T] [DecidableEq A] {p : Predictor T N A} {r : Registry A}
  {c c' : Config T N A}

/-- A step without actions moves the values of tokens only. -/
theorem of_step (hp : p.Actionless) (h : c.Sourced tokens) (hstep : c.step p r = .running c') :
    c'.Sourced tokens := by
  obtain ⟨stack, input, result⟩ := c
  cases stack with
  | nil => cases input <;> cases hstep
  | cons cell below =>
    obtain ⟨kind, values⟩ := cell
    cases kind with
    | endMarker =>
      obtain ⟨rfl, rfl⟩ := of_step_endMarker hstep
      exact h.tail
    | terminal t =>
      obtain ⟨token, rest, rfl, -, -, ⟨-, rfl⟩ | ⟨v, cell, below', hvalue, rfl, rfl⟩⟩ :=
        of_step_terminal hstep
      · exact h.tail.drop_input
      · exact h.tail.drop_input.receive ⟨token, h.input token List.mem_cons_self, hvalue⟩
    | nonterminal n =>
      obtain ⟨prediction, cells, hpredict, rfl, hcells⟩ := of_step_nonterminal hstep
      have hexpanded : Sourced tokens ⟨expansion prediction.production ++ below, input, result⟩ :=
        h.tail.append fun cell hcell =>
          ⟨isAction_of_mem_expansion (hp _ _ _ hpredict) hcell,
            by simp [values_of_mem_expansion hcell]⟩
      rcases hcells with rfl | ⟨v, offset, rfl, -, hdeliver⟩
      · exact hexpanded
      · have hv : HasValue tokens v := h.values _ List.mem_cons_self v List.mem_cons_self
        exact hexpanded.deliver hv fun cell => mem_of_deliverBy hdeliver
    | synthesized n =>
      rcases of_step_synthesized hstep with ⟨-, rfl⟩ | ⟨v, rfl, ⟨below', hdeliver, -⟩ | ⟨-, rfl⟩⟩
      · exact h.tail
      · rw [deliverTo_eq_none h.tail.no_action] at hdeliver
        cases hdeliver
      · have hv : HasValue tokens v := h.values _ List.mem_cons_self v List.mem_cons_self
        refine ⟨h.input, h.tail.no_action, h.tail.values, fun w hw => ?_⟩
        obtain rfl := Option.some.inj hw
        exact hv
    | action a => cases h.no_action _ List.mem_cons_self

/-- The result is the value of a token. -/
theorem of_gives (hp : p.Actionless) (h : c.Sourced tokens) (hgives : c.Gives p r (.ok (some v))) :
    HasValue tokens v := by
  obtain ⟨steps, hsteps⟩ := hgives
  obtain ⟨c', hc', hverdict⟩ :=
    exists_step_of_run (fun _ _ hc hstep => hc.of_step hp hstep) h hsteps
  obtain rfl := eq_of_accepted (Progress.verdict?_eq_ok_iff.1 hverdict)
  exact hc'.result v rfl

end Config.Sourced

/-! ### Reading -/

namespace Predictor.Reads

variable {p : Predictor T N A} {symbols : List (Symbol T N A)}
  {input rest closing : List (InputToken T)}

theorem suffix (h : p.Reads symbols input rest closing) : rest <:+ input := by
  induction h with
  | nil input => exact List.suffix_rfl
  | last token rest => exact List.suffix_cons token rest
  | terminal token _ ih => exact ih.trans (List.suffix_cons token _)
  | nonterminal _ _ _ ih ihrest => exact ihrest.trans ih

theorem no_action (h : p.Reads symbols input rest closing) :
    ∀ s ∈ symbols, s.isAction = false := by
  induction h with
  | nil => simp
  | last => simp [Symbol.isAction]
  | terminal token _ ih =>
    intro s hs
    rcases List.mem_cons.1 hs with rfl | hs
    · rfl
    · exact ih s hs
  | nonterminal _ _ _ _ ih =>
    intro s hs
    rcases List.mem_cons.1 hs with rfl | hs
    · rfl
    · exact ih s hs

end Predictor.Reads

namespace Config

variable [DecidableEq T] [DecidableEq A] {p : Predictor T N A} {r : Registry A} {n : N}
  {w : Option Value} {kinds : List (CellKind T N A)} {input rest : List (InputToken T)}
  {token : InputToken T} {result : Option Value} {prediction : Prediction T N A}

/-- The parser reads what predictions read, and leaves the place of the nonterminal below. -/
theorem goesTo_of_reads {symbols : List (Symbol T N A)} {closing : List (InputToken T)}
    (hp : p.Unrouted) (h : p.Reads symbols input rest closing)
    (hknown : ∀ token ∈ input, token.value ≠ .unknown)
    (hkinds : ∀ kind ∈ kinds, kind.isAction = false) (hw : symbols = [] → w = none) :
    GoesTo p r
      ⟨carrying w (kindsOf (expansion symbols) ++ .synthesized n :: kinds), input, result⟩
      ⟨carrying none kinds, rest, (lastValue closing).or result⟩ := by
  induction h generalizing w n kinds result with
  | nil input =>
    obtain rfl := hw rfl
    exact .of_running (step_carrying_synthesized hkinds)
  | last token rest =>
    have hvalue := hknown token List.mem_cons_self
    have hlast : lastValue [token] = token.value.known? := by
      cases h : token.value <;> simp [lastValue, TokenValue.known?, h]
    rw [hlast]
    exact .head (step_carrying_terminal hvalue (List.cons_ne_nil _ _))
      (.of_running (step_carrying_synthesized hkinds))
  | @terminal token s symbols input rest closing _ ih =>
    have hvalue := hknown token List.mem_cons_self
    refine .head (step_carrying_terminal hvalue ?_)
      (ih (fun other hother => hknown other (List.mem_cons_of_mem _ hother)) hkinds (by simp))
    simp
  | @nonterminal m prediction symbols input middle rest closing closing' hpredict hread hrest ih
      ihrest =>
    have hplace : ∀ kind ∈ .synthesized n :: kinds, kind.isAction = false :=
      List.forall_mem_cons.2 ⟨rfl, hkinds⟩
    have hbelow := isAction_of_mem_append hrest.no_action hplace
    have hmiddle : ∀ token ∈ middle, token.value ≠ .unknown :=
      fun token htoken => hknown token (hread.suffix.mem htoken)
    rw [lastValue_append, Option.or_assoc]
    refine .head (step_carrying_nonterminal hpredict (hp _ _ _ hpredict)) ?_
    exact (ih hknown hbelow fun _ => rfl).trans (ihrest hmiddle hkinds fun _ => rfl)

/-- Where the parser accepts, predictions read the symbols that are on top. -/
theorem exists_reads_of_run {symbols : List (Symbol T N A)} {found : Option Value} {steps : Nat}
    (hp : p.Actionless) (hp' : p.Unrouted) (hsymbols : ∀ s ∈ symbols, s.isAction = false)
    (hkinds : ∀ kind ∈ kinds, kind.isAction = false)
    (h : run p r steps
      ⟨carrying w (kindsOf (expansion symbols) ++ .synthesized n :: kinds), input, found⟩ =
        some (.ok result)) :
    ∃ rest closing, p.Reads symbols input rest closing := by
  induction steps using Nat.strongRecOn generalizing symbols w n kinds input found with
  | ind steps ih =>
    cases symbols with
    | nil => exact ⟨input, [], .nil input⟩
    | cons s symbols =>
      have hsymbols' : ∀ s ∈ symbols, s.isAction = false :=
        fun s hs => hsymbols s (List.mem_cons_of_mem _ hs)
      have hknown := known_of_run h
      cases s with
      | action a => cases hsymbols _ List.mem_cons_self
      | terminal t =>
        obtain ⟨fewer, c', rfl, hstep, hrun⟩ := exists_running_of_run (List.cons_ne_nil _ _) h
        obtain ⟨token, rest, rfl, rfl, hvalue, -⟩ := of_step_terminal hstep
        cases symbols with
        | nil => exact ⟨rest, [token], .last token rest⟩
        | cons s symbols =>
          obtain rfl :=
            Progress.running.inj (hstep.symm.trans (step_carrying_terminal hvalue (by simp)))
          obtain ⟨rest', closing, hread⟩ := ih fewer (Nat.lt_succ_self _) hsymbols' hkinds hrun
          exact ⟨rest', closing, .terminal token hread⟩
      | nonterminal m =>
        obtain ⟨fewer, c', rfl, hstep, hrun⟩ := exists_running_of_run (List.cons_ne_nil _ _) h
        obtain ⟨prediction, -, hpredict, -, -⟩ := of_step_nonterminal hstep
        obtain rfl := Progress.running.inj
          (hstep.symm.trans (step_carrying_nonterminal hpredict (hp' _ _ _ hpredict)))
        have hplace : ∀ kind ∈ .synthesized n :: kinds, kind.isAction = false :=
          List.forall_mem_cons.2 ⟨rfl, hkinds⟩
        have hbelow := isAction_of_mem_append hsymbols' hplace
        obtain ⟨middle, closing, hread⟩ :=
          ih fewer (Nat.lt_succ_self _) (hp _ _ _ hpredict) hbelow hrun
        obtain ⟨fewest, hle, hrun'⟩ :=
          (goesTo_of_reads hp' hread hknown hbelow fun _ => rfl).run hrun
        obtain ⟨rest, closing', hread'⟩ :=
          ih fewest (Nat.lt_succ_of_le hle) hsymbols' hkinds hrun'
        exact ⟨rest, closing ++ closing', .nonterminal hpredict hread hread'⟩

/-- With the end marker alone and no input left, the result is final. -/
theorem gives_of_ended (found : Option Value) :
    Gives p r ⟨carrying none [.endMarker], [], found⟩ (.ok found) :=
  have hstep : step p r ⟨carrying none [.endMarker], [], found⟩ = .running ⟨[], [], found⟩ := rfl
  .of_running hstep (.of_accepted rfl)

/-- What is read by the prediction for the start symbol leaves the end marker. -/
theorem initial_goesTo {closing : List (InputToken T)} (hp : p.Unrouted)
    (hpredict : p.predict p.start (nextTerminal? input) = some prediction)
    (h : p.Reads prediction.production input rest closing)
    (hknown : ∀ token ∈ input, token.value ≠ .unknown) :
    (initial p input).GoesTo p r ⟨carrying none [.endMarker], rest, lastValue closing⟩ := by
  have hend : ∀ kind ∈ [(.endMarker : CellKind T N A)], kind.isAction = false := by
    simp [CellKind.isAction]
  have hread : GoesTo p r _ ⟨carrying none [.endMarker], rest, (lastValue closing).or none⟩ :=
    goesTo_of_reads (n := p.start) hp h hknown hend fun _ => rfl
  rw [Option.or_none] at hread
  rw [initial_eq]
  exact .head (step_carrying_nonterminal hpredict (hp _ _ _ hpredict)) hread

/-- A parser without actions that sends no values accepts what predictions read, and the result is
the value of the last token that closes a right-hand side. -/
theorem gives_ok_iff (hp : p.Actionless) (hp' : p.Unrouted) :
    (initial p input).Gives p r (.ok result) ↔
      (∀ token ∈ input, token.value ≠ .unknown) ∧
        ∃ closing, p.Reads [.nonterminal p.start] input [] closing ∧
          result = lastValue closing := by
  constructor
  · rintro ⟨steps, hrun⟩
    have hknown := known_of_run hrun
    have hfirst := hrun
    rw [initial_eq] at hfirst
    obtain ⟨fewer, c', rfl, hstep, hrest⟩ := exists_running_of_run (List.cons_ne_nil _ _) hfirst
    obtain ⟨prediction, -, hpredict, -, -⟩ := of_step_nonterminal hstep
    obtain rfl := Progress.running.inj
      (hstep.symm.trans (step_carrying_nonterminal hpredict (hp' _ _ _ hpredict)))
    obtain ⟨rest, closing, hread⟩ :=
      exists_reads_of_run hp hp' (hp _ _ _ hpredict) (by simp [CellKind.isAction]) hrest
    have hgoes : (initial p input).GoesTo p r _ := initial_goesTo hp' hpredict hread hknown
    -- the end marker is left only where nothing is left of the input
    obtain ⟨fewest, -, hlast⟩ := hgoes.run hrun
    obtain ⟨-, c'', rfl, hend, -⟩ := exists_running_of_run (List.cons_ne_nil _ _) hlast
    obtain ⟨rfl, -⟩ := of_step_endMarker hend
    have hwhole := Predictor.Reads.nonterminal hpredict hread (.nil [])
    rw [List.append_nil] at hwhole
    have hresult := Gives.unique ⟨_, hrun⟩ (hgoes.gives (gives_of_ended _))
    exact ⟨hknown, closing, hwhole, Except.ok.inj hresult⟩
  · rintro ⟨hknown, closing, hread, rfl⟩
    cases hread with
    | nonterminal hpredict hread hrest =>
      cases hrest with
      | nil =>
        rw [List.append_nil]
        exact (initial_goesTo hp' hpredict hread hknown).gives (gives_of_ended _)

end Config
end ArithFrontEnd
