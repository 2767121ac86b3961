import ArithFrontEnd.Engine.Layout
import ArithFrontEnd.Engine.Run

/-!
# The moves of a parser

Values do not decide what a parser does next, only whether it can go on.  What the cells expect and
what is left of the input changes in one of five ways, here called moves.  A step that goes on makes
a move, and a step that rejects the tokens can make none: what is expected and what is left tell why
they are refused.

## Main definitions

* `kindsOf`, `expected` — what cells expect, and the symbols among it.
* `Move`, `Refuses` — the moves, and why tokens are refused where there is none.
* `Progress.Justified` — what comes of a step is told by the moves.
* `Progress.verdict?` — the verdict that a step gives.

## Main results

* `Move.input_cases` — a move sees the next terminal only.
* `justified_step` — **a step goes on just by the moves.**
* `move_of_step`, `refuses_of_step`, `no_move_of_syntactic` — a step that goes on makes a move, and
  where the tokens are rejected there is none.
* `exists_step_of_run`, `exists_reachable_of_parse` — a verdict is given by a step of a
  configuration that has been reached.
-/

namespace ArithFrontEnd

variable {T N A : Type}

/-- What the cells expect. -/
def kindsOf (cells : List (Cell T N A)) : List (CellKind T N A) := cells.map (·.kind)

@[simp] theorem kindsOf_nil : kindsOf ([] : List (Cell T N A)) = [] := rfl

@[simp] theorem kindsOf_cons (cell : Cell T N A) (cells : List (Cell T N A)) :
    kindsOf (cell :: cells) = cell.kind :: kindsOf cells := rfl

@[simp] theorem kindsOf_append (cells below : List (Cell T N A)) :
    kindsOf (cells ++ below) = kindsOf cells ++ kindsOf below := List.map_append

/-- The symbol that a cell expects, if it expects one. -/
def CellKind.symbol? : CellKind T N A → Option (Symbol T N A)
  | .terminal t => some (.terminal t)
  | .nonterminal n => some (.nonterminal n)
  | .action a => some (.action a)
  | .endMarker => none
  | .synthesized _ => none

/-- The symbols that are expected, the next one first. -/
def expected (kinds : List (CellKind T N A)) : List (Symbol T N A) :=
  kinds.filterMap CellKind.symbol?

@[simp] theorem expected_append (kinds below : List (CellKind T N A)) :
    expected (kinds ++ below) = expected kinds ++ expected below := List.filterMap_append

/-! ### Right-hand sides -/

theorem expansion_cons (s : Symbol T N A) (production : List (Symbol T N A)) :
    expansion (s :: production) = cellsOf s ++ expansion production := List.flatMap_cons

/-- The cells of a right-hand side expect its symbols. -/
@[simp] theorem expected_expansion (production : List (Symbol T N A)) :
    expected (kindsOf (expansion production)) = production := by
  induction production with
  | nil => rfl
  | cons s production ih =>
    rw [expansion_cons, kindsOf_append, expected_append, ih]
    cases s <;> rfl

theorem length_expansion_le (production : List (Symbol T N A)) :
    (expansion production).length ≤ 2 * production.length := by
  induction production with
  | nil => exact Nat.le_refl 0
  | cons s production ih =>
    have hcells : (cellsOf s).length ≤ 2 := by cases s <;> simp [cellsOf]
    rw [expansion_cons, List.length_append, List.length_cons]
    omega

/-- The cells of a right-hand side have no values. -/
theorem values_of_mem_expansion {production : List (Symbol T N A)} {cell : Cell T N A}
    (h : cell ∈ expansion production) : cell.values = [] := by
  obtain ⟨s, -, hcell⟩ := List.mem_flatMap.1 h
  cases s with
  | terminal t | action a => rw [List.mem_singleton.1 hcell, Cell.new]
  | nonterminal n =>
    rcases List.mem_cons.1 hcell with rfl | hcell
    · rfl
    · rw [List.mem_singleton.1 hcell, Cell.new]

/-- The cells of a right-hand side without actions run none. -/
theorem isAction_of_mem_expansion {production : List (Symbol T N A)}
    (hproduction : ∀ s ∈ production, s.isAction = false) {cell : Cell T N A}
    (h : cell ∈ expansion production) : cell.kind.isAction = false := by
  obtain ⟨s, hs, hcell⟩ := List.mem_flatMap.1 h
  have hsymbol := hproduction s hs
  cases s with
  | terminal t =>
    rw [List.mem_singleton.1 hcell]
    rfl
  | nonterminal n =>
    rcases List.mem_cons.1 hcell with rfl | hcell
    · rfl
    · rw [List.mem_singleton.1 hcell]
      rfl
  | action a => cases hsymbol

/-! ### Values change nothing of what is expected -/

theorem kindsOf_modify (i : Nat) (v : Value) (cells : List (Cell T N A)) :
    kindsOf (cells.modify i (Cell.receive v)) = kindsOf cells := by
  apply List.ext_getElem?
  intro j
  simp only [kindsOf, List.getElem?_map, List.getElem?_modify]
  cases cells[j]? with
  | none => rfl
  | some cell => split <;> rfl

theorem kindsOf_deliverAt {v : Value} {height : Nat} {cells cells' : List (Cell T N A)}
    (h : deliverAt v height cells = some cells') : kindsOf cells' = kindsOf cells := by
  unfold deliverAt at h
  split at h
  · rw [← Option.some.inj h, kindsOf_modify]
  · contradiction

theorem kindsOf_deliverBy {v : Value} {base : Nat} {offset : Int}
    {cells cells' : List (Cell T N A)} (h : deliverBy v base offset cells = some cells') :
    kindsOf cells' = kindsOf cells := by
  obtain ⟨height, -, hdeliver⟩ := deliverBy_eq_some_iff.1 h
  exact kindsOf_deliverAt hdeliver

theorem kindsOf_deliverTo {takes : CellKind T N A → Bool} {v : Value}
    {cells cells' : List (Cell T N A)} (h : deliverTo takes v cells = some cells') :
    kindsOf cells' = kindsOf cells := by
  induction cells generalizing cells' with
  | nil => cases h
  | cons cell below ih =>
    rw [deliverTo] at h
    split at h
    · rw [← Option.some.inj h]
      rfl
    · obtain ⟨below', hbelow, rfl⟩ := Option.map_eq_some_iff.1 h
      rw [kindsOf_cons, kindsOf_cons, ih hbelow]

/-- A value is not delivered if no cell takes it. -/
theorem deliverTo_eq_none {takes : CellKind T N A → Bool} {v : Value} {cells : List (Cell T N A)}
    (h : ∀ cell ∈ cells, takes cell.kind = false) : deliverTo takes v cells = none := by
  induction cells with
  | nil => rfl
  | cons cell cells ih =>
    rw [deliverTo, if_neg (by rw [h cell List.mem_cons_self]; simp),
      ih fun other hother => h other (List.mem_cons_of_mem _ hother)]
    rfl

/-! ### Moves -/

/-- The terminal that comes next. -/
def nextTerminal? (input : List (InputToken T)) : Option T := input.head?.map (·.terminal)

/-- How what the cells expect and what is left of the input may change. -/
inductive Move (p : Predictor T N A) :
    List (CellKind T N A) → List (InputToken T) → List (CellKind T N A) → List (InputToken T) → Prop
  /-- The input has ended where its end is expected. -/
  | finish (kinds : List (CellKind T N A)) : Move p (.endMarker :: kinds) [] kinds []
  /-- The next token is the one that is expected. -/
  | matched {t : T} {token : InputToken T} (kinds : List (CellKind T N A))
      (rest : List (InputToken T)) (h : token.terminal = t) :
      Move p (.terminal t :: kinds) (token :: rest) kinds rest
  /-- A nonterminal is replaced by what is predicted. -/
  | expanded {n : N} {input : List (InputToken T)} {prediction : Prediction T N A}
      (kinds : List (CellKind T N A)) (h : p.predict n (nextTerminal? input) = some prediction) :
      Move p (.nonterminal n :: kinds) input (kindsOf (expansion prediction.production) ++ kinds)
        input
  /-- A nonterminal has been read. -/
  | left (n : N) (kinds : List (CellKind T N A)) (input : List (InputToken T)) :
      Move p (.synthesized n :: kinds) input kinds input
  /-- An action is run. -/
  | performed (a : A) (kinds : List (CellKind T N A)) (input : List (InputToken T)) :
      Move p (.action a :: kinds) input kinds input

/-- A move that reads nothing sees the next terminal only, and one that reads a token sees that
token only. -/
theorem Move.input_cases {p : Predictor T N A} {kinds kinds' : List (CellKind T N A)}
    {input rest : List (InputToken T)} (h : Move p kinds input kinds' rest) :
    rest = input ∧
        (∀ other, nextTerminal? other = nextTerminal? input → Move p kinds other kinds' other) ∨
      ∃ token, input = token :: rest ∧
        ∀ token' other, token'.terminal = token.terminal →
          Move p kinds (token' :: other) kinds' other := by
  cases h with
  | finish =>
    refine Or.inl ⟨rfl, fun other hnext => ?_⟩
    cases other with
    | nil => exact .finish _
    | cons token other => cases hnext
  | @matched t token _ _ hterminal =>
    exact Or.inr ⟨token, rfl, fun token' other h => .matched _ _ (h.trans hterminal)⟩
  | expanded _ hpredict => exact Or.inl ⟨rfl, fun _ hnext => .expanded _ (hnext ▸ hpredict)⟩
  | left n => exact Or.inl ⟨rfl, fun other _ => .left n _ other⟩
  | performed a => exact Or.inl ⟨rfl, fun other _ => .performed a _ other⟩

/-- A move that reads a token has the terminal of the token on top. -/
theorem Move.eq_terminal_cons {p : Predictor T N A} {kinds kinds' : List (CellKind T N A)}
    {token : InputToken T} {rest : List (InputToken T)}
    (h : Move p kinds (token :: rest) kinds' rest) :
    kinds = .terminal token.terminal :: kinds' := by
  generalize hinput : token :: rest = input at h
  cases h with
  | matched _ _ hterminal =>
    obtain ⟨rfl, -⟩ := List.cons.inj hinput
    rw [hterminal]
  | finish => cases hinput
  | expanded | left | performed => exact absurd (congrArg List.length hinput) (by simp)

/-- A move leaves the end of the input. -/
theorem Move.input_suffix {p : Predictor T N A} {kinds kinds' : List (CellKind T N A)}
    {input rest : List (InputToken T)} (h : Move p kinds input kinds' rest) : rest <:+ input := by
  rcases h.input_cases with ⟨rfl, -⟩ | ⟨token, rfl, -⟩
  · exact List.suffix_rfl
  · exact List.suffix_cons token rest

/-- Whether there is a move depends on the next terminal only. -/
theorem Move.of_next {p : Predictor T N A} {kinds kinds' : List (CellKind T N A)}
    {input rest other : List (InputToken T)} (h : Move p kinds input kinds' rest)
    (hnext : nextTerminal? other = nextTerminal? input) :
    ∃ rest', Move p kinds other kinds' rest' := by
  rcases h.input_cases with ⟨-, hmove⟩ | ⟨token, rfl, hmove⟩
  · exact ⟨other, hmove other hnext⟩
  · cases other with
    | nil => cases hnext
    | cons token' other => exact ⟨other, hmove token' other (Option.some.inj hnext)⟩

/-- Why tokens are refused, told by what the cells expect and what is left of the input. -/
inductive Refuses (p : Predictor T N A) :
    List (CellKind T N A) → List (InputToken T) → ParseError → Prop
  /-- A token is left where the end of the input is expected. -/
  | leftover (token : InputToken T) (kinds : List (CellKind T N A)) (rest : List (InputToken T)) :
      Refuses p (.endMarker :: kinds) (token :: rest)
        (.unexpectedToken (p.terminalName none) token.shown)
  /-- What comes next is not the terminal that is expected. -/
  | mismatched {t : T} {input : List (InputToken T)} (kinds : List (CellKind T N A))
      (h : nextTerminal? input ≠ some t) :
      Refuses p (.terminal t :: kinds) input
        (.unexpectedToken (p.terminalName (some t)) (p.shownNext input))
  /-- No right-hand side of a nonterminal is predicted. -/
  | unpredicted {n : N} {input : List (InputToken T)} (kinds : List (CellKind T N A))
      (h : p.predict n (nextTerminal? input) = none) :
      Refuses p (.nonterminal n :: kinds) input
        (.noProduction (p.nonterminalName n) (p.shownNext input))

namespace Refuses

variable {p : Predictor T N A} {kinds kinds' : List (CellKind T N A)}
  {input input' : List (InputToken T)} {e : ParseError}

/-- Where tokens are refused there is no move. -/
theorem no_move (h : Refuses p kinds input e) : ¬ Move p kinds input kinds' input' := by
  intro hmove
  cases h with
  | leftover => cases hmove
  | mismatched _ hne =>
    cases hmove with
    | matched _ _ hterminal => exact hne (congrArg some hterminal)
  | unpredicted _ hnone =>
    cases hmove with
    | expanded _ hpredict => exact nomatch hnone.symm.trans hpredict

/-- The error shows what comes next. -/
theorem shows_next (h : Refuses p kinds input e) :
    ∃ part, e = .unexpectedToken part (p.shownNext input) ∨
      e = .noProduction part (p.shownNext input) := by
  cases h with
  | leftover => exact ⟨_, Or.inl rfl⟩
  | mismatched => exact ⟨_, Or.inl rfl⟩
  | unpredicted => exact ⟨_, Or.inr rfl⟩

end Refuses

/-- What comes of a step is told by the moves: the parse goes on with a move, it is accepted where
nothing is expected and nothing is left, and tokens are rejected where they are refused. -/
def Progress.Justified (p : Predictor T N A) (kinds : List (CellKind T N A))
    (input : List (InputToken T)) : Progress T N A → Prop
  | .running c => Move p kinds input (kindsOf c.stack) c.input
  | .accepted _ => kinds = [] ∧ input = []
  | .rejected e => e.category = .syntactic → Refuses p kinds input e

namespace Config

variable {p : Predictor T N A} {c c' : Config T N A} {cell : Cell T N A}
  {below : List (Cell T N A)}

theorem justified_atEnd : (c.atEnd p below).Justified p (.endMarker :: kindsOf below) c.input := by
  unfold atEnd
  split
  · next hinput =>
    show Move p _ c.input (kindsOf below) c.input
    rw [hinput]
    exact .finish _
  · next token rest hinput =>
    rw [hinput]
    exact fun _ => .leftover token _ rest

theorem justified_matchToken [DecidableEq T] {t : T} :
    (c.matchToken p t below).Justified p (.terminal t :: kindsOf below) c.input := by
  unfold matchToken
  split
  · next hinput =>
    rw [hinput]
    exact fun _ => .mismatched _ (nomatch ·)
  · next token rest hinput =>
    rw [hinput]
    split
    · next hterminal =>
      -- the token is the expected one, so that only its value can be at fault
      split
      · exact .matched _ _ hterminal
      · exact (nomatch ·)
      · exact (nomatch ·)
      · exact .matched _ _ hterminal
    · next hne => exact fun _ => .mismatched _ fun h => hne (Option.some.inj h)

theorem justified_expand {n : N} (hstack : c.stack = cell :: below) :
    (c.expand p n).Justified p (.nonterminal n :: kindsOf below) c.input := by
  unfold expand
  split
  · next hnone => exact fun _ => .unpredicted _ hnone
  · next prediction hpredict =>
    have hmove : ∀ cells : List (Cell T N A),
        kindsOf cells = kindsOf (expansion prediction.production ++ below) →
        Move p (.nonterminal n :: kindsOf below) c.input (kindsOf cells) c.input := by
      intro cells hcells
      rw [hcells, kindsOf_append]
      exact .expanded _ hpredict
    rw [pop_eq hstack]
    dsimp only
    split
    · exact hmove _ rfl
    · exact hmove _ rfl
    · split
      · next cells hdeliver => exact hmove cells (kindsOf_deliverBy hdeliver)
      · exact (nomatch ·)
    · exact (nomatch ·)

theorem justified_synthesize {n : N} (hstack : c.stack = cell :: below) :
    (c.synthesize p n).Justified p (.synthesized n :: kindsOf below) c.input := by
  rw [synthesize, pop_eq hstack]
  split
  · exact .left n _ _
  · split
    · next below' hdeliver =>
      show Move p _ c.input (kindsOf below') c.input
      rw [kindsOf_deliverTo hdeliver]
      exact .left n _ _
    · exact .left n _ _
  · exact (nomatch ·)

theorem justified_perform [DecidableEq A] {r : Registry A} {a : A}
    (hstack : c.stack = cell :: below) :
    (c.perform p r a).Justified p (.action a :: kindsOf below) c.input := by
  unfold perform
  split
  · exact (nomatch ·)
  · rw [pop_eq hstack]
    split
    · split
      · exact (nomatch ·)
      · next v _ =>
        have hkinds : kindsOf ((deliverTo CellKind.isNonterminal v below).getD below) =
            kindsOf below := by
          cases hdeliver : deliverTo CellKind.isNonterminal v below with
          | none => rfl
          | some below' => exact kindsOf_deliverTo hdeliver
        show Move p _ c.input (kindsOf (Option.getD _ below)) c.input
        rw [hkinds]
        exact .performed a _ _
    · exact (nomatch ·)

variable [DecidableEq T] [DecidableEq A] {r : Registry A}

/-- What comes of a step is told by the moves. -/
theorem justified_step : (c.step p r).Justified p (kindsOf c.stack) c.input := by
  unfold step
  split
  · next hstack =>
    split
    · next hinput => exact ⟨congrArg kindsOf hstack, hinput⟩
    · exact (nomatch ·)
  · next cell below hstack =>
    rw [hstack, kindsOf_cons]
    split
    · next hkind => exact hkind ▸ justified_atEnd
    · next t hkind => exact hkind ▸ justified_matchToken
    · next n hkind => exact hkind ▸ justified_expand hstack
    · next n hkind => exact hkind ▸ justified_synthesize hstack
    · next a hkind => exact hkind ▸ justified_perform hstack

/-- A step that goes on makes a move. -/
theorem move_of_step (h : c.step p r = .running c') :
    Move p (kindsOf c.stack) c.input (kindsOf c'.stack) c'.input := by
  have hstep := justified_step (p := p) (c := c) (r := r)
  rwa [h] at hstep

/-- Where a step rejects the tokens they are refused. -/
theorem refuses_of_step {e : ParseError} (h : c.step p r = .rejected e)
    (hcategory : e.category = .syntactic) : Refuses p (kindsOf c.stack) c.input e := by
  have hstep := justified_step (p := p) (c := c) (r := r)
  rw [h] at hstep
  exact hstep hcategory

/-- Where a step rejects the tokens there is no move. -/
theorem no_move_of_syntactic {e : ParseError} (h : c.step p r = .rejected e)
    (hcategory : e.category = .syntactic) {kinds : List (CellKind T N A)}
    {input : List (InputToken T)} : ¬ Move p (kindsOf c.stack) c.input kinds input :=
  (refuses_of_step h hcategory).no_move

/-- A step accepts when nothing is expected and nothing is left. -/
theorem eq_nil_of_accepted {result : Option Value} (h : c.step p r = .accepted result) :
    kindsOf c.stack = [] ∧ c.input = [] := by
  have hstep := justified_step (p := p) (c := c) (r := r)
  rwa [h] at hstep

end Config

/-! ### Verdicts -/

/-- The verdict that a step gives, if it gives one. -/
def Progress.verdict? : Progress T N A → Option Verdict
  | .running _ => none
  | .accepted result => some (.ok result)
  | .rejected e => some (.error e)

theorem Progress.verdict?_eq_ok_iff {progress : Progress T N A} {result : Option Value} :
    progress.verdict? = some (.ok result) ↔ progress = .accepted result := by
  cases progress <;> simp [verdict?]

theorem Progress.verdict?_eq_error_iff {progress : Progress T N A} {e : ParseError} :
    progress.verdict? = some (.error e) ↔ progress = .rejected e := by
  cases progress <;> simp [verdict?]

variable [DecidableEq T] [DecidableEq A] {p : Predictor T N A} {r : Registry A}

namespace Config

/-- A verdict is given by a step of a configuration that has every property which steps keep. -/
theorem exists_step_of_run {P : Config T N A → Prop}
    (hkeep : ∀ c c', P c → c.step p r = .running c' → P c') {steps : Nat} {c : Config T N A}
    {v : Verdict} (hc : P c) (h : c.run p r steps = some v) :
    ∃ c', P c' ∧ (c'.step p r).verdict? = some v := by
  induction steps generalizing c with
  | zero => cases h
  | succ steps ih =>
    rw [run] at h
    cases hstep : c.step p r with
    | running c' =>
      rw [hstep] at h
      exact ih (hkeep c c' hc hstep) h
    | accepted result =>
      rw [hstep] at h
      exact ⟨c, hc, by rw [hstep]; exact h⟩
    | rejected e =>
      rw [hstep] at h
      exact ⟨c, hc, by rw [hstep]; exact h⟩

/-- The verdict on an input is given by a step of the parse, unless it is that of the step limit. -/
theorem exists_reachable_of_parse {input : List (InputToken T)} {v : Verdict}
    (h : parse p r input = v) (hlimit : ∀ steps, v ≠ .error (.internal (.stepLimit steps))) :
    ∃ c, Reachable p r input c ∧ (c.step p r).verdict? = some v := by
  dsimp only [parse] at h
  split at h
  · next w hw =>
    obtain rfl := h
    exact exists_step_of_run (fun _ _ hc hstep => hc.step hstep) .initial hw
  · exact absurd h.symm (hlimit _)

/-- What is left of the input is its end. -/
theorem Reachable.input_suffix {input : List (InputToken T)} {c : Config T N A}
    (h : Reachable p r input c) : c.input <:+ input := by
  induction h with
  | initial => exact List.suffix_rfl
  | step _ hstep ih => exact (move_of_step hstep).input_suffix.trans ih

end Config
end ArithFrontEnd
