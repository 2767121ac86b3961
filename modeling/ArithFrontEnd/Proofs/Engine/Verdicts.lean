import ArithFrontEnd.Proofs.Engine.Moves
import Mathlib.Logic.Relation

/-!
# Verdicts of configurations

A parser comes to a verdict from a configuration if it does from the next one.  The rules say so by
the cell on top: which step is made, where a value goes, and why the input may be rejected.  They
are to be read backwards, from what is on the stack to what has to be known of the stack after the
step.

## Main definitions

* `Config.Gives` — the parser comes to this verdict.
* `Config.GoesTo` — the parser passes through this configuration.

## Main results

* `step_matched`, `step_expanded`, … — steps where values play no part.
* `Gives.matched`, `Gives.expanded`, `Gives.synthesized`, `Gives.performed` — the steps that go on.
* `of_step_terminal`, `of_step_nonterminal`, … — what a step that goes on has done.
* `known_of_run` — an input that is accepted has no token whose value is unknown.
* `Gives.unique` — the parser comes to one verdict.
* `parse_eq_of_gives` — the verdict on an input, if the step limit is enough.
-/

namespace ArithFrontEnd

variable {T N A : Type} [DecidableEq T] [DecidableEq A]

/-- The parser comes to this verdict, in some number of steps. -/
def Config.Gives (p : Predictor T N A) (r : Registry A) (c : Config T N A) (v : Verdict) : Prop :=
  ∃ steps, c.run p r steps = some v

/-- The parser comes to one verdict. -/
theorem Config.Gives.unique {p : Predictor T N A} {r : Registry A} {c : Config T N A}
    {v w : Verdict} (h : c.Gives p r v) (h' : c.Gives p r w) : v = w := by
  obtain ⟨steps, hv⟩ := h
  obtain ⟨steps', hw⟩ := h'
  have hv' := Config.run_mono (Nat.le_max_left steps steps') hv
  have hw' := Config.run_mono (Nat.le_max_right steps steps') hw
  exact Option.some.inj (hv'.symm.trans hw')

/-- The verdict on an input is the one that the parser comes to, if the step limit is enough. -/
theorem parse_eq_of_gives {p : Predictor T N A} {r : Registry A} {input : List (InputToken T)}
    {v w : Verdict} (h : (Config.initial p input).Gives p r v)
    (hlimit : (Config.initial p input).run p r (p.stepLimit input.length) = some w) :
    parse p r input = v := by
  rw [parse, hlimit]
  exact Config.Gives.unique ⟨_, hlimit⟩ h

namespace Config

/-! ### Steps without values -/

variable {p : Predictor T N A} {r : Registry A} {below : List (Cell T N A)}
  {input rest : List (InputToken T)} {result : Option Value} {values : List Value} {t : T}
  {token : InputToken T} {n : N} {production : List (Symbol T N A)}

theorem step_terminal : step p r ⟨⟨.terminal t, values⟩ :: below, input, result⟩ =
    matchToken p t below ⟨⟨.terminal t, values⟩ :: below, input, result⟩ := rfl

theorem step_matched (hterminal : token.terminal = t) (hvalue : token.value = .nothing) :
    step p r ⟨⟨.terminal t, values⟩ :: below, token :: rest, result⟩ =
      .running ⟨below, rest, result⟩ := by
  rw [step_terminal]
  simp only [matchToken, hterminal, if_true, hvalue]

theorem step_mismatched (h : nextTerminal? input ≠ some t) :
    step p r ⟨⟨.terminal t, values⟩ :: below, input, result⟩ =
      .rejected (.unexpectedToken (p.terminalName (some t)) (p.shownNext input)) := by
  rw [step_terminal]
  cases input with
  | nil => rfl
  | cons token rest =>
    have hne : ¬ token.terminal = t := fun heq => h (congrArg some heq)
    simp only [matchToken, hne, if_false]
    rfl

theorem step_expanded {inherited : Option Int}
    (hpredict : p.predict n (nextTerminal? input) = some ⟨production, inherited⟩) :
    step p r ⟨⟨.nonterminal n, []⟩ :: below, input, result⟩ =
      .running ⟨expansion production ++ below, input, result⟩ := by
  have hnext : p.predict n (next? ⟨⟨.nonterminal n, []⟩ :: below, input, result⟩) =
    some ⟨production, inherited⟩ := hpredict
  show expand p n _ = _
  rw [expand, hnext]
  rfl

theorem step_unpredicted (hpredict : p.predict n (nextTerminal? input) = none) :
    step p r ⟨⟨.nonterminal n, values⟩ :: below, input, result⟩ =
      .rejected (.noProduction (p.nonterminalName n) (p.shownNext input)) := by
  have hnext : p.predict n (next? ⟨⟨.nonterminal n, values⟩ :: below, input, result⟩) = none :=
    hpredict
  show expand p n _ = _
  rw [expand, hnext]

theorem step_left :
    step p r ⟨⟨.synthesized n, []⟩ :: below, input, result⟩ = .running ⟨below, input, result⟩ := rfl

end Config

namespace Config.Gives

variable {p : Predictor T N A} {r : Registry A} {v : Verdict} {c c' : Config T N A}

theorem of_running (hstep : c.step p r = .running c') (h : c'.Gives p r v) : c.Gives p r v := by
  obtain ⟨steps, hsteps⟩ := h
  exact ⟨steps + 1, by rw [run, hstep]; exact hsteps⟩

theorem of_rejected {e : ParseError} (hstep : c.step p r = .rejected e) :
    c.Gives p r (.error e) := ⟨1, by rw [run, hstep]⟩

theorem of_accepted {result : Option Value} (hstep : c.step p r = .accepted result) :
    c.Gives p r (.ok result) := ⟨1, by rw [run, hstep]⟩

variable {below below' cells : List (Cell T N A)} {input rest : List (InputToken T)}
  {result : Option Value} {values : List Value} {w : Value} {cell : Cell T N A}

/-! ### A terminal on top -/

variable {t : T} {token : InputToken T}

theorem matched (hterminal : token.terminal = t) (hvalue : token.value = .nothing)
    (h : Gives p r ⟨below, rest, result⟩ v) :
    Gives p r ⟨⟨.terminal t, values⟩ :: below, token :: rest, result⟩ v :=
  of_running (step_matched hterminal hvalue) h

/-- The value of a token goes to the cell below. -/
theorem matched_known (hterminal : token.terminal = t) (hvalue : token.value = .known w)
    (h : Gives p r ⟨cell.receive w :: below, rest, result⟩ v) :
    Gives p r ⟨⟨.terminal t, values⟩ :: cell :: below, token :: rest, result⟩ v := by
  refine of_running ?_ h
  rw [step_terminal]
  simp only [matchToken, hterminal, if_true, hvalue]

theorem matched_unknown (hterminal : token.terminal = t) (hvalue : token.value = .unknown) :
    Gives p r ⟨⟨.terminal t, values⟩ :: below, token :: rest, result⟩
      (.error (.unknownValue token.shown)) := by
  refine of_rejected ?_
  rw [step_terminal]
  simp only [matchToken, hterminal, if_true, hvalue]

theorem mismatched (h : nextTerminal? input ≠ some t) :
    Gives p r ⟨⟨.terminal t, values⟩ :: below, input, result⟩
      (.error (.unexpectedToken (p.terminalName (some t)) (p.shownNext input))) :=
  of_rejected (step_mismatched h)

/-! ### A nonterminal on top -/

variable {n : N} {production : List (Symbol T N A)}

theorem expanded {inherited : Option Int}
    (hpredict : p.predict n (nextTerminal? input) = some ⟨production, inherited⟩)
    (h : Gives p r ⟨expansion production ++ below, input, result⟩ v) :
    Gives p r ⟨⟨.nonterminal n, []⟩ :: below, input, result⟩ v :=
  of_running (step_expanded hpredict) h

/-- The value of a nonterminal goes where the offset of the prediction leads. -/
theorem expanded_carrying {offset : Int}
    (hpredict : p.predict n (nextTerminal? input) = some ⟨production, some offset⟩)
    (hdeliver : deliverBy w below.length offset (expansion production ++ below) = some cells)
    (h : Gives p r ⟨cells, input, result⟩ v) :
    Gives p r ⟨⟨.nonterminal n, [w]⟩ :: below, input, result⟩ v := by
  refine of_running ?_ h
  have hnext : p.predict n (next? ⟨⟨.nonterminal n, [w]⟩ :: below, input, result⟩) =
    some ⟨production, some offset⟩ := hpredict
  show expand p n _ = _
  rw [expand, hnext]
  simp only [pop, hdeliver]

theorem unpredicted (hpredict : p.predict n (nextTerminal? input) = none) :
    Gives p r ⟨⟨.nonterminal n, values⟩ :: below, input, result⟩
      (.error (.noProduction (p.nonterminalName n) (p.shownNext input))) :=
  of_rejected (step_unpredicted hpredict)

/-! ### The place of a nonterminal on top -/

theorem synthesized (hdeliver : deliverTo CellKind.isAction w below = some below')
    (h : Gives p r ⟨below', input, result⟩ v) :
    Gives p r ⟨⟨.synthesized n, [w]⟩ :: below, input, result⟩ v := by
  refine of_running ?_ h
  show synthesize p n _ = _
  simp only [synthesize, pop, hdeliver]

/-- Without an action below, the value is the result. -/
theorem synthesized_last (hdeliver : deliverTo CellKind.isAction w below = none)
    (h : Gives p r ⟨below, input, some w⟩ v) :
    Gives p r ⟨⟨.synthesized n, [w]⟩ :: below, input, result⟩ v := by
  refine of_running ?_ h
  show synthesize p n _ = _
  simp only [synthesize, pop, hdeliver]

/-! ### An action on top -/

variable {a : A} {action : Action}

omit [DecidableEq T] [DecidableEq A] in
/-- A value is delivered only where a cell takes it. -/
theorem any_of_deliverTo {takes : CellKind T N A → Bool}
    (h : deliverTo takes w below = some below') :
    below.any (fun cell => takes cell.kind) = true := by
  induction below generalizing below' with
  | nil => cases h
  | cons cell below ih =>
    rw [deliverTo] at h
    rw [List.any_cons, Bool.or_eq_true]
    split at h
    · exact Or.inl (by assumption)
    · obtain ⟨cells, hcells, -⟩ := Option.map_eq_some_iff.1 h
      exact Or.inr (ih hcells)

/-- The result of an action goes to the nearest nonterminal, or place of one. -/
theorem performed (hfind : r.find? a = some action) (hrun : action.run values = .ok w)
    (hdeliver : deliverTo CellKind.isNonterminal w below = some below')
    (h : Gives p r ⟨below', input, result⟩ v) :
    Gives p r ⟨⟨.action a, values⟩ :: below, input, result⟩ v := by
  refine of_running ?_ h
  show perform p r a _ = _
  simp only [perform, pop, hfind, any_of_deliverTo hdeliver, if_true, hrun, hdeliver,
    Option.getD_some]

theorem failed {e : OperationError} (hfind : r.find? a = some action)
    (hrun : action.run values = .error e) (hbelow : below.any (·.kind.isNonterminal) = true) :
    Gives p r ⟨⟨.action a, values⟩ :: below, input, result⟩ (.error (.action e)) := by
  refine of_rejected ?_
  show perform p r a _ = _
  simp only [perform, pop, hfind, hbelow, if_true, hrun]

end Config.Gives

/-! ### Configurations on the way -/

namespace Config

/-- The parser goes on from one configuration to another, in some number of steps. -/
def GoesTo (p : Predictor T N A) (r : Registry A) : Config T N A → Config T N A → Prop :=
  Relation.ReflTransGen fun c c' => c.step p r = .running c'

variable {p : Predictor T N A} {r : Registry A} {c c' c'' : Config T N A}

theorem GoesTo.of_running (h : c.step p r = .running c') : c.GoesTo p r c' := .single h

theorem GoesTo.head (hstep : c.step p r = .running c') (h : c'.GoesTo p r c'') :
    c.GoesTo p r c'' := Relation.ReflTransGen.head hstep h

/-- A parse passes through the configurations that its first one goes on to. -/
theorem GoesTo.reachable {input : List (InputToken T)} (h : (initial p input).GoesTo p r c) :
    Reachable p r input c := by
  induction h with
  | refl => exact .initial
  | tail _ hstep ih => exact .step ih hstep

/-- The first configuration of a parse goes on to those that the parse passes through. -/
theorem Reachable.goesTo {input : List (InputToken T)} (h : Reachable p r input c) :
    (Config.initial p input).GoesTo p r c := by
  induction h with
  | initial => exact .refl
  | step _ hstep ih => exact ih.tail hstep

/-- The verdict of a configuration is that of the ones before it. -/
theorem GoesTo.gives {v : Verdict} (h : c.GoesTo p r c') (hv : c'.Gives p r v) :
    c.Gives p r v := by
  induction h using Relation.ReflTransGen.head_induction_on with
  | refl => exact hv
  | head hstep _ ih => exact .of_running hstep ih

/-- A verdict that is reached is reached by way of the configurations that the parser goes on to. -/
theorem GoesTo.run {v : Verdict} {steps : Nat} (h : c.GoesTo p r c')
    (hv : c.run p r steps = some v) : ∃ fewer ≤ steps, c'.run p r fewer = some v := by
  induction h with
  | refl => exact ⟨steps, Nat.le_refl steps, hv⟩
  | tail _ hstep ih =>
    obtain ⟨fewer, hle, hfewer⟩ := ih
    cases fewer with
    | zero => cases hfewer
    | succ fewer =>
      rw [Config.run, hstep] at hfewer
      exact ⟨fewer, Nat.le_of_succ_le hle, hfewer⟩

end Config

/-! ### What a step that goes on has done -/

namespace Config

variable {p : Predictor T N A} {r : Registry A} {t : T} {n : N} {values : List Value}
  {below : List (Cell T N A)} {input : List (InputToken T)} {result : Option Value}
  {c : Config T N A}

theorem of_step_endMarker
    (h : step p r ⟨⟨.endMarker, values⟩ :: below, input, result⟩ = .running c) :
    input = [] ∧ c = ⟨below, [], result⟩ := by
  change atEnd p below _ = _ at h
  cases input with
  | nil => exact ⟨rfl, (Progress.running.inj h).symm⟩
  | cons token rest => cases h

/-- The next token is matched, and the cell below receives its value if it has one. -/
theorem of_step_terminal
    (h : step p r ⟨⟨.terminal t, values⟩ :: below, input, result⟩ = .running c) :
    ∃ token rest, input = token :: rest ∧ token.terminal = t ∧ token.value ≠ .unknown ∧
      ((token.value = .nothing ∧ c = ⟨below, rest, result⟩) ∨
        ∃ v cell below', token.value = .known v ∧ below = cell :: below' ∧
          c = ⟨cell.receive v :: below', rest, result⟩) := by
  rw [step_terminal] at h
  cases input with
  | nil => cases h
  | cons token rest =>
    refine ⟨token, rest, rfl, ?_⟩
    by_cases hterminal : token.terminal = t
    · refine ⟨hterminal, ?_⟩
      simp only [matchToken, hterminal, if_true] at h
      cases hvalue : token.value with
      | nothing =>
        simp only [hvalue] at h
        exact ⟨by simp, Or.inl ⟨rfl, (Progress.running.inj h).symm⟩⟩
      | unknown =>
        simp only [hvalue] at h
        cases h
      | known v =>
        cases below with
        | nil =>
          simp only [hvalue] at h
          cases h
        | cons cell below =>
          simp only [hvalue] at h
          exact ⟨by simp, Or.inr ⟨v, cell, below, rfl, rfl, (Progress.running.inj h).symm⟩⟩
    · simp only [matchToken, hterminal, if_false] at h
      cases h

/-- A right-hand side is predicted and expanded, and the value that the nonterminal carries may be
delivered. -/
theorem of_step_nonterminal
    (h : step p r ⟨⟨.nonterminal n, values⟩ :: below, input, result⟩ = .running c) :
    ∃ prediction cells, p.predict n (nextTerminal? input) = some prediction ∧
      c = ⟨cells, input, result⟩ ∧
      (cells = expansion prediction.production ++ below ∨ ∃ v offset, values = [v] ∧
        prediction.inherited = some offset ∧
        deliverBy v below.length offset (expansion prediction.production ++ below) =
          some cells) := by
  change expand p n _ = _ at h
  cases hpredict : p.predict n (nextTerminal? input) with
  | none =>
    have hnext : p.predict n (next? ⟨⟨.nonterminal n, values⟩ :: below, input, result⟩) = none :=
      hpredict
    rw [expand, hnext] at h
    cases h
  | some prediction =>
    have hnext : p.predict n (next? ⟨⟨.nonterminal n, values⟩ :: below, input, result⟩) =
      some prediction := hpredict
    rw [expand, hnext] at h
    obtain ⟨production, inherited⟩ := prediction
    match values, inherited with
    | [], _ => exact ⟨_, _, rfl, (Progress.running.inj h).symm, Or.inl rfl⟩
    | [_], none => exact ⟨_, _, rfl, (Progress.running.inj h).symm, Or.inl rfl⟩
    | [v], some offset =>
      cases hdeliver : deliverBy v below.length offset (expansion production ++ below) with
      | none =>
        simp only [pop, hdeliver] at h
        cases h
      | some cells =>
        simp only [pop, hdeliver] at h
        exact ⟨_, cells, rfl, (Progress.running.inj h).symm, Or.inr ⟨v, offset, rfl, rfl, hdeliver⟩⟩
    | _ :: _ :: _, _ => cases h

/-- The place of a nonterminal is left, and its value goes to an action or is the result. -/
theorem of_step_synthesized
    (h : step p r ⟨⟨.synthesized n, values⟩ :: below, input, result⟩ = .running c) :
    (values = [] ∧ c = ⟨below, input, result⟩) ∨
      ∃ v, values = [v] ∧
        ((∃ below', deliverTo CellKind.isAction v below = some below' ∧
            c = ⟨below', input, result⟩) ∨
          deliverTo CellKind.isAction v below = none ∧ c = ⟨below, input, some v⟩) := by
  change synthesize p n _ = _ at h
  match values with
  | [] => exact Or.inl ⟨rfl, (Progress.running.inj h).symm⟩
  | [v] =>
    refine Or.inr ⟨v, rfl, ?_⟩
    cases hdeliver : deliverTo CellKind.isAction v below with
    | none =>
      simp only [synthesize, pop, hdeliver] at h
      exact Or.inr ⟨rfl, (Progress.running.inj h).symm⟩
    | some below' =>
      simp only [synthesize, pop, hdeliver] at h
      exact Or.inl ⟨below', rfl, (Progress.running.inj h).symm⟩
  | _ :: _ :: _ => cases h

/-! ### Runs that accept -/

theorem eq_of_accepted (h : c.step p r = .accepted result) : c = ⟨[], [], result⟩ := by
  obtain ⟨stack, input, found⟩ := c
  obtain ⟨hstack, rfl⟩ : kindsOf stack = [] ∧ input = [] := eq_nil_of_accepted h
  obtain rfl : stack = [] := List.map_eq_nil_iff.1 hstack
  obtain rfl : found = result := Progress.accepted.inj h
  rfl

/-- A run that accepts goes on as long as there are cells. -/
theorem exists_running_of_run {steps : Nat} (hstack : c.stack ≠ [])
    (h : c.run p r steps = some (.ok result)) :
    ∃ fewer c', steps = fewer + 1 ∧ c.step p r = .running c' ∧
      c'.run p r fewer = some (.ok result) := by
  cases steps with
  | zero => cases h
  | succ fewer =>
    rw [run] at h
    cases hstep : c.step p r with
    | running c' =>
      rw [hstep] at h
      exact ⟨fewer, c', rfl, rfl, h⟩
    | accepted found =>
      rw [eq_of_accepted hstep] at hstack
      exact absurd rfl hstack
    | rejected e =>
      rw [hstep] at h
      cases h

/-- Every token of an input that is accepted has a value that is known, or none. -/
theorem known_of_run {steps : Nat} (h : c.run p r steps = some (.ok result)) :
    ∀ token ∈ c.input, token.value ≠ .unknown := by
  induction steps generalizing c with
  | zero => cases h
  | succ steps ih =>
    rw [run] at h
    cases hstep : c.step p r with
    | accepted found => simp [eq_of_accepted hstep]
    | rejected e =>
      rw [hstep] at h
      cases h
    | running c' =>
      rw [hstep] at h
      have hrest := ih h
      rcases (move_of_step hstep).input_cases with ⟨heq, -⟩ | ⟨token, hinput, -⟩
      · rwa [heq] at hrest
      · -- a token that has been read was matched by the terminal on top
        have hmove := move_of_step hstep
        obtain ⟨stack, input, found⟩ := c
        obtain rfl : input = token :: c'.input := hinput
        obtain ⟨cell, below, rfl, hkind, -⟩ := List.map_eq_cons_iff.1 hmove.eq_terminal_cons
        obtain ⟨kind, values⟩ := cell
        obtain rfl : kind = .terminal token.terminal := hkind
        obtain ⟨other, rest, hother, -, hvalue, -⟩ := of_step_terminal hstep
        obtain ⟨rfl, -⟩ := List.cons.inj hother
        intro other hmem
        rcases List.mem_cons.1 hmem with rfl | hmem
        · exact hvalue
        · exact hrest other hmem

end Config
end ArithFrontEnd
