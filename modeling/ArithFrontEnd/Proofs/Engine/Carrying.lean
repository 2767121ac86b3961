import ArithFrontEnd.Proofs.Engine.Verdicts

/-!
# One value on top

Where there are no actions and predictions send no values, the value of a token gets no further than
the next cell.  That cell is on top then, and it drops the value, or it is the place of a
nonterminal and the value becomes the result.  So the cell on top may have one value, and no other
cell has any.

## Main definitions

* `TokenValue.known?` — the value of a token, if it is known.
* `carrying` — cells of which only the one on top may have a value.

## Main results

* `step_carrying_terminal`, `step_carrying_nonterminal`, … — the steps with such cells.
-/

namespace ArithFrontEnd

variable {T N A : Type}

/-- The value of a token, if it is known. -/
def TokenValue.known? : TokenValue → Option Value
  | .known v => some v
  | _ => none

/-- Cells that expect this, of which the one on top may have a value. -/
def carrying (w : Option Value) : List (CellKind T N A) → List (Cell T N A)
  | [] => []
  | kind :: kinds => ⟨kind, w.toList⟩ :: kinds.map .new

theorem carrying_none (kinds : List (CellKind T N A)) : carrying none kinds = kinds.map .new := by
  cases kinds <;> rfl

@[simp] theorem kindsOf_map_new (kinds : List (CellKind T N A)) :
    kindsOf (kinds.map Cell.new) = kinds := by
  rw [kindsOf, List.map_map]
  exact List.map_id _

@[simp] theorem kindsOf_carrying (w : Option Value) (kinds : List (CellKind T N A)) :
    kindsOf (carrying w kinds) = kinds := by
  cases kinds with
  | nil => rfl
  | cons kind kinds => rw [carrying, kindsOf_cons, kindsOf_map_new]

/-- Cells without values are told by what they expect. -/
theorem map_new_kindsOf {cells : List (Cell T N A)} (h : ∀ cell ∈ cells, cell.values = []) :
    (kindsOf cells).map Cell.new = cells := by
  induction cells with
  | nil => rfl
  | cons cell cells ih =>
    obtain ⟨kind, values⟩ := cell
    obtain rfl : values = [] := h _ List.mem_cons_self
    rw [kindsOf_cons, List.map_cons, ih fun other hother => h other (List.mem_cons_of_mem _ hother)]
    rfl

/-- The cells of symbols without actions run none. -/
theorem isAction_of_mem_append {symbols : List (Symbol T N A)} {kinds : List (CellKind T N A)}
    (hsymbols : ∀ s ∈ symbols, s.isAction = false)
    (hkinds : ∀ kind ∈ kinds, kind.isAction = false) :
    ∀ kind ∈ kindsOf (expansion symbols) ++ kinds, kind.isAction = false := by
  intro kind hkind
  rcases List.mem_append.1 hkind with hmem | hmem
  · obtain ⟨cell, hcell, rfl⟩ := List.mem_map.1 hmem
    exact isAction_of_mem_expansion hsymbols hcell
  · exact hkinds kind hmem

namespace Config

theorem initial_eq (p : Predictor T N A) (input : List (InputToken T)) :
    initial p input =
      ⟨carrying none [.nonterminal p.start, .synthesized p.start, .endMarker], input, none⟩ := rfl

variable [DecidableEq T] [DecidableEq A] {p : Predictor T N A} {r : Registry A} {n : N}
  {w : Option Value} {kinds : List (CellKind T N A)} {input rest : List (InputToken T)}
  {token : InputToken T} {result : Option Value} {prediction : Prediction T N A}

theorem step_carrying_endMarker :
    step p r ⟨carrying w (.endMarker :: kinds), [], result⟩ =
      .running ⟨carrying none kinds, [], result⟩ := by
  rw [carrying_none]
  rfl

/-- A token hands its value over to the cell below. -/
theorem step_carrying_terminal (hvalue : token.value ≠ .unknown) (hkinds : kinds ≠ []) :
    step p r ⟨carrying w (.terminal token.terminal :: kinds), token :: rest, result⟩ =
      .running ⟨carrying token.value.known? kinds, rest, result⟩ := by
  obtain ⟨kind, kinds, rfl⟩ := List.exists_cons_of_ne_nil hkinds
  rw [carrying, step_terminal]
  cases h : token.value with
  | nothing =>
    simp only [matchToken, if_true, h]
    rfl
  | unknown => exact absurd h hvalue
  | known v =>
    simp only [matchToken, if_true, h, List.map_cons]
    rfl

/-- The value that a nonterminal carries is dropped. -/
theorem step_carrying_nonterminal
    (hpredict : p.predict n (nextTerminal? input) = some prediction)
    (hinherited : prediction.inherited = none) :
    step p r ⟨carrying w (.nonterminal n :: kinds), input, result⟩ =
      .running ⟨carrying none (kindsOf (expansion prediction.production) ++ kinds), input,
        result⟩ := by
  rw [carrying_none, List.map_append, map_new_kindsOf fun _ => values_of_mem_expansion]
  show expand p n _ = _
  have hnext : p.predict n (next? ⟨carrying w (.nonterminal n :: kinds), input, result⟩) =
    some prediction := hpredict
  cases w with
  | none =>
    rw [expand, hnext]
    rfl
  | some v =>
    rw [expand, hnext]
    simp only [pop, carrying, Option.toList_some, hinherited]

/-- The value that comes to the place of a nonterminal is the result. -/
theorem step_carrying_synthesized (hkinds : ∀ kind ∈ kinds, kind.isAction = false) :
    step p r ⟨carrying w (.synthesized n :: kinds), input, result⟩ =
      .running ⟨carrying none kinds, input, w.or result⟩ := by
  rw [carrying_none]
  cases w with
  | none => rfl
  | some v =>
    have hnew : ∀ cell ∈ kinds.map Cell.new, (cell : Cell T N A).kind.isAction = false := by
      intro cell hcell
      obtain ⟨kind, hkind, rfl⟩ := List.mem_map.1 hcell
      exact hkinds kind hkind
    show synthesize p n _ = _
    simp only [synthesize, pop, carrying, Option.toList_some, deliverTo_eq_none hnew]
    rfl

end Config
end ArithFrontEnd
