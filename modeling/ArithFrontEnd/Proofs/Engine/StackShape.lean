import ArithFrontEnd.Proofs.Engine.Moves

/-!
# The shape of the stack

The stack stands on the end marker, with the place of the start symbol above it, and every
nonterminal stands on its own place.  Every move keeps this, whatever is predicted: a right-hand
side that replaces a nonterminal brings a place for each of its nonterminals, and it is put on the
place of the one that is replaced.  The stack is taken down to the end marker, and the end marker
itself, only at the end.

So there is always a cell to be taken away, a value of a token always finds a cell, and an action
always finds a nonterminal below.  If predictions and actions do not fit together, it is because an
action has not been registered, because several values have come to one cell, or because a
prediction sends a value to where no cell is.

## Main definitions

* `StackShape` — what the cells of a stack expect.
* `Rooted`, `Sound` — the same by the cell on top, and together with the input.
* `Fault.OfStack` — the faults of a stack without its shape.
* `Misfit` — the faults that are left.

## Main results

* `Sound.of_move` — every move keeps the shape.
* `Sound.of_reachable` — so all configurations that are reached have it.
* `misfit_of_step` — **why a step may find that predictions and actions do not fit together.**
* `misfit_of_parse` — the same of a verdict, where the step limit comes in.
-/

namespace ArithFrontEnd

variable {T N A : Type} {start : N} {kinds kinds' : List (CellKind T N A)}
  {input input' : List (InputToken T)}

/-- The stack is empty, or the end marker is left, or the end marker is at the bottom and nowhere
else, with the place of the start symbol directly above it; and every nonterminal stands directly on
its own place. -/
structure StackShape (start : N) (kinds : List (CellKind T N A)) : Prop where
  /-- What the stack stands on. -/
  bottom : kinds = [] ∨ kinds = [.endMarker] ∨
    ∃ above, .endMarker ∉ above ∧ kinds = above ++ [.synthesized start, .endMarker]
  /-- What a nonterminal stands on. -/
  place {i : Nat} {n : N} (h : kinds[i]? = some (.nonterminal n)) :
    kinds[i + 1]? = some (.synthesized n)

/-! ### Stacks on the end marker -/

/-- The end marker is at the bottom with the place of the start symbol above it, and every
nonterminal stands on its own place. -/
inductive Rooted (start : N) : List (CellKind T N A) → Prop
  /-- The bottom of the stack. -/
  | root : Rooted start [.synthesized start, .endMarker]
  /-- A terminal may stand on anything. -/
  | terminal (t : T) {kinds : List (CellKind T N A)} (h : Rooted start kinds) :
      Rooted start (.terminal t :: kinds)
  /-- An action may stand on anything. -/
  | action (a : A) {kinds : List (CellKind T N A)} (h : Rooted start kinds) :
      Rooted start (.action a :: kinds)
  /-- The place of a nonterminal may stand on anything. -/
  | synthesized (n : N) {kinds : List (CellKind T N A)} (h : Rooted start kinds) :
      Rooted start (.synthesized n :: kinds)
  /-- A nonterminal stands on its place. -/
  | nonterminal (n : N) {kinds : List (CellKind T N A)}
      (h : Rooted start (.synthesized n :: kinds)) :
      Rooted start (.nonterminal n :: .synthesized n :: kinds)

namespace Rooted

/-- The cells of a right-hand side may stand on anything. -/
theorem expansion (h : Rooted start kinds) (production : List (Symbol T N A)) :
    Rooted start (kindsOf (expansion production) ++ kinds) := by
  induction production with
  | nil => exact h
  | cons s production ih =>
    rw [expansion_cons, kindsOf_append, List.append_assoc]
    cases s with
    | terminal t => exact .terminal t ih
    | nonterminal n => exact .nonterminal n (.synthesized n ih)
    | action a => exact .action a ih

/-- The place of the start symbol is there. -/
theorem any_isNonterminal (h : Rooted start kinds) : kinds.any CellKind.isNonterminal = true := by
  induction h with
  | root => rfl
  | terminal t h ih => exact ih
  | action a h ih => exact ih
  | synthesized n h ih => rfl
  | nonterminal n h ih => rfl

theorem exists_above (h : Rooted start kinds) :
    ∃ above, .endMarker ∉ above ∧ kinds = above ++ [.synthesized start, .endMarker] := by
  induction h with
  | root => exact ⟨[], List.not_mem_nil, rfl⟩
  | terminal t h ih =>
    obtain ⟨above, hnot, rfl⟩ := ih
    exact ⟨.terminal t :: above, by simpa using hnot, rfl⟩
  | action a h ih =>
    obtain ⟨above, hnot, rfl⟩ := ih
    exact ⟨.action a :: above, by simpa using hnot, rfl⟩
  | synthesized n h ih =>
    obtain ⟨above, hnot, rfl⟩ := ih
    exact ⟨.synthesized n :: above, by simpa using hnot, rfl⟩
  | nonterminal n h ih =>
    obtain ⟨above, hnot, heq⟩ := ih
    exact ⟨.nonterminal n :: above, by simpa using hnot, by rw [heq]; rfl⟩

theorem place (h : Rooted start kinds) {i : Nat} {n : N}
    (hi : kinds[i]? = some (.nonterminal n)) : kinds[i + 1]? = some (.synthesized n) := by
  induction h generalizing i with
  | root =>
    match i with
    | 0 => cases hi
    | 1 => cases hi
  | terminal t h ih | action a h ih | synthesized m h ih =>
    cases i with
    | zero => cases hi
    | succ i => exact ih hi
  | nonterminal m h ih =>
    cases i with
    | zero =>
      cases hi
      rfl
    | succ i => exact ih hi

end Rooted

/-! ### Sound stacks -/

/-- The stack has its shape, and nothing is left of the input when it is empty. -/
inductive Sound (start : N) : List (CellKind T N A) → List (InputToken T) → Prop
  /-- The stack is empty. -/
  | emptied : Sound start [] []
  /-- The end marker is left. -/
  | ending (input : List (InputToken T)) : Sound start [.endMarker] input
  /-- The stack stands on the end marker. -/
  | rooted {kinds : List (CellKind T N A)} (h : Rooted start kinds)
      (input : List (InputToken T)) : Sound start kinds input

namespace Sound

theorem stackShape (h : Sound start kinds input) : StackShape start kinds := by
  cases h with
  | emptied => exact ⟨Or.inl rfl, fun h => nomatch h⟩
  | ending =>
    refine ⟨Or.inr (Or.inl rfl), fun {i n} h => ?_⟩
    match i with
    | 0 => cases h
  | rooted h => exact ⟨Or.inr (Or.inr h.exists_above), h.place⟩

/-- Below a cell that expects a terminal or runs an action the stack stands on the end marker. -/
theorem rooted_of_cons {kind : CellKind T N A} (h : Sound start (kind :: kinds) input)
    (hkind : (∃ t, kind = .terminal t) ∨ ∃ a, kind = .action a) : Rooted start kinds := by
  cases h with
  | ending =>
    rcases hkind with ⟨t, ht⟩ | ⟨a, ha⟩
    · cases ht
    · cases ha
  | rooted h =>
    rcases hkind with ⟨t, rfl⟩ | ⟨a, rfl⟩
    · cases h with
      | terminal _ h => exact h
    · cases h with
      | action _ h => exact h

/-- Every move keeps the shape of the stack. -/
theorem of_move {p : Predictor T N A} (h : Sound p.start kinds input)
    (hmove : Move p kinds input kinds' input') : Sound p.start kinds' input' := by
  cases hmove with
  | finish =>
    cases h with
    | ending => exact .emptied
    | rooted h => cases h
  | matched _ _ _ => exact .rooted (h.rooted_of_cons (Or.inl ⟨_, rfl⟩)) _
  | @expanded n _ prediction _ _ =>
    cases h with
    | rooted h =>
      cases h with
      | nonterminal _ h => exact .rooted (h.expansion prediction.production) _
  | left n =>
    cases h with
    | rooted h =>
      cases h with
      | root => exact .ending _
      | synthesized _ h => exact .rooted h _
  | performed a => exact .rooted (h.rooted_of_cons (Or.inr ⟨a, rfl⟩)) _

end Sound

/-! ### Faults -/

section Faults

variable [DecidableEq A]

/-- The fault is that of a stack that has not its shape. -/
inductive Fault.OfStack : Fault → Prop
  /-- An action has no nonterminal below. -/
  | noRecipient (action : String) : OfStack (.noRecipient action)
  /-- The value of a token has no cell to go to. -/
  | noCellBelow : OfStack .noCellBelow
  /-- There is no cell to be taken away. -/
  | emptyStack : OfStack .emptyStack
  /-- Tokens are left when the stack is empty. -/
  | leftover (count : Nat) : OfStack (.leftover count)

/-- The fault is that of an action that has not been registered, of several values that have come to
one cell, or of a prediction that sends a value to where no cell is. -/
inductive Misfit (p : Predictor T N A) (r : Registry A) : Fault → Prop
  /-- An action has not been registered. -/
  | unregisteredAction {a : A} (h : r.find? a = none) :
      Misfit p r (.unregisteredAction (p.actionName a))
  /-- Several values have come to a nonterminal. -/
  | carriedValues (n : N) {count : Nat} (h : 2 ≤ count) :
      Misfit p r (.carriedValues (p.nonterminalName n) count)
  /-- Several values have come to the place of a nonterminal. -/
  | synthesizedValues (n : N) {count : Nat} (h : 2 ≤ count) :
      Misfit p r (.synthesizedValues (p.nonterminalName n) count)
  /-- The offset does not lead from the height of the nonterminal to that of a cell, when the
  right-hand side has been put on the cells below. -/
  | routedOutside {n : N} {next : Option T} {production : List (Symbol T N A)} {offset : Int}
      (below : Nat) (hpredict : p.predict n next = some ⟨production, some offset⟩)
      (h : ∀ height, Offset.height? below offset = some height →
        (expansion production).length + below ≤ height) :
      Misfit p r (.routedOutside (p.nonterminalName n) (Offset.toWord offset))

variable {p : Predictor T N A} {r : Registry A} {c c' : Config T N A} {f : Fault}
  {cell : Cell T N A} {below : List (Cell T N A)}

/-- The stack is not at fault. -/
theorem Misfit.not_ofStack (h : Misfit p r f) : ¬ f.OfStack := by
  intro hstack
  cases h <;> cases hstack

namespace Config

omit [DecidableEq A] in
/-- A terminal that is matched stands on a cell. -/
theorem matchToken_ne_internal [DecidableEq T] {t : T} (h : Rooted p.start (kindsOf below)) :
    c.matchToken p t below ≠ .rejected (.internal f) := by
  unfold matchToken
  split
  · simp
  · split
    · split
      · simp
      · simp
      · cases h
      · simp
    · simp

theorem misfit_of_expand {n : N} (hstack : c.stack = cell :: below)
    (h : c.expand p n = .rejected (.internal f)) : Misfit p r f := by
  unfold expand at h
  split at h
  · cases h
  · next prediction hpredict =>
    rw [pop_eq hstack] at h
    obtain ⟨kind, values⟩ := cell
    obtain ⟨production, inherited⟩ := prediction
    match values, inherited with
    | [], _ => cases h
    | [_], none => cases h
    | [v], some offset =>
      dsimp only at h
      split at h
      · cases h
      · next hdeliver =>
        cases h
        rw [deliverBy_eq_none_iff, List.length_append] at hdeliver
        exact .routedOutside below.length hpredict hdeliver
    | _ :: _ :: values, _ =>
      cases h
      exact .carriedValues n (by simp)

theorem misfit_of_synthesize {n : N} (hstack : c.stack = cell :: below)
    (h : c.synthesize p n = .rejected (.internal f)) : Misfit p r f := by
  rw [synthesize, pop_eq hstack] at h
  split at h
  · cases h
  · split at h <;> cases h
  · next hnil hone =>
    cases h
    refine .synthesizedValues n ?_
    rcases hvalues : cell.values with _ | ⟨v, _ | ⟨w, rest⟩⟩
    · exact absurd hvalues hnil
    · exact absurd hvalues (hone v)
    · simp

/-- An action that is run stands above a nonterminal or the place of one. -/
theorem misfit_of_perform {a : A} (hstack : c.stack = cell :: below)
    (hroot : Rooted p.start (kindsOf below)) (h : c.perform p r a = .rejected (.internal f)) :
    Misfit p r f := by
  unfold perform at h
  split at h
  · next hfind =>
    cases h
    exact .unregisteredAction hfind
  · rw [pop_eq hstack] at h
    split at h
    · split at h <;> cases h
    · next hnone =>
      refine absurd ?_ hnone
      have hany := hroot.any_isNonterminal
      rwa [kindsOf, List.any_map] at hany

variable [DecidableEq T]

/-- Why a step may find that predictions and actions do not fit together. -/
theorem misfit_of_step (hc : Sound p.start (kindsOf c.stack) c.input)
    (h : c.step p r = .rejected (.internal f)) : Misfit p r f := by
  unfold step at h
  split at h
  · next hstack =>
    rw [hstack, kindsOf_nil] at hc
    -- nothing is left of the input
    generalize hinput : c.input = input at hc h
    cases hc with
    | emptied => cases h
    | rooted hroot => cases hroot
  · next cell below hcells =>
    rw [hcells, kindsOf_cons] at hc
    split at h
    · unfold atEnd at h
      split at h <;> cases h
    · next t hkind =>
      exact absurd h (matchToken_ne_internal (hc.rooted_of_cons (Or.inl ⟨t, hkind⟩)))
    · exact misfit_of_expand hcells h
    · exact misfit_of_synthesize hcells h
    · next a hkind => exact misfit_of_perform hcells (hc.rooted_of_cons (Or.inr ⟨a, hkind⟩)) h

end Config

/-! ### Parses -/

variable [DecidableEq T]

omit [DecidableEq A] [DecidableEq T] in
theorem Sound.initial (p : Predictor T N A) (input : List (InputToken T)) :
    Sound p.start (kindsOf (Config.initial p input).stack) (Config.initial p input).input :=
  .rooted (.nonterminal p.start .root) input

theorem Sound.of_step (h : Sound p.start (kindsOf c.stack) c.input)
    (hstep : c.step p r = .running c') : Sound p.start (kindsOf c'.stack) c'.input :=
  h.of_move (Config.move_of_step hstep)

/-- All configurations that a parse passes through are sound. -/
theorem Sound.of_reachable (h : Config.Reachable p r input c) :
    Sound p.start (kindsOf c.stack) c.input := by
  induction h with
  | initial => exact .initial p input
  | step before goes ih => exact ih.of_step goes

/-- Why a parse may find that predictions and actions do not fit together, if it is not that the
predictions lead in circles. -/
theorem misfit_of_parse (h : parse p r input = .error (.internal f)) :
    Misfit p r f ∨ f = .stepLimit (p.stepLimit input.length) := by
  dsimp only [parse] at h
  split at h
  · next v hrun =>
    obtain ⟨c, hc, hverdict⟩ := Config.exists_step_of_run
      (P := fun c => Sound p.start (kindsOf c.stack) c.input)
      (fun _ _ hc hstep => hc.of_step hstep) (.initial p input) hrun
    rw [h, Progress.verdict?_eq_error_iff] at hverdict
    exact Or.inl (Config.misfit_of_step hc hverdict)
  · cases h
    exact Or.inr rfl

end Faults

end ArithFrontEnd
