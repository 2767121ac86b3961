import ArithFrontEnd.Proofs.Engine.Verdicts

/-!
# Attributes and syntax

A parser can be run without attributes: without the actions of right-hand sides, without places for
inherited values and on tokens without values.  A move of the parser is then the same move of the
parser without attributes, or the running of an action, of which nothing is left.  So attributes
never decide which tokens are accepted.  They can only end a parse before its verdict on the syntax.

## Main definitions

* `plainConfig` — what is left of cells and input without attributes.
* `Verdict.plain?` — what is known of the verdict without attributes.
* `AgreeOnSyntax` — two ways of judging an input that differ in attributes only.

## Main results

* `plain_of_move`, `step_plain_of_refuses` — the parsers move and refuse tokens together.
* `run_plain` — **a verdict on the syntax is the verdict without attributes.**
* `exists_gives_of_plain` — where the parser without attributes stops, the other one stops too.
* `agreeOnSyntax_erase` — both directions, for runs of any length and up to the step limit.
-/

namespace ArithFrontEnd

variable {T N A : Type}

/-! ### Cells and input without attributes -/

/-- What is left of cells and input without attributes: the cells that run no action, without
values, and the tokens without values. -/
def plainConfig (kinds : List (CellKind T N A)) (input : List (InputToken T)) : Config T N A :=
  ⟨(kinds.filter (!·.isAction)).map .new, input.map .erase, none⟩

theorem plainConfig_cons {kind : CellKind T N A} (h : kind.isAction = false)
    (kinds : List (CellKind T N A)) (input : List (InputToken T)) :
    plainConfig (kind :: kinds) input =
      ⟨.new kind :: (plainConfig kinds input).stack, input.map .erase, none⟩ := by
  simp [plainConfig, h]

theorem plainConfig_action (a : A) (kinds : List (CellKind T N A)) (input : List (InputToken T)) :
    plainConfig (.action a :: kinds) input = plainConfig kinds input := rfl

/-- The cells of a right-hand side without attributes are those of its symbols without actions. -/
theorem plain_expansion (production : List (Symbol T N A)) :
    ((kindsOf (expansion production)).filter (!·.isAction)).map Cell.new =
      expansion (production.filter (!·.isAction)) := by
  induction production with
  | nil => rfl
  | cons s production ih =>
    rw [expansion_cons, kindsOf_append, List.filter_append, List.map_append, ih]
    cases s <;> rfl

theorem predict_erase (p : Predictor T N A) (n : N) (t : Option T) :
    p.erase.predict n t = (p.predict n t).map fun prediction =>
      ⟨prediction.production.filter (!·.isAction), none⟩ := rfl

theorem nextTerminal?_erase (input : List (InputToken T)) :
    nextTerminal? (input.map .erase) = nextTerminal? input := by
  cases input <;> rfl

theorem shownNext_erase (p : Predictor T N A) (input : List (InputToken T)) :
    p.erase.shownNext (input.map .erase) = p.shownNext input := by
  cases input <;> rfl

/-! ### Steps -/

variable [DecidableEq T] [DecidableEq A] {p : Predictor T N A}
  {kinds kinds' : List (CellKind T N A)} {input input' : List (InputToken T)}

/-- A move is a step without attributes, unless it runs an action; then nothing changes but that
there is one cell less. -/
theorem plain_of_move (h : Move p kinds input kinds' input') :
    (plainConfig kinds input).step p.erase .empty = .running (plainConfig kinds' input') ∨
      plainConfig kinds' input' = plainConfig kinds input ∧ kinds'.length < kinds.length := by
  cases h with
  | finish => exact Or.inl rfl
  | left n => exact Or.inl rfl
  | performed a => exact Or.inr ⟨(plainConfig_action a _ _).symm, Nat.lt_succ_self _⟩
  | @matched t token _ _ hterminal =>
    have herase : token.erase.terminal = t := hterminal
    refine Or.inl ?_
    rw [plainConfig_cons rfl]
    exact Config.step_matched herase rfl
  | @expanded n _ prediction below hpredict =>
    have hplain : p.erase.predict n (nextTerminal? (input.map .erase)) =
        some ⟨prediction.production.filter (!·.isAction), none⟩ := by
      rw [nextTerminal?_erase, predict_erase, hpredict]
      rfl
    refine Or.inl ?_
    rw [plainConfig_cons rfl]
    refine (Config.step_expanded hplain).trans ?_
    simp only [plainConfig, List.filter_append, List.map_append, plain_expansion]

/-- Where tokens are refused, they are rejected without attributes for the same reason. -/
theorem step_plain_of_refuses {e : ParseError} (h : Refuses p kinds input e) :
    (plainConfig kinds input).step p.erase .empty = .rejected e := by
  cases h with
  | leftover => rfl
  | @mismatched t _ _ hne =>
    rw [plainConfig_cons rfl, ← shownNext_erase]
    exact Config.step_mismatched (by rwa [nextTerminal?_erase])
  | @unpredicted n _ _ hnone =>
    have hplain : p.erase.predict n (nextTerminal? (input.map .erase)) = none := by
      rw [nextTerminal?_erase, predict_erase, hnone]
      rfl
    rw [plainConfig_cons rfl, ← shownNext_erase]
    exact Config.step_unpredicted hplain

/-! ### Runs -/

/-- What is known of the verdict without attributes: it is the same on the syntax, but has no value.
Where the values are at fault, or the predictions and actions, nothing is known. -/
def Verdict.plain? : Verdict → Option Verdict
  | .ok _ => some (.ok none)
  | .error e => if e.category = .syntactic then some (.error e) else none

variable {r : Registry A} {v w : Verdict}

/-- A verdict on the syntax is the verdict without attributes, in no more steps. -/
theorem run_plain {steps : Nat} {c : Config T N A} (h : c.run p r steps = some v)
    (hplain : v.plain? = some w) :
    (plainConfig (kindsOf c.stack) c.input).run p.erase .empty steps = some w := by
  induction steps generalizing c with
  | zero => cases h
  | succ steps ih =>
    rw [Config.run] at h
    cases hstep : c.step p r with
    | running c' =>
      rw [hstep] at h
      rcases plain_of_move (Config.move_of_step hstep) with hgoes | ⟨hsame, -⟩
      · rw [Config.run, hgoes]
        exact ih h
      · exact Config.run_mono (Nat.le_succ steps) (hsame ▸ ih h)
    | accepted result =>
      rw [hstep] at h
      obtain ⟨hstack, hinput⟩ := Config.eq_nil_of_accepted hstep
      obtain rfl := Option.some.inj h
      obtain rfl := Option.some.inj hplain
      rw [hstack, hinput]
      rfl
    | rejected e =>
      rw [hstep] at h
      obtain rfl := Option.some.inj h
      rw [Verdict.plain?] at hplain
      split at hplain
      · next hcategory =>
        obtain rfl := Option.some.inj hplain
        rw [Config.run, step_plain_of_refuses (Config.refuses_of_step hstep hcategory)]
      · cases hplain

/-- Where the parser without attributes stops, the other one stops too. -/
theorem exists_gives_of_plain {steps : Nat} {c : Config T N A}
    (h : (plainConfig (kindsOf c.stack) c.input).run p.erase .empty steps = some w) :
    ∃ v, c.Gives p r v := by
  induction steps generalizing c with
  | zero => cases h
  | succ steps ihsteps =>
    -- a step either is one without attributes, or there is one cell less
    induction hlength : (kindsOf c.stack).length using Nat.strongRecOn generalizing c with
    | ind length ihlength =>
      subst hlength
      cases hstep : c.step p r with
      | running c' =>
        rcases plain_of_move (Config.move_of_step hstep) with hgoes | ⟨hsame, hlt⟩
        · rw [Config.run, hgoes] at h
          obtain ⟨v, hv⟩ := ihsteps h
          exact ⟨v, .of_running hstep hv⟩
        · obtain ⟨v, hv⟩ := ihlength _ hlt (hsame ▸ h) rfl
          exact ⟨v, .of_running hstep hv⟩
      | accepted result => exact ⟨_, .of_accepted hstep⟩
      | rejected e => exact ⟨_, .of_rejected hstep⟩

/-! ### Two ways of judging an input -/

/-- Two ways of judging an input agree on the syntax, if the second one judges it without attributes
and accepts it with `answer`.  What the first one accepts is accepted by the second one, and tokens
that it rejects are rejected by the second one for the same reason.  The other way round the first
one judges as the second one does, unless values or actions are at fault. -/
structure AgreeOnSyntax {α β : Type} (answer : β) (full : Except ParseError α → Prop)
    (plain : Except ParseError β → Prop) : Prop where
  /-- What is accepted with attributes is accepted without them. -/
  accepted {a : α} (h : full (.ok a)) : plain (.ok answer)
  /-- Tokens that are rejected with attributes are rejected without them for the same reason. -/
  rejected {e : ParseError} (h : full (.error e)) (hcategory : e.category = .syntactic) :
    plain (.error e)
  /-- What is accepted without attributes is accepted with them, or an error lies in them. -/
  of_accepted {b : β} (h : plain (.ok b)) :
    (∃ a, full (.ok a)) ∨ ∃ e, full (.error e) ∧ e.category ≠ .syntactic
  /-- Tokens that are rejected without attributes are rejected with them for the same reason, or an
  error lies in the attributes. -/
  of_rejected {e : ParseError} (h : plain (.error e)) (hcategory : e.category = .syntactic) :
    full (.error e) ∨ ∃ e', full (.error e') ∧ e'.category ≠ .syntactic

/-- The second way only has to follow the first one: if both come to a verdict on the same inputs,
and the second one to a single verdict, it leads back to the first one. -/
theorem agreeOnSyntax_of_plain {full plain : Verdict → Prop}
    (hplain : ∀ {v w}, full v → v.plain? = some w → plain w)
    (hunique : ∀ {w w'}, plain w → plain w' → w = w')
    (hfull : ∀ {w}, plain w → ∃ v, full v) : AgreeOnSyntax none full plain := by
  have hrejected : ∀ {e : ParseError}, full (.error e) → e.category = .syntactic →
      plain (.error e) := fun h hcategory => hplain h (if_pos hcategory)
  refine ⟨fun h => hplain h rfl, hrejected, fun {b} h => ?_, fun {e} h hcategory => ?_⟩
  · obtain ⟨v, hv⟩ := hfull h
    cases v with
    | ok a => exact Or.inl ⟨a, hv⟩
    | error e =>
      exact Or.inr ⟨e, hv, fun hcategory => nomatch hunique h (hrejected hv hcategory)⟩
  · obtain ⟨v, hv⟩ := hfull h
    cases v with
    | ok a => exact nomatch hunique h (hplain hv rfl)
    | error e' =>
      by_cases hcategory' : e'.category = .syntactic
      · exact Or.inl (Except.error.inj (hunique h (hrejected hv hcategory')) ▸ hv)
      · exact Or.inr ⟨e', hv, hcategory'⟩

/-- Attributes do not change the verdict on the syntax.  This holds of runs of any length, and of
parses, which end at the step limit. -/
theorem agreeOnSyntax_erase (p : Predictor T N A) (r : Registry A) (input : List (InputToken T)) :
    AgreeOnSyntax none ((Config.initial p input).Gives p r)
        ((Config.initial p.erase (input.map .erase)).Gives p.erase .empty) ∧
      AgreeOnSyntax none (parse p r input = ·) (parse p.erase .empty (input.map .erase) = ·) := by
  constructor
  · refine agreeOnSyntax_of_plain ?_ Config.Gives.unique ?_
    · rintro v w ⟨steps, hsteps⟩ hplain
      exact ⟨steps, run_plain hsteps hplain⟩
    · rintro w ⟨steps, hsteps⟩
      exact exists_gives_of_plain (c := .initial p input) hsteps
  · refine agreeOnSyntax_of_plain ?_ (fun h h' => h.symm.trans h') fun _ => ⟨_, rfl⟩
    rintro v w rfl hplain
    dsimp only [parse] at hplain ⊢
    rw [List.length_map]
    split at hplain
    · next v hv =>
      have hrun := run_plain hv hplain
      rw [show (Config.initial p.erase (input.map .erase)).run p.erase .empty
        (p.erase.stepLimit input.length) = some w from hrun]
    · cases hplain

end ArithFrontEnd
