import ArithFrontEnd.Engine.Step

/-!
# Runs of a predictive parser

A run makes steps until the input is accepted or rejected. The number of steps is limited, because
predictions may lead in circles; the limit is far above what a table without conflicts needs.

## Main definitions

* `Config.run` — the verdict within a number of steps.
* `Config.Reachable` — the configurations that a parse passes through.
* `parse` — the verdict on an input.

## Main results

* `Config.run_mono` — **a verdict does not depend on how many steps are allowed after it.**
-/

namespace ArithFrontEnd

variable {T N A : Type} [DecidableEq T] [DecidableEq A]

/-- The verdict on an input: the value of the start symbol, if it has one, or why the input is
rejected. -/
abbrev Verdict := Except ParseError (Option Value)

namespace Config

/-- The verdict that is reached within a number of steps. -/
def run (p : Predictor T N A) (r : Registry A) : Nat → Config T N A → Option Verdict
  | 0, _ => none
  | steps + 1, c =>
    match c.step p r with
    | .running c => run p r steps c
    | .accepted result => some (.ok result)
    | .rejected e => some (.error e)

/-- The configurations that a parse passes through. -/
inductive Reachable (p : Predictor T N A) (r : Registry A) (input : List (InputToken T)) :
    Config T N A → Prop
  /-- The parse starts with its first configuration. -/
  | initial : Reachable p r input (.initial p input)
  /-- The parse goes on by steps. -/
  | step {c next : Config T N A} (before : Reachable p r input c)
      (goes : c.step p r = .running next) : Reachable p r input next

/-- Allowing more steps does not change a verdict. -/
theorem run_mono {p : Predictor T N A} {r : Registry A} {m n : Nat} {c : Config T N A}
    {v : Verdict} (le : m ≤ n) (h : c.run p r m = some v) : c.run p r n = some v := by
  induction m generalizing n c with
  | zero => simp [run] at h
  | succ m ih =>
    cases n with
    | zero => omega
    | succ n =>
      unfold run at h ⊢
      split <;> simp_all

end Config

/-- The verdict on an input. -/
def parse (p : Predictor T N A) (r : Registry A) (input : List (InputToken T)) : Verdict :=
  let steps := p.stepLimit input.length
  match (Config.initial p input).run p r steps with
  | some verdict => verdict
  | none => .error (.internal (.stepLimit steps))

end ArithFrontEnd
