import ArithFrontEnd.Log

/-!
# Passes up to a fixed point

A pass is a function on states. Passes are made one after another until one changes nothing, or
until as many have been made as are allowed.

## Main definitions

* `passes` — the states after the passes that are made.
* `settle` — the last of these states.
* `passEvents` — what the log shows of the passes.

## Main results

* `length_passes_le` — no more passes are made than allowed.
* `settle_induction` — **what a pass keeps holds where passes settle.**
-/

namespace ArithFrontEnd.Analysis

variable {α : Type} [DecidableEq α]

/-- The states after the passes `f` that are made from `x`: at most `bound`, and none after a pass
that changes nothing. -/
def passes (f : α → α) : Nat → α → List α
  | 0, _ => []
  | bound + 1, x => if f x = x then [f x] else f x :: passes f bound (f x)

/-- The state after the last pass. -/
def settle (f : α → α) (bound : Nat) (x : α) : α := (passes f bound x).getLastD x

/-- What the log shows of passes, given the state before the first one: whether each has changed
something. -/
def passEvents (label : String) (number : Nat) (x : α) : List α → List Log.Event
  | [] => []
  | y :: ys =>
    let changed := decide (y ≠ x)
    ⟨.trace, s!"{label}: pass {number} (changed = {changed})"⟩ ::
      passEvents label (number + 1) y ys

theorem length_passes_le (f : α → α) (bound : Nat) (x : α) : (passes f bound x).length ≤ bound := by
  induction bound generalizing x with
  | zero => simp [passes]
  | succ bound ih =>
    unfold passes
    split
    · simp
    · simpa using ih (f x)

@[simp] theorem settle_zero (f : α → α) (x : α) : settle f 0 x = x := rfl

theorem settle_succ (f : α → α) (bound : Nat) (x : α) :
    settle f (bound + 1) x = if f x = x then x else settle f bound (f x) := by
  unfold settle
  rw [passes]
  split
  · next h => simpa using h
  · cases passes f bound (f x) <;> rfl

/-- The state that passes settle at has every property that holds at the start and that a pass
keeps. -/
theorem settle_induction {f : α → α} {P : α → Prop} (step : ∀ x, P x → P (f x)) (bound : Nat)
    {x : α} (start : P x) : P (settle f bound x) := by
  induction bound generalizing x with
  | zero => exact start
  | succ bound ih =>
    rw [settle_succ]
    split
    · exact start
    · exact ih (step x start)

end ArithFrontEnd.Analysis
