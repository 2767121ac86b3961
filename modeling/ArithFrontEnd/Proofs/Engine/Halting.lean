import ArithFrontEnd.Proofs.Engine.Moves
import Mathlib.Data.List.Nodup
import Mathlib.Logic.Relation
import Mathlib.Tactic.Linarith

/-!
# Parsers that stop

While the same token comes next, a nonterminal is replaced by symbols of which the first ones may
vanish, and so leads to other nonterminals.  If none leads back to itself, the nonterminals on the
way to the one that is expanded are all different, which bounds how deep expansions can go.  The
moves that are made before the next token is matched are bounded by that depth, and the cells that
are left then by what is pushed on the way down.

## Main definitions

* `Vanishes`, `Leads` — what is read without matching a token, and the nonterminals that come next.
* `Ends` — the number of moves that are left is bounded.
* `expansionCost` — a bound for the moves of one cell.

## Main results

* `ends_nonterminal` — the moves of a nonterminal, as long as nothing is matched.
* `ends` — a bound for all moves.
* `run_of_acyclic` — **where no nonterminal leads back to itself, the step limit is enough.**
-/

namespace ArithFrontEnd

variable {T N A : Type} {p : Predictor T N A}

/-- The symbols are read without matching a token, when this comes next. -/
inductive Vanishes (p : Predictor T N A) (t : Option T) : List (Symbol T N A) → Prop
  /-- There are no symbols. -/
  | nil : Vanishes p t []
  /-- An action matches nothing. -/
  | action (a : A) {w : List (Symbol T N A)} (rest : Vanishes p t w) : Vanishes p t (.action a :: w)
  /-- What a nonterminal is replaced by vanishes. -/
  | nonterminal {n : N} {prediction : Prediction T N A} {w : List (Symbol T N A)}
      (found : p.predict n t = some prediction) (first : Vanishes p t prediction.production)
      (rest : Vanishes p t w) : Vanishes p t (.nonterminal n :: w)

/-- When this comes next, the first nonterminal is replaced by symbols of which those before the
second one vanish. -/
def Leads (p : Predictor T N A) (t : Option T) (n m : N) : Prop :=
  ∃ prediction before after, p.predict n t = some prediction ∧
    prediction.production = before ++ .nonterminal m :: after ∧ Vanishes p t before

theorem Vanishes.append {t : Option T} {u v : List (Symbol T N A)} (hu : Vanishes p t u)
    (hv : Vanishes p t v) : Vanishes p t (u ++ v) := by
  induction hu with
  | nil => exact hv
  | action a _ ih => exact .action a ih
  | nonterminal found first _ _ ih => exact .nonterminal found first ih

/-! ### Bounded moves -/

/-- At most this many moves can be made. -/
def Ends (p : Predictor T N A) : Nat → List (CellKind T N A) → List (InputToken T) → Prop
  | 0, kinds, input => ∀ kinds' input', ¬ Move p kinds input kinds' input'
  | k + 1, kinds, input =>
    ∀ kinds' input', Move p kinds input kinds' input' → Ends p k kinds' input'

theorem Ends.succ {k : Nat} {kinds : List (CellKind T N A)} {input : List (InputToken T)}
    (h : Ends p k kinds input) : Ends p (k + 1) kinds input := by
  induction k generalizing kinds input with
  | zero => exact fun kinds' input' hmove => absurd hmove (h kinds' input')
  | succ k ih => exact fun kinds' input' hmove => ih (h kinds' input' hmove)

theorem Ends.mono {k l : Nat} {kinds : List (CellKind T N A)} {input : List (InputToken T)}
    (h : Ends p k kinds input) (hle : k ≤ l) : Ends p l kinds input := by
  induction hle with
  | refl => exact h
  | step _ ih => exact ih.succ

theorem ends_nil (k : Nat) (input : List (InputToken T)) : Ends p k [] input := by
  have hzero : Ends p 0 [] input := by
    intro kinds' input' hmove
    cases hmove
  exact hzero.mono (Nat.zero_le k)

/-- After a cell that expects the end comes what is below it. -/
theorem ends_endMarker {k : Nat} {below : List (CellKind T N A)} {input : List (InputToken T)}
    (h : Ends p k below input) : Ends p (k + 1) (.endMarker :: below) input := by
  intro kinds' input' hmove
  cases hmove
  exact h

/-- After a terminal comes what is below it, with less input. -/
theorem ends_terminal {k : Nat} {t : T} {below : List (CellKind T N A)}
    {input : List (InputToken T)} (h : ∀ token rest, input = token :: rest → Ends p k below rest) :
    Ends p (k + 1) (.terminal t :: below) input := by
  intro kinds' input' hmove
  cases hmove
  exact h _ _ rfl

theorem ends_synthesized {k : Nat} {n : N} {below : List (CellKind T N A)}
    {input : List (InputToken T)} (h : Ends p k below input) :
    Ends p (k + 1) (.synthesized n :: below) input := by
  intro kinds' input' hmove
  cases hmove
  exact h

theorem ends_action {k : Nat} {a : A} {below : List (CellKind T N A)}
    {input : List (InputToken T)} (h : Ends p k below input) :
    Ends p (k + 1) (.action a :: below) input := by
  intro kinds' input' hmove
  cases hmove
  exact h

/-- Replacing a nonterminal is one move. -/
theorem ends_expanded {k : Nat} {n : N} {below : List (CellKind T N A)}
    {input : List (InputToken T)}
    (h : ∀ prediction, p.predict n (nextTerminal? input) = some prediction →
      Ends p k (kindsOf (expansion prediction.production) ++ below) input) :
    Ends p (k + 1) (.nonterminal n :: below) input := by
  intro kinds' input' hmove
  cases hmove with
  | expanded _ hpredict => exact h _ hpredict

/-! ### The moves of one cell -/

/-- A bound for the moves of a nonterminal before the next token is matched, if right-hand sides
have at most `width` symbols and expansions are at most `depth` deep. -/
def expansionCost (width : Nat) : Nat → Nat
  | 0 => 0
  | depth + 1 => width * (expansionCost width depth + 1) + 1

theorem expansionCost_lt (width depth : Nat) : expansionCost width depth < (width + 2) ^ depth := by
  induction depth with
  | zero => simp [expansionCost]
  | succ depth ih =>
    have hmul : width * (expansionCost width depth + 1) ≤ width * (width + 2) ^ depth :=
      Nat.mul_le_mul_left width ih
    have hpow : (width + 2) ^ (depth + 1) =
        width * (width + 2) ^ depth + 2 * (width + 2) ^ depth := by
      rw [Nat.pow_succ, Nat.mul_comm, Nat.add_mul]
    rw [expansionCost, hpow]
    omega

/-- What is known of a nonterminal that comes next at some depth: its moves are bounded if what
comes after it is, both if it vanishes and if a token is matched while some cells of it are left. -/
def Bounded (p : Predictor T N A) (width depth : Nat) (input : List (InputToken T)) (n : N) :
    Prop :=
  ∀ (k : Nat) (below : List (CellKind T N A)),
    (Vanishes p (nextTerminal? input) [.nonterminal n] → Ends p k below input) →
    (∀ token rest, input = token :: rest → ∀ top : List (CellKind T N A),
      top.length ≤ 2 * width * depth → Ends p k (top ++ below) rest) →
    Ends p (expansionCost width depth + k) (.nonterminal n :: below) input

/-- The moves of symbols in a row, of which the nonterminals that come next are bounded. -/
theorem ends_symbols (width depth : Nat) {input : List (InputToken T)} (w : List (Symbol T N A))
    (hbounded : ∀ before m after, w = before ++ .nonterminal m :: after →
      Vanishes p (nextTerminal? input) before → Bounded p width depth input m)
    {k : Nat} {below : List (CellKind T N A)}
    (hvanish : Vanishes p (nextTerminal? input) w → Ends p k below input)
    (hmatch : ∀ token rest, input = token :: rest → ∀ top : List (CellKind T N A),
      top.length ≤ 2 * width * depth + 2 * w.length → Ends p k (top ++ below) rest) :
    Ends p (w.length * (expansionCost width depth + 1) + k) (kindsOf (expansion w) ++ below)
      input := by
  induction w generalizing k below with
  | nil => exact (hvanish .nil).mono (by omega)
  | cons s w ih =>
    rw [expansion_cons, List.length_cons, Nat.succ_mul]
    have hcells : (kindsOf (expansion w)).length ≤ 2 * w.length := by
      rw [kindsOf, List.length_map]
      exact length_expansion_le w
    have hshorter : ∀ token rest, input = token :: rest → ∀ top : List (CellKind T N A),
        top.length ≤ 2 * width * depth + 2 * w.length → Ends p k (top ++ below) rest :=
      fun token rest hinput top htop =>
        hmatch token rest hinput top (Nat.le_trans htop (by rw [List.length_cons]; omega))
    cases s with
    | terminal u =>
      -- a token is matched, and the cells of the symbols after it are left
      have hends : Ends p (k + 1) (.terminal u :: (kindsOf (expansion w) ++ below)) input :=
        ends_terminal fun token rest hinput => hshorter token rest hinput _ (by omega)
      exact hends.mono (by omega)
    | action a =>
      have hrest : Ends p (w.length * (expansionCost width depth + 1) + k)
          (kindsOf (expansion w) ++ below) input := by
        refine ih (fun before m after hw hbefore => ?_) (fun hw => ?_) hshorter
        · exact hbounded (.action a :: before) m after (by rw [hw]; rfl) (.action a hbefore)
        · exact hvanish (.action a hw)
      have hends : Ends p _ (.action a :: (kindsOf (expansion w) ++ below)) input :=
        ends_action hrest
      exact hends.mono (by omega)
    | nonterminal m =>
      have hm := hbounded [] m w rfl .nil
      -- what is below the nonterminal is reached only if the nonterminal vanishes
      have hafter : Vanishes p (nextTerminal? input) [.nonterminal m] →
          Ends p (w.length * (expansionCost width depth + 1) + k + 1)
            (.synthesized m :: (kindsOf (expansion w) ++ below)) input := by
        intro hm
        refine ends_synthesized (ih (fun before m' after hw hbefore => ?_) (fun hw => ?_) hshorter)
        · exact hbounded (.nonterminal m :: before) m' after (by rw [hw]; rfl) (hm.append hbefore)
        · exact hvanish (hm.append hw)
      refine (hm _ _ hafter fun token rest hinput top htop => ?_).mono (by omega)
      have hlength : (top ++ .synthesized m :: kindsOf (expansion w)).length ≤
          2 * width * depth + 2 * (w.length + 1) := by
        rw [List.length_append, List.length_cons]
        omega
      have hends :=
        hmatch token rest hinput (top ++ .synthesized m :: kindsOf (expansion w)) hlength
      rw [List.append_assoc] at hends
      exact hends.mono (by omega)

/-- A bound for the moves of a nonterminal, given nonterminals on the way to it that are all
different. -/
theorem ends_nonterminal {width : Nat} {nonterminals : List N} {input : List (InputToken T)}
    (hfinite : ∀ n, p.predict n (nextTerminal? input) ≠ none → n ∈ nonterminals)
    (hwidth : ∀ n prediction, p.predict n (nextTerminal? input) = some prediction →
      prediction.production.length ≤ width)
    (hacyclic : ∀ n, ¬ Relation.TransGen (Leads p (nextTerminal? input)) n n)
    (depth : Nat) (way : List N) (n : N) (hnodup : way.Nodup) (hway : way ⊆ nonterminals)
    (hleads : ∀ m ∈ way, Relation.TransGen (Leads p (nextTerminal? input)) m n)
    (hdepth : nonterminals.length ≤ way.length + depth) : Bounded p width depth input n := by
  -- a nonterminal that can be expanded is new on the way, because none leads back to itself
  have hextend : ∀ {way : List N} {n : N}, way.Nodup → way ⊆ nonterminals →
      (∀ m ∈ way, Relation.TransGen (Leads p (nextTerminal? input)) m n) →
      p.predict n (nextTerminal? input) ≠ none →
      (n :: way).Nodup ∧ n :: way ⊆ nonterminals := by
    intro way n hnodup hway hleads hsome
    have hnew : n ∉ way := fun hmem => hacyclic n (hleads n hmem)
    exact ⟨List.nodup_cons.2 ⟨hnew, hnodup⟩, List.cons_subset.2 ⟨hfinite n hsome, hway⟩⟩
  induction depth generalizing way n with
  | zero =>
    -- the way is as long as it can be, so that no other nonterminal is expanded
    intro k below _ _
    have hnone : p.predict n (nextTerminal? input) = none := by
      by_contra hsome
      obtain ⟨hnodup', hway'⟩ := hextend hnodup hway hleads hsome
      have hlength := hnodup'.length_le_of_subset hway'
      rw [List.length_cons] at hlength
      omega
    have hends : Ends p 0 (.nonterminal n :: below) input := by
      intro kinds' input' hmove
      cases hmove with
      | expanded _ hpredict => rw [hnone] at hpredict; cases hpredict
    exact hends.mono (Nat.zero_le _)
  | succ depth ih =>
    intro k below hvanish hmatch
    have hexpanded : ∀ prediction, p.predict n (nextTerminal? input) = some prediction →
        Ends p (width * (expansionCost width depth + 1) + k)
          (kindsOf (expansion prediction.production) ++ below) input := by
      intro prediction hpredict
      have hlength := hwidth n prediction hpredict
      obtain ⟨hnodup', hway'⟩ := hextend hnodup hway hleads (by rw [hpredict]; simp)
      have hbounded : ∀ before m after,
          prediction.production = before ++ .nonterminal m :: after →
          Vanishes p (nextTerminal? input) before → Bounded p width depth input m := by
        intro before m after hproduction hbefore
        have hm : Leads p (nextTerminal? input) n m :=
          ⟨prediction, before, after, hpredict, hproduction, hbefore⟩
        refine ih (n :: way) m hnodup' hway' (fun m' hm' => ?_) ?_
        · rcases List.mem_cons.1 hm' with rfl | hmem
          · exact .single hm
          · exact (hleads m' hmem).tail hm
        · rw [List.length_cons]
          omega
      have hends := ends_symbols width depth prediction.production hbounded
        (fun hvanishes => hvanish (.nonterminal hpredict hvanishes .nil))
        (fun token rest hinput top htop => hmatch token rest hinput top (by
          rw [Nat.mul_succ]
          omega))
      exact hends.mono (Nat.add_le_add_right (Nat.mul_le_mul_right _ hlength) k)
    have hends := ends_expanded hexpanded
    rw [expansionCost]
    exact hends.mono (by omega)

/-! ### All moves -/

/-- The predictor expands these nonterminals only, by right-hand sides of at most this width, and no
nonterminal leads back to itself. -/
structure Predictor.Acyclic (p : Predictor T N A) (nonterminals : List N) (width : Nat) : Prop where
  /-- Only these nonterminals are expanded. -/
  finite {n : N} {t : Option T} (h : p.predict n t ≠ none) : n ∈ nonterminals
  /-- Right-hand sides have at most this width. -/
  width_le {n : N} {t : Option T} {prediction : Prediction T N A}
    (h : p.predict n t = some prediction) : prediction.production.length ≤ width
  /-- No nonterminal leads back to itself while the same token comes next. -/
  acyclic (t : Option T) (n : N) : ¬ Relation.TransGen (Leads p t) n n

/-- A bound for the moves that are left: each cell costs what a nonterminal costs, and each token
the cells that can be pushed before it is matched. -/
theorem ends {nonterminals : List N} {width : Nat} (hp : p.Acyclic nonterminals width)
    (kinds : List (CellKind T N A)) (input : List (InputToken T)) :
    Ends p (kinds.length * (expansionCost width nonterminals.length + 1) +
      input.length * (2 * width * nonterminals.length *
        (expansionCost width nonterminals.length + 1) + 1)) kinds input := by
  generalize hcost : expansionCost width nonterminals.length = cost
  generalize hpushed : 2 * width * nonterminals.length = pushed
  -- by induction on the tokens that are left, and on the cells as long as none is matched
  induction hinput : input.length using Nat.strongRecOn generalizing kinds input with
  | ind tokens ihtokens =>
  subst hinput
  have hmatched : ∀ (k : Nat) (below : List (CellKind T N A)) (token : InputToken T)
      (rest : List (InputToken T)), input = token :: rest → ∀ top : List (CellKind T N A),
      top.length ≤ pushed →
      below.length * (cost + 1) + input.length * (pushed * (cost + 1) + 1) ≤ k →
      Ends p k (top ++ below) rest := by
    rintro k below token rest rfl top htop hk
    have hrest := ihtokens rest.length (by simp) (top ++ below) rest rfl
    refine hrest.mono (Nat.le_trans ?_ hk)
    have hmul : top.length * (cost + 1) ≤ pushed * (cost + 1) := Nat.mul_le_mul_right _ htop
    rw [List.length_append, List.length_cons, Nat.add_mul, Nat.succ_mul]
    omega
  induction kinds with
  | nil => exact ends_nil _ _
  | cons kind below ih =>
    rw [List.length_cons, Nat.succ_mul]
    cases kind with
    | endMarker => exact (ends_endMarker ih).mono (by omega)
    | synthesized n => exact (ends_synthesized ih).mono (by omega)
    | action a => exact (ends_action ih).mono (by omega)
    | terminal t =>
      have hends : Ends p _ (.terminal t :: below) input := ends_terminal fun token rest htoken =>
        hmatched _ below token rest htoken [] (Nat.zero_le _) (Nat.le_refl _)
      exact hends.mono (by omega)
    | nonterminal n =>
      have hbounded := ends_nonterminal (fun n h => hp.finite h)
        (fun n prediction h => hp.width_le h) (hp.acyclic (nextTerminal? input)) nonterminals.length
        [] n List.nodup_nil (List.nil_subset _) (by simp) (by simp)
      have hends := hbounded _ below (fun _ => ih) fun token rest htoken top htop =>
        hmatched _ below token rest htoken top (hpushed ▸ htop) (Nat.le_refl _)
      rw [hcost] at hends
      exact hends.mono (by omega)

/-- The limit for the number of steps is above the bound for the moves. -/
theorem bound_lt_sufficientSteps (nonterminals width tokens : Nat) :
    3 * (expansionCost width nonterminals + 1) +
      tokens * (2 * width * nonterminals * (expansionCost width nonterminals + 1) + 1) <
        sufficientSteps nonterminals width tokens := by
  have hcost := expansionCost_lt width nonterminals
  have hnonterminals : nonterminals < (width + 2) ^ nonterminals :=
    Nat.lt_of_lt_of_le Nat.lt_two_pow_self (Nat.pow_le_pow_left (by omega) _)
  -- both the cost and the number of nonterminals are below one power, and the limit has its square
  generalize hx : (width + 2) ^ nonterminals = x at hcost hnonterminals
  have hpow : (width + 2) ^ (2 * nonterminals + 3) = x * x * (width + 2) ^ 3 := by
    rw [Nat.pow_add, Nat.two_mul, Nat.pow_add, hx]
  have hsquare : x ≤ x * x := Nat.le_mul_of_pos_left x (by omega)
  have hcube : 8 + 2 * width ≤ (width + 2) ^ 3 := by
    have hpos : 1 ≤ (width + 2) ^ 2 := Nat.one_le_pow _ _ (by omega)
    nlinarith [Nat.zero_le (width ^ 3), Nat.zero_le (width ^ 2)]
  have hlimit : x * x * (8 + 2 * width) ≤ x * x * (width + 2) ^ 3 := Nat.mul_le_mul_left _ hcube
  have hpushed : width * (nonterminals * (expansionCost width nonterminals + 1)) ≤
      width * (x * x) :=
    Nat.mul_le_mul_left _ (Nat.mul_le_mul (Nat.le_of_lt hnonterminals) hcost)
  have hfirst : 3 * (expansionCost width nonterminals + 1) < x * x * (width + 2) ^ 3 := by
    nlinarith
  have hnext : 2 * width * nonterminals * (expansionCost width nonterminals + 1) + 1 ≤
      x * x * (width + 2) ^ 3 := by
    nlinarith
  change _ < (tokens + 1) * (width + 2) ^ (2 * nonterminals + 3)
  rw [hpow, Nat.add_mul, Nat.one_mul, Nat.add_comm]
  exact Nat.add_lt_add_of_le_of_lt (Nat.mul_le_mul_left tokens hnext) hfirst

variable [DecidableEq T] [DecidableEq A] {r : Registry A}

/-- A parser gives its verdict with the step after the last move. -/
theorem run_of_ends {k : Nat} {c : Config T N A} (h : Ends p k (kindsOf c.stack) c.input) :
    ∃ v, c.run p r (k + 1) = some v := by
  induction k generalizing c with
  | zero =>
    rw [Config.run]
    cases hstep : c.step p r with
    | running c' => exact absurd (Config.move_of_step hstep) (h _ _)
    | accepted result => exact ⟨_, rfl⟩
    | rejected e => exact ⟨_, rfl⟩
  | succ k ih =>
    rw [Config.run]
    cases hstep : c.step p r with
    | running c' => exact ih (h _ _ (Config.move_of_step hstep))
    | accepted result => exact ⟨_, rfl⟩
    | rejected e => exact ⟨_, rfl⟩

/-- Where no nonterminal leads back to itself, a parser gives its verdict within the step limit. -/
theorem run_of_acyclic {nonterminals : List N} {width : Nat} (hp : p.Acyclic nonterminals width)
    (input : List (InputToken T)) :
    ∃ v, (Config.initial p input).run p r (sufficientSteps nonterminals.length width input.length) =
      some v := by
  obtain ⟨v, hv⟩ := run_of_ends (r := r) (c := Config.initial p input) (ends hp _ _)
  exact ⟨v, Config.run_mono (bound_lt_sufficientSteps nonterminals.length width input.length) hv⟩

end ArithFrontEnd
