import ArithFrontEnd.Analysis.Sets

/-!
# The loops of the analysis

FIRST and FOLLOW are found by loops. A round goes through all rules and adds to the sets in place,
so that a rule sees what the rules before it have added. On the way it notes whether a set has
changed, which it tells from the size of the set before and after. A loop ends with the first round
that has noted no change; nothing else ends it.

## Main definitions

* `TerminalSet.unionWith`, `FirstSet.unionWith` — sets are added to, and a change is told.
* `addAt` — one set of a list is added to, and a change is noted.
* `firstRound`, `followRound` — the rounds for FIRST and for FOLLOW.
* `Repeats` — the loop of a round.
-/

namespace ArithFrontEnd

/-- Add the elements of another set. The sizes tell whether the set has grown. -/
def TerminalSet.unionWith (s u : TerminalSet) : TerminalSet × Bool :=
  (s.union u, (s.union u).size != s.size)

/-- Add what another sequence allows: its terminals, and then that it can be empty. -/
def FirstSet.unionWith (a b : FirstSet) : FirstSet × Bool :=
  let (terminals, grown) := a.terminals.unionWith b.terminals
  if b.nullable && !a.nullable then (⟨terminals, true⟩, true) else (⟨terminals, a.nullable⟩, grown)

namespace Analysis

/-- Add to the set at a position, if there is one, and note a change that `add` tells. -/
def addAt {β : Type} (add : β → β × Bool) (i : Nat) : List β × Bool → List β × Bool
  | (xs, changed) =>
    match xs[i]? with
    | none => (xs, changed)
    | some x => (xs.set i (add x).1, changed || (add x).2)

/-- Add to FIRST of a left-hand side what the symbols of its rule allow. -/
def firstUpdate (state : FirstSets × Bool) (rule : Rule) : FirstSets × Bool :=
  addAt (·.unionWith (firstOf state.1 rule.symbols)) rule.left state

/-- A round for FIRST. -/
def firstRound (rules : List Rule) (first : FirstSets) : FirstSets × Bool :=
  rules.foldl firstUpdate (first, false)

/-- Add to FOLLOW of every nonterminal among these symbols what can come next after it. -/
def followUpdates (first : FirstSets) (left : NonterminalId) :
    List GrammarSymbol → FollowSets × Bool → FollowSets × Bool
  | [], state => state
  | .nonterminal n :: rest, state =>
    followUpdates first left rest (addAt (·.unionWith (following first left rest state.1)) n state)
  | _ :: rest, state => followUpdates first left rest state

/-- Add to FOLLOW what the symbols of a rule allow. -/
def followUpdate (first : FirstSets) (state : FollowSets × Bool) (rule : Rule) :
    FollowSets × Bool :=
  followUpdates first rule.left rule.symbols state

/-- A round for FOLLOW. -/
def followRound (first : FirstSets) (rules : List Rule) (follow : FollowSets) :
    FollowSets × Bool :=
  rules.foldl (followUpdate first) (follow, false)

/-- Rounds are made until one has noted no change. These are the states after each of them. -/
inductive Repeats {α : Type} (round : α → α × Bool) : α → List α → Prop
  /-- A round that notes no change is the last one. -/
  | stop {x y : α} (h : round x = (y, false)) : Repeats round x [y]
  /-- A round that notes a change is not. -/
  | again {x y : α} {ys : List α} (h : round x = (y, true)) (rest : Repeats round y ys) :
      Repeats round x (y :: ys)

end Analysis
end ArithFrontEnd
