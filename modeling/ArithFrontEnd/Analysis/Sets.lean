import ArithFrontEnd.Analysis.Passes
import ArithFrontEnd.Grammar.Basic
import ArithFrontEnd.Grammar.TerminalSet

/-!
# FIRST, FOLLOW and SELECT sets

Three families of sets describe what a grammar allows. FIRST of a sequence of symbols: the terminals
that can begin what it stands for, and whether it can stand for the empty string. FOLLOW of a
nonterminal: the terminals that can come next after it. SELECT of a rule: the terminals at which the
rule can be the right choice. FIRST and FOLLOW are found by passes over all rules until nothing
changes; actions stand for the empty string.

## Main definitions

* `FirstSet`, `firstOf` — FIRST of a sequence of symbols.
* `firstPass`, `firstSets` — FIRST of every nonterminal.
* `followPass`, `followSets` — FOLLOW of every nonterminal.
* `selectSet` — SELECT of a rule.
* `Analysis`, `Analysis.compute` — all of them for a grammar.
* `Analysis.events` — what the log shows of the passes.
-/

namespace ArithFrontEnd

/-- The terminals that can begin a sequence of symbols. That it can be empty is kept apart. -/
structure FirstSet where
  /-- The terminals. -/
  terminals : TerminalSet
  /-- The sequence can stand for the empty string. -/
  nullable : Bool
  deriving DecidableEq, Repr

namespace FirstSet

/-- Nothing can begin the sequence, which is not empty either. -/
def empty : FirstSet := ⟨.empty, false⟩

/-- What either of two sequences allows. -/
def union (a b : FirstSet) : FirstSet := ⟨a.terminals.union b.terminals, a.nullable || b.nullable⟩

end FirstSet

namespace Analysis

/-- FIRST of every nonterminal, in order of their numbers. -/
abbrev FirstSets := List FirstSet

/-- FOLLOW of every nonterminal, in order of their numbers. -/
abbrev FollowSets := List TerminalSet

/-- FIRST of a sequence of symbols, given FIRST of every nonterminal. -/
def firstOf (first : FirstSets) : List GrammarSymbol → FirstSet
  | [] => ⟨.empty, true⟩
  | .terminal t :: _ => ⟨.ofList [t], false⟩
  | .nonterminal n :: rest =>
    let head := first.getD n .empty
    if head.nullable then
      ⟨head.terminals.union (firstOf first rest).terminals, (firstOf first rest).nullable⟩
    else
      head
  | .action _ :: rest => firstOf first rest

/-- Add to FIRST of a left-hand side what its rule allows. -/
def firstStep (first : FirstSets) (rule : Rule) : FirstSets :=
  first.modify rule.left (·.union (firstOf first rule.right))

/-- One pass over all rules for FIRST. -/
def firstPass (rules : List Rule) (first : FirstSets) : FirstSets :=
  rules.foldl firstStep first

/-- The state before the first pass for FIRST. -/
def noFirst (g : Grammar) : FirstSets := List.replicate g.nonterminals.length .empty

/-- More passes than this change nothing: every pass but the last adds a terminal to one of the
sets, or the empty string to what a nonterminal can stand for. -/
def passBound (g : Grammar) : Nat := g.nonterminals.length * (g.terminals.length + 1) + 1

/-- FIRST of every nonterminal. -/
def firstSets (g : Grammar) : FirstSets := settle (firstPass g.rules) (passBound g) (noFirst g)

/-- The terminals that can come next after a nonterminal of a right-hand side, given the symbols
after it there: their FIRST, and FOLLOW of the left-hand side where they can be empty. -/
def following (first : FirstSets) (left : NonterminalId) (rest : List GrammarSymbol)
    (follow : FollowSets) : TerminalSet :=
  let suffix := firstOf first rest
  if suffix.nullable then suffix.terminals.union (follow.getD left .empty) else suffix.terminals

/-- Add to FOLLOW of every nonterminal of a right-hand side what can come next after it there. -/
def followSymbols (first : FirstSets) (left : NonterminalId) :
    List GrammarSymbol → FollowSets → FollowSets
  | [], follow => follow
  | .nonterminal n :: rest, follow =>
    followSymbols first left rest (follow.modify n (·.union (following first left rest follow)))
  | _ :: rest, follow => followSymbols first left rest follow

/-- Add to FOLLOW what a rule allows. -/
def followStep (first : FirstSets) (follow : FollowSets) (rule : Rule) : FollowSets :=
  followSymbols first rule.left rule.right follow

/-- One pass over all rules for FOLLOW. -/
def followPass (first : FirstSets) (rules : List Rule) (follow : FollowSets) : FollowSets :=
  rules.foldl (followStep first) follow

/-- The state before the first pass for FOLLOW: the input can end after the start symbol. -/
def initialFollow (g : Grammar) : FollowSets :=
  (List.replicate g.nonterminals.length .empty).modify g.start (·.insert .endOfInput)

/-- FOLLOW of every nonterminal, given FIRST. -/
def followSets (g : Grammar) (first : FirstSets) : FollowSets :=
  settle (followPass first g.rules) (passBound g) (initialFollow g)

/-- SELECT of a rule, given FIRST and FOLLOW. -/
def selectSet (first : FirstSets) (follow : FollowSets) (rule : Rule) : TerminalSet :=
  following first rule.left rule.right follow

end Analysis

/-- The sets of a grammar. -/
structure Analysis where
  /-- FIRST of every nonterminal. -/
  first : Analysis.FirstSets
  /-- FOLLOW of every nonterminal. -/
  follow : Analysis.FollowSets
  /-- SELECT of every rule. -/
  select : List TerminalSet
  deriving DecidableEq, Repr

namespace Analysis

/-- The sets of a grammar: first FIRST, with it FOLLOW, and with both SELECT. -/
def compute (g : Grammar) : Analysis :=
  let first := firstSets g
  let follow := followSets g first
  ⟨first, follow, g.rules.map (selectSet first follow)⟩

/-- FIRST of a sequence of symbols. -/
def firstOfSequence (a : Analysis) (symbols : List GrammarSymbol) : FirstSet :=
  firstOf a.first symbols

/-- FOLLOW of a nonterminal. -/
def followOf (a : Analysis) (n : NonterminalId) : TerminalSet := a.follow.getD n .empty

/-- SELECT of a rule. -/
def selectOf (a : Analysis) (r : RuleId) : TerminalSet := a.select.getD r .empty

/-- What the log shows of the passes for FIRST and then for FOLLOW. -/
def events (g : Grammar) : List Log.Event :=
  let first := firstSets g
  passEvents "FIRST" 1 (noFirst g) (passes (firstPass g.rules) (passBound g) (noFirst g)) ++
    passEvents "FOLLOW" 1 (initialFollow g)
      (passes (followPass first g.rules) (passBound g) (initialFollow g))

end Analysis

end ArithFrontEnd
