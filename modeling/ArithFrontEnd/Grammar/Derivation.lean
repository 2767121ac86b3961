import ArithFrontEnd.Grammar.Basic

/-!
# Derivations

A grammar derives sequences of symbols from one another. A step replaces a nonterminal by the
symbols of one of its rules; actions stand for the empty string and are left out. A sentence is a
sequence of terminals that the start symbol derives.

A leftmost derivation always replaces the first nonterminal. It is told by the rules that it
applies, and reads a sentence from the left as a parser does.

## Main definitions

* `withoutActions`, `Grammar.Derives` — what a sequence of symbols can become.
* `Grammar.IsSentence` — the sentences of a grammar.
* `Grammar.Leftmost` — the leftmost derivations of a sequence of terminals.

## Main results

* `Grammar.Derives.append` — two parts of a sequence are derived apart from each other.
* `Grammar.Leftmost.derives` — **a leftmost derivation is a derivation.**
-/

namespace ArithFrontEnd

/-- A sequence of symbols without its actions. -/
def withoutActions (w : List GrammarSymbol) : List GrammarSymbol := w.filter (!·.isAction)

@[simp] theorem withoutActions_nil : withoutActions [] = [] := rfl

@[simp] theorem withoutActions_append (u v : List GrammarSymbol) :
    withoutActions (u ++ v) = withoutActions u ++ withoutActions v := List.filter_append ..

/-- The symbols of a sequence of terminals. -/
def sentenceSymbols (ts : List TerminalId) : List GrammarSymbol := ts.map .terminal

namespace Grammar

/-- What a sequence of symbols can become when nonterminals are replaced. -/
inductive Derives (g : Grammar) : List GrammarSymbol → List GrammarSymbol → Prop
  /-- Nothing is replaced. -/
  | refl (w : List GrammarSymbol) : Derives g w w
  /-- After other steps a nonterminal is replaced. -/
  | step {w : List GrammarSymbol} (before : List GrammarSymbol) (rule : Rule)
      (after : List GrammarSymbol) (mem : rule ∈ g.rules)
      (first : Derives g w (before ++ .nonterminal rule.left :: after)) :
      Derives g w (before ++ (rule.symbols ++ after))

/-- The terminals are a sentence of the grammar. -/
def IsSentence (g : Grammar) (ts : List TerminalId) : Prop :=
  g.Derives [.nonterminal g.start] (sentenceSymbols ts)

/-- The leftmost derivations: from a sequence of symbols, by these rules, to these terminals. -/
inductive Leftmost (g : Grammar) : List GrammarSymbol → List RuleId → List TerminalId → Prop
  /-- The empty sequence is the empty sentence. -/
  | done : Leftmost g [] [] []
  /-- A terminal in front stays. -/
  | terminal (t : TerminalId) {w : List GrammarSymbol} {rs : List RuleId} {ts : List TerminalId}
      (rest : Leftmost g w rs ts) : Leftmost g (.terminal t :: w) rs (t :: ts)
  /-- An action in front is left out. -/
  | action (a : ActionId) {w : List GrammarSymbol} {rs : List RuleId} {ts : List TerminalId}
      (rest : Leftmost g w rs ts) : Leftmost g (.action a :: w) rs ts
  /-- A nonterminal in front is replaced. -/
  | expand {r : RuleId} {rule : Rule} {w : List GrammarSymbol} {rs : List RuleId}
      {ts : List TerminalId} (found : g.rules[r]? = some rule)
      (rest : Leftmost g (rule.right ++ w) rs ts) :
      Leftmost g (.nonterminal rule.left :: w) (r :: rs) ts

variable {g : Grammar}

namespace Derives

theorem trans {u v w : List GrammarSymbol} (first : g.Derives u v) (second : g.Derives v w) :
    g.Derives u w := by
  induction second with
  | refl => exact first
  | step before rule after mem _ ih => exact ih.step before rule after mem

/-- A nonterminal derives the symbols of each of its rules. -/
theorem of_rule {rule : Rule} (mem : rule ∈ g.rules) :
    g.Derives [.nonterminal rule.left] rule.symbols := by
  have h := Derives.step [] rule [] mem (Derives.refl [.nonterminal rule.left])
  rwa [List.nil_append, List.append_nil] at h

/-- What a sequence derives, it also derives between other symbols. -/
theorem context (before after : List GrammarSymbol) {u v : List GrammarSymbol}
    (h : g.Derives u v) : g.Derives (before ++ (u ++ after)) (before ++ (v ++ after)) := by
  induction h with
  | refl => exact .refl _
  | step left rule right mem _ ih =>
    rw [List.append_assoc, List.append_assoc, ← List.append_assoc before left]
    refine .step (before ++ left) rule (right ++ after) mem ?_
    rwa [List.append_assoc, List.cons_append, ← List.append_assoc before left] at ih

theorem append {u v u' v' : List GrammarSymbol} (first : g.Derives u v)
    (second : g.Derives u' v') : g.Derives (u ++ u') (v ++ v') := by
  have left := first.context [] u'
  have right := second.context v []
  rw [List.nil_append, List.nil_append] at left
  rw [List.append_nil, List.append_nil] at right
  exact left.trans right

end Derives

/-- A leftmost derivation is a derivation of what is left without actions. -/
theorem Leftmost.derives {w : List GrammarSymbol} {rs : List RuleId} {ts : List TerminalId}
    (h : g.Leftmost w rs ts) : g.Derives (withoutActions w) (sentenceSymbols ts) := by
  induction h with
  | done => exact .refl _
  | terminal t _ ih => exact (Derives.refl [.terminal t]).append ih
  | action a _ ih => exact ih
  | @expand r rule w rs ts found _ ih =>
    have mem : rule ∈ g.rules := List.mem_of_getElem? found
    -- The nonterminal becomes the symbols of its rule, from which the derivation goes on.
    refine ((Derives.of_rule mem).append (.refl (withoutActions w))).trans ?_
    rw [withoutActions_append] at ih
    exact ih

end Grammar

end ArithFrontEnd
