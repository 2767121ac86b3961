import ArithFrontEnd.Grammar.Derivation

/-!
# How derivations end and begin

Whether a sequence of symbols derives the empty sequence, and which terminals begin what it derives,
is told by the rules, without looking at what else is derived.

## Main definitions

* `Grammar.Nullable` — the symbols of a sequence can all be empty.
* `Grammar.Begins` — a terminal comes first in a sequence, once some symbols are empty.

## Main results

* `Grammar.Nullable.derives`, `Grammar.Begins.derives` — **both are derivations.**
-/

namespace ArithFrontEnd
namespace Grammar

/-- The symbols of the sequence can all be empty. -/
inductive Nullable (g : Grammar) : List GrammarSymbol → Prop
  /-- There are no symbols. -/
  | nil : Nullable g []
  /-- An action is empty. -/
  | action (a : ActionId) {w : List GrammarSymbol} (rest : Nullable g w) :
      Nullable g (.action a :: w)
  /-- A nonterminal is empty if a right-hand side of it is. -/
  | nonterminal {rule : Rule} {w : List GrammarSymbol} (mem : rule ∈ g.rules)
      (right : Nullable g rule.right) (rest : Nullable g w) :
      Nullable g (.nonterminal rule.left :: w)

/-- The terminal can come first in the sequence. -/
inductive Begins (g : Grammar) (t : TerminalId) : List GrammarSymbol → Prop
  /-- The terminal is the first symbol. -/
  | terminal (w : List GrammarSymbol) : Begins g t (.terminal t :: w)
  /-- An action is empty. -/
  | action (a : ActionId) {w : List GrammarSymbol} (rest : Begins g t w) :
      Begins g t (.action a :: w)
  /-- The terminal comes first in a right-hand side of a nonterminal. -/
  | rule {rule : Rule} (mem : rule ∈ g.rules) (right : Begins g t rule.right)
      (w : List GrammarSymbol) : Begins g t (.nonterminal rule.left :: w)
  /-- A nonterminal is empty, and the terminal comes after it. -/
  | later {n : NonterminalId} {w : List GrammarSymbol} (first : Nullable g [.nonterminal n])
      (rest : Begins g t w) : Begins g t (.nonterminal n :: w)

variable {g : Grammar} {t : TerminalId} {u v w : List GrammarSymbol}

theorem Nullable.append (hu : g.Nullable u) (hv : g.Nullable v) : g.Nullable (u ++ v) := by
  induction hu with
  | nil => exact hv
  | action a _ ih => exact .action a ih
  | nonterminal mem right _ _ ih => exact .nonterminal mem right ih

theorem Nullable.of_append (h : g.Nullable (u ++ v)) : g.Nullable u ∧ g.Nullable v := by
  induction u with
  | nil => exact ⟨.nil, h⟩
  | cons s u ih =>
    cases h with
    | action a rest => exact ⟨.action a (ih rest).1, (ih rest).2⟩
    | nonterminal mem right rest => exact ⟨.nonterminal mem right (ih rest).1, (ih rest).2⟩

theorem Nullable.tail {s : GrammarSymbol} (h : g.Nullable (s :: w)) : g.Nullable w :=
  (Nullable.of_append (u := [s]) h).2

/-- What comes first in a sequence comes first in a part of it, after parts that are empty. -/
theorem begins_append_iff :
    g.Begins t (u ++ v) ↔ g.Begins t u ∨ g.Nullable u ∧ g.Begins t v := by
  constructor
  · intro h
    induction u with
    | nil => exact Or.inr ⟨.nil, h⟩
    | cons s u ih =>
      cases h with
      | terminal => exact Or.inl (.terminal u)
      | action a rest => exact (ih rest).imp (.action a) fun ⟨hu, hv⟩ => ⟨.action a hu, hv⟩
      | rule mem right => exact Or.inl (.rule mem right u)
      | later first rest => exact (ih rest).imp (.later first) fun ⟨hu, hv⟩ => ⟨first.append hu, hv⟩
  · rintro (h | ⟨hu, hv⟩)
    · induction h with
      | terminal w => exact .terminal (w ++ v)
      | action a _ ih => exact .action a ih
      | rule mem right w => exact .rule mem right (w ++ v)
      | later first _ ih => exact .later first ih
    · induction hu with
      | nil => exact hv
      | action a _ ih => exact .action a ih
      | nonterminal mem right _ _ ih => exact .later (.nonterminal mem right .nil) ih

/-- A sequence that can be empty derives the empty sequence. -/
theorem Nullable.derives (h : g.Nullable w) : g.Derives (withoutActions w) [] := by
  induction h with
  | nil => exact .refl _
  | action a _ ih => exact ih
  | nonterminal mem _ _ ihright ihrest => exact ((Derives.of_rule mem).trans ihright).append ihrest

/-- A sequence derives sequences that begin with the terminals that can come first in it. -/
theorem Begins.derives (h : g.Begins t w) :
    ∃ rest, g.Derives (withoutActions w) (.terminal t :: rest) := by
  induction h with
  | terminal w => exact ⟨withoutActions w, .refl _⟩
  | action a _ ih => exact ih
  | rule mem _ w ih =>
    obtain ⟨rest, hrest⟩ := ih
    exact ⟨rest ++ withoutActions w,
      ((Derives.of_rule mem).trans hrest).append (.refl (withoutActions w))⟩
  | later hfirst _ ih =>
    obtain ⟨rest, hrest⟩ := ih
    exact ⟨rest, hfirst.derives.append hrest⟩

end Grammar
end ArithFrontEnd
