import ArithFrontEnd.Proofs.Analysis.FixedPoint
import ArithFrontEnd.Proofs.Grammar.Beginnings
import ArithFrontEnd.Proofs.Grammar.WellFormed

/-!
# FIRST sets are exact

Every pass keeps the sets sound: what is in them can come first.  The sets that the passes settle at
are closed under the rules, and then no derivation leads out of them, because replacing a
nonterminal by one of its rules takes nothing from FIRST of a sequence that was not there before.

## Main definitions

* `FirstSound` — what is in the sets can come first.
* `FirstClosed` — the sets hold what the rules allow.

## Main results

* `firstSets_sound`, `firstSets_closed` — the sets of a grammar are both.
* `nullable_firstSets_iff`, `mem_firstSets_iff` — what the sets hold, told by the rules.
* `firstOfSequence_exact` — **FIRST of a sequence is what begins its derivations.**
-/

namespace ArithFrontEnd
namespace Analysis

variable {g : Grammar} {first : FirstSets} {t : TerminalId}

/-! ### FIRST of a sequence -/

@[simp] theorem nullable_firstOf_nil : (firstOf first []).nullable = true := rfl

@[simp] theorem not_mem_firstOf_nil : t ∉ (firstOf first []).terminals := TerminalSet.not_mem_empty

@[simp] theorem nullable_firstOf_terminal (u : TerminalId) (rest : List GrammarSymbol) :
    (firstOf first (.terminal u :: rest)).nullable = false := rfl

@[simp] theorem mem_firstOf_terminal {u : TerminalId} {rest : List GrammarSymbol} :
    t ∈ (firstOf first (.terminal u :: rest)).terminals ↔ t = u := by
  simp [firstOf]

@[simp] theorem nullable_firstOf_nonterminal (n : NonterminalId) (rest : List GrammarSymbol) :
    (firstOf first (.nonterminal n :: rest)).nullable =
      ((first.getD n .empty).nullable && (firstOf first rest).nullable) := by
  rw [firstOf]
  cases h : (first.getD n .empty).nullable
  · exact h
  · rfl

@[simp] theorem mem_firstOf_nonterminal {n : NonterminalId} {rest : List GrammarSymbol} :
    t ∈ (firstOf first (.nonterminal n :: rest)).terminals ↔
      t ∈ (first.getD n .empty).terminals ∨
        (first.getD n .empty).nullable = true ∧ t ∈ (firstOf first rest).terminals := by
  rw [firstOf]
  cases h : (first.getD n .empty).nullable <;> simp

@[simp] theorem firstOf_action (a : ActionId) (rest : List GrammarSymbol) :
    firstOf first (.action a :: rest) = firstOf first rest := rfl

theorem nullable_firstOf_append (u v : List GrammarSymbol) :
    (firstOf first (u ++ v)).nullable =
      ((firstOf first u).nullable && (firstOf first v).nullable) := by
  induction u with
  | nil => simp
  | cons s u ih => cases s <;> simp [ih, Bool.and_assoc]

theorem mem_firstOf_append {u v : List GrammarSymbol} :
    t ∈ (firstOf first (u ++ v)).terminals ↔
      t ∈ (firstOf first u).terminals ∨
        (firstOf first u).nullable = true ∧ t ∈ (firstOf first v).terminals := by
  induction u with
  | nil => simp
  | cons s u ih =>
    cases s with
    | terminal u => simp
    | nonterminal n => simp [ih, and_or_left, or_assoc, and_assoc]
    | action a => simpa using ih

/-- Actions do not count. -/
theorem firstOf_withoutActions (w : List GrammarSymbol) :
    firstOf first (withoutActions w) = firstOf first w := by
  induction w with
  | nil => rfl
  | cons s w ih =>
    cases s with
    | terminal u => rfl
    | nonterminal n =>
      show firstOf first (.nonterminal n :: withoutActions w) = _
      rw [firstOf, firstOf, ih]
    | action a => exact ih

/-- A part of a sequence may be replaced by one that allows less. -/
theorem firstOf_context_le {u v : List GrammarSymbol} (h : firstOf first u ≤ firstOf first v)
    (before after : List GrammarSymbol) :
    firstOf first (before ++ (u ++ after)) ≤ firstOf first (before ++ (v ++ after)) := by
  constructor
  · intro t ht
    simp only [mem_firstOf_append] at ht ⊢
    exact ht.imp_right fun ⟨hbefore, hafter⟩ =>
      ⟨hbefore, hafter.imp (h.1 t) fun ⟨hu, ht⟩ => ⟨h.2 hu, ht⟩⟩
  · intro hnull
    simp only [nullable_firstOf_append, Bool.and_eq_true] at hnull ⊢
    exact ⟨hnull.1, h.2 hnull.2.1, hnull.2.2⟩

/-! ### What is in the sets can come first -/

/-- What is in the sets can come first, or be empty. -/
structure FirstSound (g : Grammar) (first : FirstSets) : Prop where
  /-- A nonterminal whose set says that it is nullable can be empty. -/
  nullable {n : NonterminalId} (h : (first.getD n .empty).nullable = true) :
    g.Nullable [.nonterminal n]
  /-- The terminals of a set can come first. -/
  terminals {n : NonterminalId} {t : TerminalId} (h : t ∈ (first.getD n .empty).terminals) :
    g.Begins t [.nonterminal n]

/-- A sequence whose set says that it is nullable can be empty. -/
theorem FirstSound.nullable_of_firstOf (h : FirstSound g first) {w : List GrammarSymbol}
    (hw : (firstOf first w).nullable = true) : g.Nullable w := by
  induction w with
  | nil => exact .nil
  | cons s w ih =>
    cases s with
    | terminal u => simp at hw
    | nonterminal n =>
      rw [nullable_firstOf_nonterminal] at hw
      obtain ⟨hn, hrest⟩ := Bool.and_eq_true_iff.1 hw
      exact (h.nullable hn).append (ih hrest)
    | action a => exact .action a (ih hw)

/-- The terminals in the set of a sequence can come first in it. -/
theorem FirstSound.begins_of_firstOf (h : FirstSound g first) {w : List GrammarSymbol}
    (hw : t ∈ (firstOf first w).terminals) : g.Begins t w := by
  induction w with
  | nil => simp at hw
  | cons s w ih =>
    cases s with
    | terminal u =>
      obtain rfl := mem_firstOf_terminal.1 hw
      exact .terminal w
    | nonterminal n =>
      rcases mem_firstOf_nonterminal.1 hw with hn | ⟨hn, hrest⟩
      · cases h.terminals hn with
        | rule mem right => exact .rule mem right w
        | later _ rest => cases rest
      · exact .later (h.nullable hn) (ih hrest)
    | action a => exact .action a (ih hw)

theorem noFirst_sound (g : Grammar) : FirstSound g (noFirst g) := by
  have hempty : ∀ n, (noFirst g).getD n .empty = .empty := by
    intro n
    rw [noFirst, List.getD_eq_getElem?_getD, List.getElem?_replicate]
    split <;> rfl
  refine ⟨fun {n} h => ?_, fun {n t} h => ?_⟩
  · rw [hempty] at h
    contradiction
  · rw [hempty] at h
    exact absurd h TerminalSet.not_mem_empty

/-- A step adds what can come first in the rule. -/
theorem firstStep_sound (h : FirstSound g first) {rule : Rule} (hrule : rule ∈ g.rules) :
    FirstSound g (firstStep first rule) := by
  refine ⟨fun {n} hn => ?_, fun {n t} ht => ?_⟩
  · rw [firstStep, getD_modify] at hn
    split at hn
    · next heq =>
      rcases Bool.or_eq_true_iff.1 hn with hold | hnew
      · exact h.nullable hold
      · rw [heq.1]
        exact .nonterminal hrule (h.nullable_of_firstOf hnew) .nil
    · exact h.nullable hn
  · rw [firstStep, getD_modify] at ht
    split at ht
    · next heq =>
      rcases TerminalSet.mem_union.1 ht with hold | hnew
      · exact h.terminals hold
      · rw [heq.1]
        exact .rule hrule (h.begins_of_firstOf hnew) []
    · exact h.terminals ht

theorem foldl_firstStep_sound {rules : List Rule} (hrules : ∀ rule ∈ rules, rule ∈ g.rules)
    (h : FirstSound g first) : FirstSound g (rules.foldl firstStep first) := by
  induction rules generalizing first with
  | nil => exact h
  | cons rule rules ih =>
    exact ih (fun r hr => hrules r (List.mem_cons_of_mem _ hr))
      (firstStep_sound h (hrules rule List.mem_cons_self))

/-- What is in the sets of a grammar can come first. -/
theorem firstSets_sound (g : Grammar) : FirstSound g (firstSets g) :=
  settle_induction (fun _ h => foldl_firstStep_sound (fun _ hr => hr) h) _ (noFirst_sound g)

/-! ### The sets hold declared terminals -/

/-- There is a set for each nonterminal, and it holds declared terminals. -/
structure FirstDeclared (g : Grammar) (first : FirstSets) : Prop where
  /-- There are as many sets as nonterminals. -/
  length_eq : first.length = g.nonterminals.length
  /-- The terminals of a set are declared. -/
  declares {n : NonterminalId} {t : TerminalId} (h : t ∈ (first.getD n .empty).terminals) :
    g.Declares (.terminal t)

/-- FIRST of declared symbols holds declared terminals. -/
theorem FirstDeclared.firstOf (h : FirstDeclared g first) {w : List GrammarSymbol}
    (hw : ∀ s ∈ w, g.Declares s) (ht : t ∈ (firstOf first w).terminals) :
    g.Declares (.terminal t) := by
  induction w with
  | nil => simp at ht
  | cons s w ih =>
    have hrest : ∀ s ∈ w, g.Declares s := fun s hs => hw s (List.mem_cons_of_mem _ hs)
    cases s with
    | terminal u =>
      obtain rfl := mem_firstOf_terminal.1 ht
      exact hw _ List.mem_cons_self
    | nonterminal n =>
      rcases mem_firstOf_nonterminal.1 ht with hn | ⟨-, ht⟩
      · exact h.declares hn
      · exact ih hrest ht
    | action a => exact ih hrest ht

theorem noFirst_declared (g : Grammar) : FirstDeclared g (noFirst g) := by
  refine ⟨List.length_replicate, fun {n t} h => ?_⟩
  rw [noFirst, List.getD_eq_getElem?_getD, List.getElem?_replicate] at h
  split at h <;> exact absurd h TerminalSet.not_mem_empty

theorem firstStep_declared (hg : g.WellFormed) (h : FirstDeclared g first) {rule : Rule}
    (hrule : rule ∈ g.rules) : FirstDeclared g (firstStep first rule) := by
  refine ⟨by rw [firstStep, List.length_modify, h.length_eq], fun {n t} ht => ?_⟩
  rw [firstStep, getD_modify] at ht
  split at ht
  · rcases TerminalSet.mem_union.1 ht with hold | hnew
    · exact h.declares hold
    · exact h.firstOf (fun s hs => hg.right hrule hs) hnew
  · exact h.declares ht

theorem foldl_firstStep_declared (hg : g.WellFormed) {rules : List Rule}
    (hrules : ∀ rule ∈ rules, rule ∈ g.rules) (h : FirstDeclared g first) :
    FirstDeclared g (rules.foldl firstStep first) := by
  induction rules generalizing first with
  | nil => exact h
  | cons rule rules ih =>
    exact ih (fun r hr => hrules r (List.mem_cons_of_mem _ hr))
      (firstStep_declared hg h (hrules rule List.mem_cons_self))

theorem firstSets_declared (hg : g.WellFormed) : FirstDeclared g (firstSets g) :=
  settle_induction (fun _ h => foldl_firstStep_declared hg (fun _ hr => hr) h) _
    (noFirst_declared g)

/-! ### The sets are closed -/

/-- The sets hold what the rules allow. -/
def FirstClosed (g : Grammar) (first : FirstSets) : Prop :=
  ∀ rule ∈ g.rules, firstOf first rule.right ≤ first.getD rule.left .empty

theorem firstStep_grows (first : FirstSets) (rule : Rule) :
    List.Forall₂ (· ≤ ·) first (firstStep first rule) :=
  forall₂_modify (fun a => a.le_union_left _) first rule.left

/-- The numbers of declared terminals. -/
theorem mem_range_of_declares (h : g.Declares (.terminal t)) :
    t ∈ List.range' TerminalId.reserved g.terminals.length := by
  have hlt := Vocabulary.hasTerminal_iff.1 h.2
  rw [List.mem_range'_1]
  exact ⟨h.1, by rwa [Nat.add_comm]⟩

/-- The sets of declared terminals cannot grow without end. -/
theorem FirstDeclared.weight_le (h : FirstDeclared g first) :
    (first.map FirstSet.weight).sum ≤ g.nonterminals.length * (g.terminals.length + 1) := by
  rw [← h.length_eq]
  refine sum_weight_le fun a ha => ?_
  obtain ⟨n, hn, rfl⟩ := List.mem_iff_getElem.1 ha
  have hsub : ∀ t, t ∈ first[n].terminals →
      t ∈ List.range' TerminalId.reserved g.terminals.length := by
    intro t ht
    refine mem_range_of_declares (h.declares (n := n) ?_)
    rwa [List.getD_eq_getElem?_getD, List.getElem?_eq_getElem hn, Option.getD_some]
  have hsize := TerminalSet.size_le_of_subset hsub
  rw [List.length_range'] at hsize
  exact Nat.add_le_add hsize (Bool.toNat_le _)

/-- The passes reach sets that a pass does not change. -/
theorem firstPass_firstSets (hg : g.WellFormed) :
    firstPass g.rules (firstSets g) = firstSets g :=
  settle_fixed FirstSet.weight_strictMono (forall₂_foldl firstStep_grows g.rules)
    (fun _ h => foldl_firstStep_declared hg (fun _ hr => hr) h) (fun _ h => h.weight_le)
    (noFirst_declared g) (by rw [passBound]; omega)

/-- Sets that a pass does not change hold what the rules allow. -/
theorem firstClosed_of_fixed (hg : g.WellFormed) (hlength : first.length = g.nonterminals.length)
    (h : firstPass g.rules first = first) : FirstClosed g first := by
  intro rule hrule
  have hfixed := foldl_fixed firstStep_grows h rule hrule
  have hleft : rule.left < first.length := by
    rw [hlength]
    exact Vocabulary.hasNonterminal_iff.1 (hg.left hrule)
  -- the step of the rule changes nothing, so what it would add is there
  have hget := congrArg (·.getD rule.left FirstSet.empty) hfixed
  simp only [firstStep, getD_modify, hleft, and_self, if_true] at hget
  rw [← hget]
  exact FirstSet.le_union_right _ _

/-- The sets of a grammar hold what the rules allow. -/
theorem firstSets_closed (hg : g.WellFormed) : FirstClosed g (firstSets g) :=
  firstClosed_of_fixed hg (firstSets_declared hg).length_eq (firstPass_firstSets hg)

/-! ### What is derived is in the sets -/

/-- FIRST of a sequence holds FIRST of what the sequence derives. -/
theorem FirstClosed.firstOf_le (h : FirstClosed g first) {w v : List GrammarSymbol}
    (hderives : g.Derives w v) : firstOf first v ≤ firstOf first w := by
  induction hderives with
  | refl => exact le_refl _
  | step before rule after mem _ ih =>
    -- a rule in the place of its left-hand side adds nothing, because the sets are closed
    have hrule : firstOf first rule.symbols ≤ firstOf first [.nonterminal rule.left] := by
      show firstOf first (withoutActions rule.right) ≤ _
      rw [firstOf_withoutActions]
      refine le_trans (h rule mem) ⟨fun t ht => ?_, fun hnull => ?_⟩
      · exact mem_firstOf_nonterminal.2 (Or.inl ht)
      · rw [nullable_firstOf_nonterminal, hnull]
        rfl
    exact le_trans (firstOf_context_le hrule before after) ih

theorem FirstClosed.nullable_of_derives (h : FirstClosed g first) {w : List GrammarSymbol}
    (hw : g.Derives (withoutActions w) []) : (firstOf first w).nullable = true := by
  have hle := h.firstOf_le hw
  rw [firstOf_withoutActions] at hle
  exact hle.2 nullable_firstOf_nil

theorem FirstClosed.mem_of_derives (h : FirstClosed g first) {w rest : List GrammarSymbol}
    (hw : g.Derives (withoutActions w) (.terminal t :: rest)) :
    t ∈ (firstOf first w).terminals := by
  have hle := h.firstOf_le hw
  rw [firstOf_withoutActions] at hle
  exact hle.1 t (mem_firstOf_terminal.2 rfl)

/-- The set of a sequence says whether the sequence can be empty. -/
theorem nullable_firstSets_iff (hg : g.WellFormed) {w : List GrammarSymbol} :
    (firstOf (firstSets g) w).nullable = true ↔ g.Nullable w :=
  ⟨(firstSets_sound g).nullable_of_firstOf, fun h =>
    (firstSets_closed hg).nullable_of_derives h.derives⟩

/-- The set of a sequence holds the terminals that can come first in it. -/
theorem mem_firstSets_iff (hg : g.WellFormed) {w : List GrammarSymbol} :
    t ∈ (firstOf (firstSets g) w).terminals ↔ g.Begins t w := by
  refine ⟨(firstSets_sound g).begins_of_firstOf, fun h => ?_⟩
  obtain ⟨rest, hrest⟩ := h.derives
  exact (firstSets_closed hg).mem_of_derives hrest

/-- FIRST of a sequence says whether it derives the empty sequence, and which terminals begin what
it derives; these are declared if the symbols of the sequence are. -/
theorem firstOfSequence_exact {g : Grammar} (hg : g.IsDefined) (w : List GrammarSymbol) :
    (((compute g).firstOfSequence w).nullable = true ↔ g.Derives (withoutActions w) []) ∧
      (∀ t, t ∈ ((compute g).firstOfSequence w).terminals ↔
        ∃ rest, g.Derives (withoutActions w) (.terminal t :: rest)) ∧
      ((∀ s ∈ w, g.Declares s) → ∀ t ∈ ((compute g).firstOfSequence w).terminals,
        g.Declares (.terminal t) ∧ t ≠ .endOfInput ∧ t ≠ .unknown) := by
  have hwf := hg.wellFormed
  have hclosed := firstSets_closed hwf
  show ((firstOf (firstSets g) w).nullable = true ↔ _) ∧
    (∀ t, t ∈ (firstOf (firstSets g) w).terminals ↔ _) ∧
    (_ → ∀ t ∈ (firstOf (firstSets g) w).terminals, _)
  refine ⟨⟨fun h => ((nullable_firstSets_iff hwf).1 h).derives, hclosed.nullable_of_derives⟩,
    fun t => ⟨fun h => ((mem_firstSets_iff hwf).1 h).derives, ?_⟩, ?_⟩
  · rintro ⟨rest, hrest⟩
    exact hclosed.mem_of_derives hrest
  · intro hw t ht
    have hdeclares := (firstSets_declared hwf).firstOf hw ht
    refine ⟨hdeclares, ?_, ?_⟩
    · rintro rfl
      exact absurd hdeclares.1 (by decide)
    · rintro rfl
      exact absurd hdeclares.1 (by decide)

/-- A sentence of `S -> A b` may begin with what comes after `A`, but is not empty. -/
theorem firstOfSequence_exact_aStarB :
    (∃ rest, Grammar.aStarB.Derives [.nonterminal 0] (.terminal 3 :: rest)) ∧
      ¬ Grammar.aStarB.Derives [.nonterminal 0] [] ∧ Grammar.aStarB.Declares (.terminal 3) := by
  have hexact := firstOfSequence_exact Grammar.aStarB_isDefined [.nonterminal 0]
  have hmem : 3 ∈ ((compute .aStarB).firstOfSequence [.nonterminal 0]).terminals := by
    decide +kernel
  refine ⟨(hexact.2.1 3).1 hmem, fun h => ?_, (hexact.2.2 ?_ 3 hmem).1⟩
  · exact absurd (hexact.1.2 h) (by decide +kernel)
  · rintro s hs
    rw [List.mem_singleton.1 hs]
    rfl

end Analysis
end ArithFrontEnd
