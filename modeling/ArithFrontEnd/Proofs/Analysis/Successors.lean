import ArithFrontEnd.Proofs.Analysis.Follow

/-!
# What comes after a nonterminal

FOLLOW is meant to hold the terminals that come right after a nonterminal in what the nonterminals
of the grammar derive, and the end of the input if the nonterminal comes last in what the start
symbol derives.  A pass only adds such terminals, because a rule puts its right-hand side in the
place of its left-hand side.  Conversely the sets cover every place of a nonterminal: in a rule, and
in any sequence that has come from a covered one by replacing nonterminals.

## Main definitions

* `Grammar.CanFollow` — the terminal comes after the nonterminal in something that is derived.
* `FollowSound` — the sets hold such terminals only.
* `Covered` — what can come after the nonterminals of a sequence is in their FOLLOW sets.

## Main results

* `followSets_sound` — what is in a FOLLOW set can come after the nonterminal.
* `covered_rule`, `Covered.replace`, `Covered.derives` — rules are covered, and so is what is
  derived from a covered sequence.
* `followOf_exact` — **FOLLOW and SELECT hold what comes next in derivations, and nothing else.**
-/

namespace ArithFrontEnd

open Analysis (compute)

variable {g : Grammar} {t : TerminalId}

/-! ### Derived sequences -/

namespace Grammar

/-- What is derived from declared symbols is made of declared symbols. -/
theorem Derives.declares (hg : g.WellFormed) {w v : List GrammarSymbol} (h : g.Derives w v)
    (hw : ∀ s ∈ w, g.Declares s) : ∀ s ∈ v, g.Declares s := by
  induction h with
  | refl => exact hw
  | step before rule after mem _ ih =>
    intro s hs
    rcases List.mem_append.1 hs with hbefore | hs
    · exact ih s (List.mem_append_left _ hbefore)
    · rcases List.mem_append.1 hs with hright | hafter
      · exact hg.right mem (List.mem_of_mem_filter hright)
      · exact ih s (List.mem_append_right _ (List.mem_cons_of_mem _ hafter))

/-- In the place of the left-hand side, a rule puts a nonterminal of its right-hand side with what
is derived from the symbols after it. -/
theorem Derives.place {rule : Rule} (mem : rule ∈ g.rules) {before rest : List GrammarSymbol}
    {n : NonterminalId} (hright : rule.right = before ++ .nonterminal n :: rest)
    {v : List GrammarSymbol} (hrest : g.Derives (withoutActions rest) v)
    {w left right : List GrammarSymbol}
    (h : g.Derives w (left ++ .nonterminal rule.left :: right)) :
    g.Derives w ((left ++ withoutActions before) ++ .nonterminal n :: (v ++ right)) := by
  have hsymbols :
      rule.symbols = withoutActions before ++ .nonterminal n :: withoutActions rest := by
    show withoutActions rule.right = _
    rw [hright, withoutActions_append]
    rfl
  have hrule := h.step left rule right mem
  have hplaced := hrest.context (left ++ withoutActions before ++ [.nonterminal n]) right
  simp only [hsymbols, List.append_assoc, List.cons_append, List.nil_append] at hrule hplaced ⊢
  exact hrule.trans hplaced

/-- The terminal comes right after the nonterminal in what some nonterminal of the grammar derives.
The end of the input comes after the nonterminal that is last in what the start symbol derives. -/
def CanFollow (g : Grammar) (n : NonterminalId) (t : TerminalId) : Prop :=
  (∃ a before after, g.hasNonterminal a = true ∧
      g.Derives [.nonterminal a] (before ++ .nonterminal n :: .terminal t :: after)) ∨
    (t = .endOfInput ∧ ∃ before, g.Derives [.nonterminal g.start] (before ++ [.nonterminal n]))

end Grammar

/-! ### What is in the sets can come next -/

namespace Analysis

variable {first : FirstSets} {follow : FollowSets}

/-- The terminals of a set can come after its nonterminal. -/
def FollowSound (g : Grammar) (follow : FollowSets) : Prop :=
  ∀ n, ∀ t ∈ follow.getD n .empty, g.CanFollow n t

theorem initialFollow_sound (g : Grammar) : FollowSound g (initialFollow g) := by
  intro n t ht
  rw [getD_initialFollow] at ht
  split at ht
  · next hstart =>
    have hend := (TerminalSet.mem_insert.1 ht).resolve_right TerminalSet.not_mem_empty
    exact Or.inr ⟨hend, [], by rw [hstart.1]; exact .refl _⟩
  · exact absurd ht TerminalSet.not_mem_empty

/-- What follows a nonterminal of a rule can come after it. -/
theorem canFollow_of_following (hg : g.WellFormed) (hfirst : FirstSound g first)
    (h : FollowSound g follow) {rule : Rule} (hrule : rule ∈ g.rules)
    {before rest : List GrammarSymbol} {n : NonterminalId}
    (hright : rule.right = before ++ .nonterminal n :: rest)
    (ht : t ∈ following first rule.left rest follow) : g.CanFollow n t := by
  rcases mem_following.1 ht with hbegins | ⟨hnull, hleft⟩
  · obtain ⟨after, hafter⟩ := (hfirst.begins_of_firstOf hbegins).derives
    have hplaced := Grammar.Derives.place hrule hright hafter
      (.refl ([] ++ .nonterminal rule.left :: []))
    exact Or.inl ⟨rule.left, _, _, hg.left hrule, hplaced⟩
  · -- the rest vanishes, so that what comes after the left-hand side comes after the nonterminal
    have hempty := (hfirst.nullable_of_firstOf hnull).derives
    rcases h rule.left t hleft with ⟨a, left, right, ha, hderives⟩ | ⟨hend, left, hderives⟩
    · exact Or.inl ⟨a, _, _, ha, Grammar.Derives.place hrule hright hempty hderives⟩
    · exact Or.inr ⟨hend, _, Grammar.Derives.place hrule hright hempty hderives⟩

theorem followSymbols_sound (hg : g.WellFormed) (hfirst : FirstSound g first) {rule : Rule}
    (hrule : rule ∈ g.rules) {before right : List GrammarSymbol}
    (hright : rule.right = before ++ right) (h : FollowSound g follow) :
    FollowSound g (followSymbols first rule.left right follow) := by
  induction right generalizing before follow with
  | nil => exact h
  | cons s rest ih =>
    have hrest : rule.right = (before ++ [s]) ++ rest := by
      rw [hright, List.append_assoc]
      rfl
    cases s with
    | terminal u => exact ih hrest h
    | action a => exact ih hrest h
    | nonterminal n =>
      refine ih hrest fun m t ht => ?_
      rw [getD_modify] at ht
      split at ht
      · next heq =>
        rcases TerminalSet.mem_union.1 ht with hold | hnew
        · exact h m t hold
        · rw [heq.1]
          exact canFollow_of_following hg hfirst h hrule hright hnew
      · exact h m t ht

theorem foldl_followStep_sound (hg : g.WellFormed) (hfirst : FirstSound g first)
    {rules : List Rule} (hrules : ∀ rule ∈ rules, rule ∈ g.rules) (h : FollowSound g follow) :
    FollowSound g (rules.foldl (followStep first) follow) := by
  induction rules generalizing follow with
  | nil => exact h
  | cons rule rules ih =>
    have hright : rule.right = [] ++ rule.right := rfl
    exact ih (fun r hr => hrules r (List.mem_cons_of_mem _ hr))
      (followSymbols_sound hg hfirst (hrules rule List.mem_cons_self) hright h)

/-- What is in a FOLLOW set can come after the nonterminal. -/
theorem followSets_sound (hg : g.WellFormed) (hfirst : FirstSound g first) :
    FollowSound g (followSets g first) :=
  settle_induction (fun _ h => foldl_followStep_sound hg hfirst (fun _ hr => hr) h) _
    (initialFollow_sound g)

end Analysis

/-! ### Places of nonterminals -/

/-- What can come after the nonterminals of the sequence is in their FOLLOW sets, if `X` can come
after the sequence. -/
def Covered (g : Grammar) (X : TerminalId → Prop) (w : List GrammarSymbol) : Prop :=
  ∀ before n after, w = before ++ .nonterminal n :: after →
    ∀ t, g.Begins t after ∨ g.Nullable after ∧ X t → t ∈ (compute g).followOf n

namespace Covered

variable {X : TerminalId → Prop} {u w : List GrammarSymbol}

theorem tail {s : GrammarSymbol} (h : Covered g X (s :: w)) : Covered g X w :=
  fun before n after hw => h (s :: before) n after (by rw [hw]; rfl)

theorem head {n : NonterminalId} (h : Covered g X (.nonterminal n :: w))
    (ht : g.Begins t w ∨ g.Nullable w ∧ X t) : t ∈ (compute g).followOf n :=
  h [] n w rfl t ht

theorem single {n : NonterminalId} (h : ∀ t, X t → t ∈ (compute g).followOf n) :
    Covered g X [.nonterminal n] := by
  intro before m after hw t ht
  cases before with
  | nil =>
    obtain ⟨hn, rfl⟩ := List.cons.inj hw
    obtain rfl := Symbol.nonterminal.inj hn
    rcases ht with hbegins | ⟨-, hX⟩
    · cases hbegins
    · exact h t hX
  | cons s before => simp at hw

end Covered

/-- A right-hand side is covered, with what can come after the left-hand side. -/
theorem covered_rule (hg : g.WellFormed) {rule : Rule} (hrule : rule ∈ g.rules) :
    Covered g (· ∈ (compute g).followOf rule.left) rule.right := by
  intro before n after hright t ht
  have hclosed := Analysis.followSets_closed hg (Analysis.firstSets_declared hg)
  refine hclosed.rule hrule hright t (Analysis.mem_following.2 ?_)
  rw [Analysis.mem_firstSets_iff hg, Analysis.nullable_firstSets_iff hg]
  exact ht

/-- Actions in front of a symbol or after it do not matter to what can come after it. -/
theorem Covered.withoutActions (hg : g.WellFormed) {X : TerminalId → Prop}
    {w : List GrammarSymbol} (h : Covered g X w) : Covered g X (withoutActions w) := by
  intro before n after hsplit t ht
  obtain ⟨before', right, rfl, -, hright⟩ := List.filter_eq_append_iff.1 hsplit
  obtain ⟨actions, after', rfl, -, -, rfl⟩ := List.filter_eq_cons_iff.1 hright
  refine h (before' ++ actions) n after' (by rw [List.append_assoc]) t ?_
  -- FIRST does not see actions, and tells how the rest begins and whether it is empty
  rw [← Analysis.mem_firstSets_iff hg, ← Analysis.nullable_firstSets_iff hg] at ht ⊢
  rwa [← Analysis.firstOf_withoutActions]

namespace Covered

variable {X : TerminalId → Prop} {n : NonterminalId} {u w : List GrammarSymbol}

/-- A nonterminal in front may be replaced by symbols that are covered with what can come after
it. -/
theorem replace_head (h : Covered g X (.nonterminal n :: w))
    (hu : Covered g (· ∈ (compute g).followOf n) u) : Covered g X (u ++ w) := by
  intro before m after hsplit t ht
  rcases List.append_eq_append_iff.1 hsplit with ⟨middle, rfl, hafter⟩ | ⟨middle, hright, hw⟩
  · exact h.tail middle m after hafter t ht
  · cases middle with
    | nil => exact h.tail [] m after hw.symm t ht
    | cons s middle =>
      -- the nonterminal stands in `u`, and `w` comes after what is left of `u`
      obtain ⟨rfl, rfl⟩ := List.cons.inj hw
      refine hu before m middle hright t ?_
      rcases ht with hbegins | ⟨hnull, hX⟩
      · rcases Grammar.begins_append_iff.1 hbegins with hmiddle | ⟨hmiddle, hrest⟩
        · exact Or.inl hmiddle
        · exact Or.inr ⟨hmiddle, h.head (Or.inl hrest)⟩
      · exact Or.inr ⟨hnull.of_append.1, h.head (Or.inr ⟨hnull.of_append.2, hX⟩)⟩

/-- A nonterminal at any place may be replaced by symbols that are covered with what can come after
it, if they begin and vanish like the nonterminal. -/
theorem replace {before : List GrammarSymbol} (h : Covered g X (before ++ .nonterminal n :: w))
    (hu : Covered g (· ∈ (compute g).followOf n) u)
    (hbegins : ∀ t, g.Begins t u → g.Begins t [.nonterminal n])
    (hnull : g.Nullable u → g.Nullable [.nonterminal n]) :
    Covered g X (before ++ (u ++ w)) := by
  induction before with
  | nil => exact h.replace_head hu
  | cons s before ih =>
    intro left m after hsplit t ht
    cases left with
    | cons s' left => exact ih h.tail left m after (List.cons.inj hsplit).2 t ht
    | nil =>
      -- what comes after the first symbol could come after it before the replacement
      obtain ⟨rfl, hafter⟩ := List.cons.inj hsplit
      rw [← show before ++ (u ++ w) = after from hafter] at ht
      refine Covered.head (w := before ++ ([.nonterminal n] ++ w)) h ?_
      rcases ht with ht | ⟨hempty, hX⟩
      · refine Or.inl ?_
        simp only [Grammar.begins_append_iff] at ht ⊢
        exact ht.imp_right fun ⟨hbefore, hrest⟩ =>
          ⟨hbefore, hrest.imp (hbegins t) fun ⟨hu, hw⟩ => ⟨hnull hu, hw⟩⟩
      · have hrest := hempty.of_append.2.of_append
        exact Or.inr ⟨hempty.of_append.1.append ((hnull hrest.1).append hrest.2), hX⟩

/-- A nonterminal in front may be replaced by a rule. -/
theorem expand (hg : g.WellFormed) {rule : Rule} (hrule : rule ∈ g.rules)
    (h : Covered g X (.nonterminal rule.left :: w)) : Covered g X (rule.right ++ w) :=
  h.replace_head (covered_rule hg hrule)

/-- What is derived from a covered sequence is covered. -/
theorem derives (hg : g.WellFormed) {v : List GrammarSymbol} (h : Covered g X w)
    (hderives : g.Derives w v) : Covered g X v := by
  induction hderives with
  | refl => exact h
  | step before rule after mem _ ih =>
    have hclosed := Analysis.firstSets_closed hg
    have hderives := Grammar.Derives.of_rule mem
    refine ih.replace ((covered_rule hg mem).withoutActions hg) (fun t ht => ?_) fun hnull => ?_
    · rw [← Analysis.mem_firstSets_iff hg] at ht ⊢
      exact (hclosed.firstOf_le hderives).1 t ht
    · rw [← Analysis.nullable_firstSets_iff hg] at hnull ⊢
      exact (hclosed.firstOf_le hderives).2 hnull

end Covered

/-- The start symbol is covered, with the end of the input after it. -/
theorem covered_start (hg : g.WellFormed) :
    Covered g (· = .endOfInput) [.nonterminal g.start] := by
  refine .single fun t ht => ?_
  rw [ht]
  exact (Analysis.followSets_closed hg (Analysis.firstSets_declared hg)).start

/-! ### FOLLOW and SELECT -/

namespace Analysis

/-- FOLLOW holds what can come next. -/
theorem mem_followOf_iff (hg : g.WellFormed) {n : NonterminalId} :
    t ∈ (compute g).followOf n ↔ g.CanFollow n t := by
  refine ⟨followSets_sound hg (firstSets_sound g) n t, ?_⟩
  rintro (⟨a, before, after, -, hderives⟩ | ⟨rfl, before, hderives⟩)
  · have hcovered : Covered g (· ∈ (compute g).followOf a) [.nonterminal a] := .single fun _ h => h
    exact hcovered.derives hg hderives before n _ rfl t (Or.inl (.terminal after))
  · exact (covered_start hg).derives hg hderives before n [] rfl _ (Or.inr ⟨.nil, rfl⟩)

/-- No reserved terminal comes right after a nonterminal in what is derived. -/
theorem reserved_le_of_derives (hg : g.WellFormed) {a n : NonterminalId}
    {before after : List GrammarSymbol} (ha : g.hasNonterminal a = true)
    (h : g.Derives [.nonterminal a] (before ++ .nonterminal n :: .terminal t :: after)) :
    TerminalId.reserved ≤ t := by
  have hstart : ∀ s ∈ [Symbol.nonterminal a], g.Declares s := by
    intro s hs
    rw [List.mem_singleton.1 hs]
    exact ha
  exact (h.declares hg hstart (.terminal t) (by simp)).1

/-- FOLLOW of a nonterminal holds the terminals that come right after it in what the nonterminals of
the grammar derive, and the end of the input if it comes last in what the start symbol derives.
SELECT of a rule holds FIRST of its right-hand side, and FOLLOW of its left-hand side if the
right-hand side can be empty.  The unknown terminal is in neither. -/
theorem followOf_exact {g : Grammar} (hg : g.IsDefined) :
    (∀ n t, t ≠ .endOfInput → (t ∈ (compute g).followOf n ↔
      ∃ a before after, g.hasNonterminal a = true ∧
        g.Derives [.nonterminal a] (before ++ .nonterminal n :: .terminal t :: after))) ∧
    (∀ n, .endOfInput ∈ (compute g).followOf n ↔
      ∃ before, g.Derives [.nonterminal g.start] (before ++ [.nonterminal n])) ∧
    (∀ r rule, g.rules[r]? = some rule → ∀ t, t ∈ (compute g).selectOf r ↔
      t ∈ ((compute g).firstOfSequence rule.right).terminals ∨
        ((compute g).firstOfSequence rule.right).nullable = true ∧
          t ∈ (compute g).followOf rule.left) ∧
    (∀ n, ¬ .unknown ∈ (compute g).followOf n) ∧ (∀ r, ¬ .unknown ∈ (compute g).selectOf r) := by
  have hwf := hg.wellFormed
  have hunknown : ∀ n, ¬ TerminalId.unknown ∈ (compute g).followOf n := by
    intro n hmem
    rcases (mem_followOf_iff hwf).1 hmem with ⟨a, before, after, ha, hderives⟩ | ⟨heq, -⟩
    · exact absurd (reserved_le_of_derives hwf ha hderives) (by decide)
    · exact absurd heq (by decide)
  refine ⟨fun n t hne => ?_, fun n => ?_, fun r rule hrule t => mem_selectOf hrule, hunknown,
    fun r hmem => ?_⟩
  · rw [mem_followOf_iff hwf]
    exact or_iff_left fun hend => hne hend.1
  · rw [mem_followOf_iff hwf]
    constructor
    · rintro (⟨a, before, after, ha, hderives⟩ | ⟨-, hlast⟩)
      · exact absurd (reserved_le_of_derives hwf ha hderives) (by decide)
      · exact hlast
    · exact fun hlast => Or.inr ⟨rfl, hlast⟩
  · cases hrule : g.rules[r]? with
    | none =>
      have hselect : (compute g).selectOf r = .empty := by
        rw [selectOf, compute, List.getD_eq_getElem?_getD, List.getElem?_map, hrule]
        rfl
      rw [hselect] at hmem
      exact TerminalSet.not_mem_empty hmem
    | some rule =>
      rcases (mem_selectOf hrule).1 hmem with hfirst | ⟨-, hfollow⟩
      · have hdeclares := (firstSets_declared hwf).firstOf
          (fun s hs => hwf.right (List.mem_of_getElem? hrule) hs) hfirst
        exact absurd hdeclares.1 (by decide)
      · exact hunknown _ hfollow

/-- In `S -> A b`, `A -> a A`, `A -> ε`, the nonterminal `A` comes before `b` and never last, so
that its empty rule is selected by `b` alone. -/
theorem followOf_exact_aStarB :
    (∃ a before after, Grammar.aStarB.hasNonterminal a = true ∧
      Grammar.aStarB.Derives [.nonterminal a] (before ++ .nonterminal 1 :: .terminal 3 :: after)) ∧
    (¬ ∃ before, Grammar.aStarB.Derives [.nonterminal 0] (before ++ [.nonterminal 1])) ∧
    ∀ t, t ∈ (compute .aStarB).selectOf 2 ↔ t = 3 := by
  obtain ⟨hnext, hlast, hselect, -⟩ := followOf_exact Grammar.aStarB_isDefined
  have hfollow : (compute .aStarB).followOf 1 = .ofList [3] := by decide +kernel
  refine ⟨(hnext 1 3 (by decide)).1 (by rw [hfollow]; decide), fun h => ?_, fun t => ?_⟩
  · have hend := (hlast 1).2 h
    rw [hfollow] at hend
    exact absurd hend (by decide)
  · have hfirst : (compute .aStarB).firstOfSequence [] = ⟨.empty, true⟩ := rfl
    rw [hselect 2 ⟨1, []⟩ rfl t, hfirst, hfollow]
    simp

end Analysis
end ArithFrontEnd
