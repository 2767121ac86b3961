import ArithFrontEnd.Proofs.Analysis.First

/-!
# FOLLOW and SELECT sets are closed

The passes for FOLLOW settle at sets that hold, for each place of a nonterminal in a rule, what can
come next after it there.  The end of the input can come after the start symbol.

## Main definitions

* `FollowClosed` — the sets hold what the rules allow.

## Main results

* `followSets_closed` — **the sets of a grammar hold what the rules allow.**
* `mem_selectOf` — the elements of a SELECT set.
-/

namespace ArithFrontEnd
namespace Analysis

variable {g : Grammar} {first : FirstSets} {follow : FollowSets} {t : TerminalId}

theorem mem_following {left : NonterminalId} {rest : List GrammarSymbol} :
    t ∈ following first left rest follow ↔
      t ∈ (firstOf first rest).terminals ∨
        (firstOf first rest).nullable = true ∧ t ∈ follow.getD left .empty := by
  rw [following]
  cases h : (firstOf first rest).nullable <;> simp

/-! ### Steps add to the sets -/

theorem followSymbols_grows (first : FirstSets) (left : NonterminalId) (right : List GrammarSymbol)
    (follow : FollowSets) :
    List.Forall₂ (· ≤ ·) follow (followSymbols first left right follow) := by
  induction right generalizing follow with
  | nil => exact List.forall₂_refl follow
  | cons s rest ih =>
    cases s with
    | terminal u => exact ih follow
    | nonterminal n =>
      exact forall₂_trans (forall₂_modify (fun s => s.le_union_left _) follow n) (ih _)
    | action a => exact ih follow

theorem followStep_grows (first : FirstSets) (follow : FollowSets) (rule : Rule) :
    List.Forall₂ (· ≤ ·) follow (followStep first follow rule) :=
  followSymbols_grows first rule.left rule.right follow

/-- If a right-hand side changes nothing, the sets hold what can come after its nonterminals. -/
theorem following_le_of_fixed {left : NonterminalId} {right : List GrammarSymbol}
    (h : followSymbols first left right follow = follow) {before rest : List GrammarSymbol}
    {n : NonterminalId} (hright : right = before ++ .nonterminal n :: rest)
    (hn : n < follow.length) : following first left rest follow ≤ follow.getD n .empty := by
  induction right generalizing before with
  | nil => simp at hright
  | cons s right ih =>
    -- what the first symbol adds is there already, because nothing is ever taken away
    have hfixed : followSymbols first left right follow = follow ∧
        ∀ m, s = .nonterminal m →
          follow.modify m (·.union (following first left right follow)) = follow := by
      cases s with
      | terminal u => exact ⟨h, by simp⟩
      | action a => exact ⟨h, by simp⟩
      | nonterminal m =>
        have hgrow := forall₂_modify
          (fun s => s.le_union_left (following first left right follow)) follow m
        have hback := followSymbols_grows first left right
          (follow.modify m (·.union (following first left right follow)))
        rw [show followSymbols first left right _ = follow from h] at hback
        have hsame := forall₂_antisymm hback hgrow
        refine ⟨?_, fun k hk => by rwa [← Symbol.nonterminal.inj hk]⟩
        have h' : followSymbols first left right
          (follow.modify m (·.union (following first left right follow))) = follow := h
        rwa [hsame] at h'
    cases before with
    | nil =>
      obtain ⟨rfl, rfl⟩ := List.cons.inj hright
      have hget := congrArg (·.getD n TerminalSet.empty) (hfixed.2 n rfl)
      simp only [getD_modify, hn, and_self, if_true] at hget
      rw [← hget]
      exact TerminalSet.le_union_right _ _
    | cons b before => exact ih hfixed.1 (List.cons.inj hright).2

/-! ### The sets hold declared terminals -/

/-- There is a set for each nonterminal, of declared terminals and the end of the input. -/
structure FollowDeclared (g : Grammar) (follow : FollowSets) : Prop where
  /-- There are as many sets as nonterminals. -/
  length_eq : follow.length = g.nonterminals.length
  /-- The terminals of a set are declared, but for the end of the input. -/
  declares {n : NonterminalId} {t : TerminalId} (h : t ∈ follow.getD n .empty) :
    t = .endOfInput ∨ g.Declares (.terminal t)

theorem getD_initialFollow (g : Grammar) (n : NonterminalId) :
    (initialFollow g).getD n .empty =
      if n = g.start ∧ n < g.nonterminals.length then TerminalSet.empty.insert .endOfInput
      else .empty := by
  have hempty : (List.replicate g.nonterminals.length TerminalSet.empty).getD n .empty =
      .empty := by
    rw [List.getD_eq_getElem?_getD, List.getElem?_replicate]
    split <;> rfl
  rw [initialFollow, getD_modify, hempty, List.length_replicate]

theorem initialFollow_declared (g : Grammar) : FollowDeclared g (initialFollow g) := by
  refine ⟨by rw [initialFollow, List.length_modify, List.length_replicate], fun {n t} h => ?_⟩
  rw [getD_initialFollow] at h
  split at h
  · exact Or.inl ((TerminalSet.mem_insert.1 h).resolve_right TerminalSet.not_mem_empty)
  · exact absurd h TerminalSet.not_mem_empty

theorem followSymbols_declared (hfirst : FirstDeclared g first) {left : NonterminalId}
    {right : List GrammarSymbol} (hright : ∀ s ∈ right, g.Declares s)
    (h : FollowDeclared g follow) : FollowDeclared g (followSymbols first left right follow) := by
  induction right generalizing follow with
  | nil => exact h
  | cons s rest ih =>
    have hrest : ∀ s ∈ rest, g.Declares s := fun s hs => hright s (List.mem_cons_of_mem _ hs)
    cases s with
    | terminal u => exact ih hrest h
    | action a => exact ih hrest h
    | nonterminal n =>
      refine ih hrest ⟨by rw [List.length_modify, h.length_eq], fun {m t} ht => ?_⟩
      rw [getD_modify] at ht
      split at ht
      · rcases TerminalSet.mem_union.1 ht with hold | hnew
        · exact h.declares hold
        · rcases mem_following.1 hnew with hfst | ⟨-, hflw⟩
          · exact Or.inr (hfirst.firstOf hrest hfst)
          · exact h.declares hflw
      · exact h.declares ht

theorem foldl_followStep_declared (hg : g.WellFormed) (hfirst : FirstDeclared g first)
    {rules : List Rule} (hrules : ∀ rule ∈ rules, rule ∈ g.rules) (h : FollowDeclared g follow) :
    FollowDeclared g (rules.foldl (followStep first) follow) := by
  induction rules generalizing follow with
  | nil => exact h
  | cons rule rules ih =>
    have hrule := hrules rule List.mem_cons_self
    exact ih (fun r hr => hrules r (List.mem_cons_of_mem _ hr))
      (followSymbols_declared hfirst (fun s hs => hg.right hrule hs) h)

theorem followSets_declared (hg : g.WellFormed) (hfirst : FirstDeclared g first) :
    FollowDeclared g (followSets g first) :=
  settle_induction (fun _ h => foldl_followStep_declared hg hfirst (fun _ hr => hr) h) _
    (initialFollow_declared g)

/-- The sets of declared terminals and the end of the input cannot grow without end. -/
theorem FollowDeclared.size_le (h : FollowDeclared g follow) :
    (follow.map TerminalSet.size).sum ≤ g.nonterminals.length * (g.terminals.length + 1) := by
  rw [← h.length_eq]
  refine sum_weight_le fun s hs => ?_
  obtain ⟨n, hn, rfl⟩ := List.mem_iff_getElem.1 hs
  have hsub : ∀ t, t ∈ follow[n] →
      t ∈ TerminalId.endOfInput :: List.range' TerminalId.reserved g.terminals.length := by
    intro t ht
    have hget : t ∈ follow.getD n .empty := by
      rwa [List.getD_eq_getElem?_getD, List.getElem?_eq_getElem hn, Option.getD_some]
    rcases h.declares hget with rfl | hdeclares
    · exact List.mem_cons_self
    · exact List.mem_cons_of_mem _ (mem_range_of_declares hdeclares)
  have hsize := TerminalSet.size_le_of_subset hsub
  rwa [List.length_cons, List.length_range'] at hsize

/-! ### The sets are closed -/

/-- The sets hold what can come next after each nonterminal. -/
structure FollowClosed (g : Grammar) (first : FirstSets) (follow : FollowSets) : Prop where
  /-- The input can end after the start symbol. -/
  start : .endOfInput ∈ follow.getD g.start .empty
  /-- After a nonterminal of a right-hand side comes what follows it there. -/
  rule {rule : Rule} (hrule : rule ∈ g.rules) {before rest : List GrammarSymbol}
    {n : NonterminalId} (hright : rule.right = before ++ .nonterminal n :: rest) :
    following first rule.left rest follow ≤ follow.getD n .empty

/-- The passes reach sets that a pass does not change. -/
theorem followPass_followSets (hg : g.WellFormed) (hfirst : FirstDeclared g first) :
    followPass first g.rules (followSets g first) = followSets g first :=
  settle_fixed TerminalSet.size_strictMono (forall₂_foldl (followStep_grows first) g.rules)
    (fun _ h => foldl_followStep_declared hg hfirst (fun _ hr => hr) h) (fun _ h => h.size_le)
    (initialFollow_declared g) (by rw [passBound]; omega)

/-- What the start symbol may be followed by stays in its set. -/
theorem endOfInput_mem_followSets (hg : g.WellFormed) :
    .endOfInput ∈ (followSets g first).getD g.start .empty := by
  have hstart := Vocabulary.hasNonterminal_iff.1 hg.start
  have hgrow : List.Forall₂ (· ≤ ·) (initialFollow g) (followSets g first) :=
    settle_induction
      (fun _ h => forall₂_trans h (forall₂_foldl (followStep_grows first) g.rules _)) _
      (List.forall₂_refl (initialFollow g))
  have hmem : TerminalId.endOfInput ∈ (initialFollow g).getD g.start .empty := by
    rw [getD_initialFollow, if_pos ⟨rfl, hstart⟩]
    exact TerminalSet.mem_insert.2 (Or.inl rfl)
  have hlt : g.start < (initialFollow g).length := by
    rw [(initialFollow_declared g).length_eq]
    exact hstart
  have hlt' : g.start < (followSets g first).length := hgrow.length_eq ▸ hlt
  -- it is there before the first pass, and no pass takes anything away
  rw [List.getD_eq_getElem?_getD, List.getElem?_eq_getElem hlt, Option.getD_some] at hmem
  rw [List.getD_eq_getElem?_getD, List.getElem?_eq_getElem hlt', Option.getD_some]
  exact hgrow.get hlt hlt' _ hmem

/-- Sets that a pass does not change hold what the rules allow. -/
theorem followClosed_of_fixed (hg : g.WellFormed) (hlength : follow.length = g.nonterminals.length)
    (hstart : .endOfInput ∈ follow.getD g.start .empty)
    (h : followPass first g.rules follow = follow) : FollowClosed g first follow := by
  refine ⟨hstart, fun {rule} hrule {before rest n} hright => ?_⟩
  have hfixed := foldl_fixed (followStep_grows first) h rule hrule
  refine following_le_of_fixed hfixed hright ?_
  rw [hlength]
  have hmem : Symbol.nonterminal n ∈ rule.right := by simp [hright]
  exact Vocabulary.hasNonterminal_iff.1 (hg.right hrule hmem)

/-- The sets of a grammar hold what the rules allow. -/
theorem followSets_closed (hg : g.WellFormed) (hfirst : FirstDeclared g first) :
    FollowClosed g first (followSets g first) :=
  followClosed_of_fixed hg (followSets_declared hg hfirst).length_eq (endOfInput_mem_followSets hg)
    (followPass_followSets hg hfirst)

/-! ### SELECT -/

/-- A rule is selected by what begins its right-hand side, and by what can come after the left-hand
side if the right-hand side can be empty. -/
theorem mem_selectOf {r : RuleId} {rule : Rule} (h : g.rules[r]? = some rule) :
    t ∈ (compute g).selectOf r ↔
      t ∈ ((compute g).firstOfSequence rule.right).terminals ∨
        ((compute g).firstOfSequence rule.right).nullable = true ∧
          t ∈ (compute g).followOf rule.left := by
  have hselect : (compute g).selectOf r =
      following (compute g).first rule.left rule.right (compute g).follow := by
    rw [selectOf, compute, List.getD_eq_getElem?_getD, List.getElem?_map, h]
    rfl
  rw [hselect]
  exact mem_following

end Analysis
end ArithFrontEnd
