import ArithFrontEnd.Analysis.Loops
import ArithFrontEnd.Proofs.Analysis.Follow

/-!
# The loops of the analysis stop

A round of a loop is a pass that notes whether it has changed anything.  It looks at one set at a
time and at sizes only, while the sets change under it.  Because nothing is ever taken away, the
note is right for the whole round: two steps change something together just if one of them does.  So
every round but the last makes the sets larger, and they are bounded.

## Main definitions

* `Tracks` — a step notes the changes that it makes.
* `Enlarges` — what a round does to its sets.
* `StopsWithin` — a loop stops after so many rounds.

## Main results

* `Tracks.comp`, `Tracks.foldl` — steps that note their changes do so together.
* `firstRound_eq`, `followRound_eq` — a round is a pass, and notes whether it has changed something.
* `Repeats.unique` — a loop can be run in one way only.
* `repeats_passes` — a loop stops if its sets are bounded.
* `loops_stop` — **the loops of a grammar stop, with sets that are closed under its rules.**
-/

namespace ArithFrontEnd

/-! ### The sizes tell a change -/

theorem TerminalSet.unionWith_eq (s u : TerminalSet) :
    s.unionWith u = (s.union u, decide (s.union u ≠ s)) := by
  refine Prod.ext rfl ?_
  show ((s.union u).size != s.size) = _
  rw [Bool.eq_iff_iff, bne_iff_ne, decide_eq_true_iff]
  refine ⟨fun hsize heq => hsize (congrArg size heq), fun hne => ?_⟩
  have hlt : s < s.union u := lt_of_le_of_ne (s.le_union_left u) (Ne.symm hne)
  exact (TerminalSet.size_strictMono hlt).ne'

theorem FirstSet.union_eq_left {a b : FirstSet} : a.union b = a ↔
    a.terminals.union b.terminals = a.terminals ∧ (b.nullable && !a.nullable) = false := by
  obtain ⟨s, x⟩ := a
  obtain ⟨u, y⟩ := b
  simp only [union, FirstSet.mk.injEq]
  cases x <;> cases y <;> simp

theorem FirstSet.unionWith_eq (a b : FirstSet) :
    a.unionWith b = (a.union b, decide (a.union b ≠ a)) := by
  simp only [unionWith, TerminalSet.unionWith_eq, ne_eq, FirstSet.union_eq_left]
  cases ha : a.nullable <;> cases hb : b.nullable <;> simp [union, ha, hb]

namespace Analysis

variable {β ρ : Type} [DecidableEq β]

/-- The step makes of the sets what `f` makes of them, and notes it if they have changed. -/
def Tracks (step : List β × Bool → List β × Bool) (f : List β → List β) : Prop :=
  ∀ xs changed, step (xs, changed) = (f xs, changed || decide (f xs ≠ xs))

theorem tracks_addAt {add : β → β × Bool} {f : β → β}
    (hadd : ∀ x, add x = (f x, decide (f x ≠ x))) (i : Nat) :
    Tracks (addAt add i) (·.modify i f) := by
  intro xs changed
  rw [addAt]
  cases hx : xs[i]? with
  | none =>
    have hsame : xs.modify i f = xs := List.modify_eq_self (List.getElem?_eq_none_iff.1 hx)
    simp [hsame]
  | some x =>
    obtain ⟨hi, rfl⟩ := List.getElem?_eq_some_iff.1 hx
    have hset : xs.modify i f = xs.set i (f xs[i]) := List.modify_eq_set_get f hi
    have hsame : xs.set i (f xs[i]) = xs ↔ f xs[i] = xs[i] := by
      constructor
      · intro h
        simpa [hi] using congrArg (·[i]?) h
      · intro h
        rw [h, List.set_getElem_self]
    simp only [hadd, hset, ne_eq, hsame]

variable [PartialOrder β]

/-- What has been added is not taken away, so that two steps change something if one of them
does. -/
theorem Tracks.comp {step₁ step₂ : List β × Bool → List β × Bool} {f₁ f₂ : List β → List β}
    (h₁ : Tracks step₁ f₁) (h₂ : Tracks step₂ f₂) (hgrow₁ : ∀ xs, List.Forall₂ (· ≤ ·) xs (f₁ xs))
    (hgrow₂ : ∀ xs, List.Forall₂ (· ≤ ·) xs (f₂ xs)) :
    Tracks (fun state => step₂ (step₁ state)) (fun xs => f₂ (f₁ xs)) := by
  intro xs changed
  have hsame : f₂ (f₁ xs) = xs ↔ f₁ xs = xs ∧ f₂ (f₁ xs) = f₁ xs := by
    constructor
    · intro h
      have hback := hgrow₂ (f₁ xs)
      rw [h] at hback
      have h₁ : f₁ xs = xs := forall₂_antisymm hback (hgrow₁ xs)
      exact ⟨h₁, by rw [h, h₁]⟩
    · rintro ⟨h₁, h₂⟩
      rw [h₂, h₁]
  show step₂ (step₁ (xs, changed)) = _
  rw [h₁, h₂, Bool.or_assoc, ← Bool.decide_or]
  simp only [ne_eq, hsame, not_and_or]

theorem Tracks.foldl {step : List β × Bool → ρ → List β × Bool} {f : List β → ρ → List β}
    (h : ∀ r, Tracks (step · r) (f · r)) (hgrow : ∀ xs r, List.Forall₂ (· ≤ ·) xs (f xs r))
    (rs : List ρ) : Tracks (rs.foldl step ·) (rs.foldl f ·) := by
  induction rs with
  | nil =>
    intro xs changed
    simp
  | cons r rs ih => exact (h r).comp ih (hgrow · r) (forall₂_foldl hgrow rs)

/-! ### Rounds and passes -/

variable {first : FirstSets} {follow : FollowSets}

/-- A round for FIRST is a pass, and notes whether it has changed something. -/
theorem firstRound_eq (rules : List Rule) (first : FirstSets) :
    firstRound rules first =
      (firstPass rules first, decide (firstPass rules first ≠ first)) := by
  have hupdate : ∀ rule, Tracks (firstUpdate · rule) (firstStep · rule) := by
    intro rule first changed
    have hadd :=
      tracks_addAt (fun a => FirstSet.unionWith_eq a (firstOf first rule.right)) rule.left
    have hsymbols : firstOf first rule.symbols = firstOf first rule.right :=
      firstOf_withoutActions rule.right
    show addAt (·.unionWith (firstOf first rule.symbols)) rule.left (first, changed) = _
    rw [hsymbols]
    exact hadd first changed
  have hround := Tracks.foldl hupdate firstStep_grows rules first false
  rwa [Bool.false_or] at hround

theorem following_withoutActions (left : NonterminalId) (rest : List GrammarSymbol) :
    following first left (withoutActions rest) follow = following first left rest follow := by
  rw [following, following, firstOf_withoutActions]

theorem tracks_followUpdates (first : FirstSets) (left : NonterminalId)
    (right : List GrammarSymbol) :
    Tracks (followUpdates first left (withoutActions right)) (followSymbols first left right) := by
  induction right with
  | nil =>
    intro follow changed
    simp [withoutActions, followUpdates, followSymbols]
  | cons s rest ih =>
    cases s with
    | terminal t => exact ih
    | action a => exact ih
    | nonterminal n =>
      have hadd : Tracks
          (fun state : FollowSets × Bool =>
            addAt (·.unionWith (following first left (withoutActions rest) state.1)) n state)
          (fun follow : FollowSets =>
            follow.modify n (·.union (following first left rest follow))) := by
        intro follow changed
        show addAt (fun s : TerminalSet =>
          s.unionWith (following first left (withoutActions rest) follow)) n (follow, changed) = _
        rw [following_withoutActions]
        exact tracks_addAt (fun s => TerminalSet.unionWith_eq s _) n follow changed
      exact hadd.comp ih (fun follow => forall₂_modify (fun s => s.le_union_left _) follow n)
        (followSymbols_grows first left rest)

/-- A round for FOLLOW is a pass, and notes whether it has changed something. -/
theorem followRound_eq (first : FirstSets) (rules : List Rule) (follow : FollowSets) :
    followRound first rules follow =
      (followPass first rules follow, decide (followPass first rules follow ≠ follow)) := by
  have hupdate : ∀ rule, Tracks (followUpdate first · rule) (followStep first · rule) :=
    fun rule => tracks_followUpdates first rule.left rule.right
  have hround := Tracks.foldl hupdate (followStep_grows first) rules follow false
  rwa [Bool.false_or] at hround

/-! ### The loops -/

section Loop

variable {α : Type} {round : α → α × Bool} {x : α} {ys zs : List α}

theorem Repeats.ne_nil (h : Repeats round x ys) : ys ≠ [] := by
  cases h <;> exact List.cons_ne_nil _ _

/-- A loop makes one list of rounds. -/
theorem Repeats.unique (h : Repeats round x ys) (h' : Repeats round x zs) : ys = zs := by
  induction h generalizing zs with
  | stop h =>
    cases h' with
    | stop h' =>
      obtain ⟨rfl, -⟩ := Prod.mk.inj (h.symm.trans h')
      rfl
    | again h' rest => cases h.symm.trans h'
  | again h _ ih =>
    cases h' with
    | stop h' => cases h.symm.trans h'
    | again h' rest =>
      obtain ⟨rfl, -⟩ := Prod.mk.inj (h.symm.trans h')
      rw [ih rest]

end Loop

/-! ### What a round does to its sets -/

/-- One of two sets has a terminal that the other lacks. -/
def TerminalGain (s u : TerminalSet) : Prop := ∃ t, t ∉ s ∧ t ∈ u

/-- One of two sets has a terminal that the other lacks, or the empty string. -/
def FirstGain (a b : FirstSet) : Prop :=
  TerminalGain a.terminals b.terminals ∨ a.nullable = false ∧ b.nullable = true

theorem terminalGain_of_lt {s u : TerminalSet} (h : s < u) : TerminalGain s u := by
  by_contra hno
  refine h.not_ge fun t ht => ?_
  by_contra hs
  exact hno ⟨t, hs, ht⟩

theorem firstGain_of_lt {a b : FirstSet} (h : a < b) : FirstGain a b := by
  by_contra hno
  obtain ⟨hterminals, hnullable⟩ := not_or.1 hno
  refine h.not_ge ⟨?_, fun hb => ?_⟩
  · by_contra hnot
    exact hterminals (terminalGain_of_lt (lt_of_le_not_ge h.le.1 hnot))
  · by_contra ha
    exact hnullable ⟨Bool.eq_false_iff.2 ha, hb⟩

/-- A round adds to its sets.  If it notes a change, one of them has gained something, and if it
notes none, they are as before. -/
structure Enlarges (gain : β → β → Prop) (round : List β → List β × Bool) (xs : List β) :
    Prop where
  /-- No set loses anything. -/
  le : List.Forall₂ (· ≤ ·) xs (round xs).1
  /-- A change that is noted is one. -/
  gain_of_changed (h : (round xs).2 = true) :
    ∃ (n : Nat) (x y : β), xs[n]? = some x ∧ (round xs).1[n]? = some y ∧ gain x y
  /-- A change is noted if there is one. -/
  eq_of_unchanged (h : (round xs).2 = false) : (round xs).1 = xs

omit [DecidableEq β] in
/-- If sets have been added to, one of them has grown. -/
theorem exists_lt_of_forall₂ {xs ys : List β} (h : List.Forall₂ (· ≤ ·) xs ys) (hne : xs ≠ ys) :
    ∃ (n : Nat) (x y : β), xs[n]? = some x ∧ ys[n]? = some y ∧ x < y := by
  induction h with
  | nil => exact absurd rfl hne
  | @cons x y xs ys hle _ ih =>
    by_cases heq : x = y
    · obtain ⟨n, x', y', hx, hy, hlt⟩ := ih fun htail => hne (by rw [heq, htail])
      exact ⟨n + 1, x', y', hx, hy, hlt⟩
    · exact ⟨0, x, y, rfl, rfl, lt_of_le_of_ne hle heq⟩

theorem enlarges_of_pass {gain : β → β → Prop} {round : List β → List β × Bool}
    {pass : List β → List β} (hgain : ∀ x y, x < y → gain x y)
    (hround : ∀ xs, round xs = (pass xs, decide (pass xs ≠ xs)))
    (hgrow : ∀ xs, List.Forall₂ (· ≤ ·) xs (pass xs)) (xs : List β) : Enlarges gain round xs := by
  constructor
  · rw [hround]
    exact hgrow xs
  · intro h
    rw [hround] at h ⊢
    have hne : xs ≠ pass xs := Ne.symm (of_decide_eq_true h)
    obtain ⟨n, x, y, hx, hy, hlt⟩ := exists_lt_of_forall₂ (hgrow xs) hne
    exact ⟨n, x, y, hx, hy, hgain x y hlt⟩
  · intro h
    rw [hround] at h ⊢
    exact not_not.1 (of_decide_eq_false h)

/-! ### Bounded sets -/

/-- The loop of a round stops, after no more rounds than this and with this result.  It can be run
in one way only, and one more round would change nothing. -/
def StopsWithin {α : Type} (round : α → α × Bool) (start : α) (bound : Nat) (result : α) : Prop :=
  ∃ states, Repeats round start states ∧ (∀ others, Repeats round start others → others = states) ∧
    states.length ≤ bound ∧ states.getLast? = some result ∧ round result = (result, false)

section Bounded

variable {round : List β → List β × Bool} {pass : List β → List β} {weight : β → Nat}
  {P : List β → Prop} {most bound : Nat} {xs : List β}
  (hround : ∀ xs, round xs = (pass xs, decide (pass xs ≠ xs))) (hweight : StrictMono weight)
  (hgrow : ∀ xs, List.Forall₂ (· ≤ ·) xs (pass xs)) (hkeep : ∀ xs, P xs → P (pass xs))
  (hmost : ∀ xs, P xs → (xs.map weight).sum ≤ most) (hxs : P xs)
  (hbound : most < bound + (xs.map weight).sum)

include hround hweight hgrow hkeep hmost hxs hbound

/-- The loop makes the passes that are made within the bound. -/
theorem repeats_passes : Repeats round xs (passes pass bound xs) := by
  induction bound generalizing xs with
  | zero => exact absurd (hmost xs hxs) (by omega)
  | succ bound ih =>
    rw [passes]
    split
    · next h => exact .stop (by rw [hround, h]; simp)
    · next hne =>
      -- a round that notes a change uses up one of the rounds, and adds one at least
      have hlt := sum_lt_of_forall₂ hweight (hgrow xs) (Ne.symm hne)
      exact .again (by rw [hround, decide_eq_true hne]) (ih (hkeep xs hxs) (by omega))

theorem stopsWithin_settle : StopsWithin round xs bound (settle pass bound xs) := by
  have hrepeats := repeats_passes hround hweight hgrow hkeep hmost hxs hbound
  have hfixed := settle_fixed hweight hgrow hkeep hmost hxs hbound
  refine ⟨_, hrepeats, fun others h => h.unique hrepeats, length_passes_le pass bound xs, ?_, ?_⟩
  · rw [settle, List.getLastD_eq_getLast?, List.getLast?_eq_some_getLast hrepeats.ne_nil,
      Option.getD_some]
  · rw [hround, hfixed]
    simp

end Bounded

/-! ### The loops of a grammar -/

/-- The loops of a grammar stop.  A round only adds to the sets, and notes a change just if a set
gains a terminal or the empty string; so a loop makes one round more at most than there are gains to
be made.  A round that notes no change has found that the sets hold what the rules allow. -/
theorem loops_stop {g : Grammar} (hg : g.IsDefined) :
    ((∀ first, Enlarges FirstGain (firstRound g.rules) first ∧
        (first.length = g.nonterminals.length → (firstRound g.rules first).2 = false →
          FirstClosed g first)) ∧
      StopsWithin (firstRound g.rules) (noFirst g)
        (g.nonterminals.length * (g.terminals.length + 1) + 1) (compute g).first ∧
      FirstClosed g (compute g).first) ∧
    (∀ first follow, Enlarges TerminalGain (followRound first g.rules) follow ∧
        (follow.length = g.nonterminals.length → .endOfInput ∈ follow.getD g.start .empty →
          (followRound first g.rules follow).2 = false → FollowClosed g first follow)) ∧
      StopsWithin (followRound (compute g).first g.rules) (initialFollow g)
        (g.nonterminals.length * (g.terminals.length + 1) + 1) (compute g).follow ∧
      FollowClosed g (compute g).first (compute g).follow := by
  have hfirst := firstSets_declared hg.wellFormed
  refine ⟨⟨fun first => ⟨?_, fun hlength hflag => ?_⟩, ?_, firstSets_closed hg.wellFormed⟩,
    fun first follow => ⟨?_, fun hlength hstart hflag => ?_⟩, ?_,
    followSets_closed hg.wellFormed hfirst⟩
  · exact enlarges_of_pass (fun _ _ => firstGain_of_lt) (firstRound_eq g.rules)
      (forall₂_foldl firstStep_grows g.rules) first
  · rw [firstRound_eq] at hflag
    exact firstClosed_of_fixed hg.wellFormed hlength (not_not.1 (of_decide_eq_false hflag))
  · exact stopsWithin_settle (firstRound_eq g.rules) FirstSet.weight_strictMono
      (forall₂_foldl firstStep_grows g.rules)
      (fun _ h => foldl_firstStep_declared hg.wellFormed (fun _ hr => hr) h)
      (fun _ h => h.weight_le) (noFirst_declared g) (by omega)
  · exact enlarges_of_pass (fun _ _ => terminalGain_of_lt) (followRound_eq first g.rules)
      (forall₂_foldl (followStep_grows first) g.rules) follow
  · rw [followRound_eq] at hflag
    exact followClosed_of_fixed hg.wellFormed hlength hstart (not_not.1 (of_decide_eq_false hflag))
  · exact stopsWithin_settle (followRound_eq _ g.rules) TerminalSet.size_strictMono
      (forall₂_foldl (followStep_grows _) g.rules)
      (fun _ h => foldl_followStep_declared hg.wellFormed hfirst (fun _ hr => hr) h)
      (fun _ h => h.size_le) (initialFollow_declared g) (by omega)

/-- In the grammar `S -> A b`, `A -> a A`, `A -> ε` there are seven rounds at most. -/
theorem loops_stop_aStarB :
    StopsWithin (firstRound Grammar.aStarB.rules) (noFirst .aStarB) 7 (compute .aStarB).first ∧
    StopsWithin (followRound (compute .aStarB).first Grammar.aStarB.rules) (initialFollow .aStarB) 7
      (compute .aStarB).follow ∧
    (∃ (n : Nat) (x y : FirstSet), (noFirst .aStarB)[n]? = some x ∧
      (firstRound Grammar.aStarB.rules (noFirst .aStarB)).1[n]? = some y ∧ FirstGain x y) ∧
    FirstClosed .aStarB [⟨.ofList [2, 3], false⟩, ⟨.ofList [2], true⟩] ∧
    FollowClosed .aStarB (compute .aStarB).first [.ofList [.endOfInput], .ofList [3]] := by
  obtain ⟨⟨hfirst, hfirstStops, -⟩, hfollow, hfollowStops, -⟩ := loops_stop Grammar.aStarB_isDefined
  refine ⟨hfirstStops, hfollowStops, ?_, ?_, ?_⟩
  · exact (hfirst (noFirst .aStarB)).1.gain_of_changed (by decide +kernel)
  · exact (hfirst _).2 rfl (by decide +kernel)
  · exact (hfollow _ _).2 rfl (by decide +kernel) (by decide +kernel)

end Analysis
end ArithFrontEnd
