import ArithFrontEnd.Proofs.Prediction.Language

/-!
# Where the tokens are found to be wrong

The sets of a table do not know the context in which a nonterminal stands, so that a parser may make
some moves on a token that is wrong there.  But it reads no token after the first wrong one: a move
sees only the next terminal, so that it is a move towards every sentence that goes on with this
terminal, and where there is no move no sentence goes on so.  What has been read is the beginning of
a sentence, if what is expected derives terminals at all.

## Main definitions

* `HeadsFor` — the parser is on the way to every sentence that goes on with the next terminal.
* `Grammar.Productive` — every nonterminal derives a sequence of terminals.

## Main results

* `move_headsFor`, `headsFor_of_reachable` — what a move and a run keep.
* `HeadsFor.not_isSentence` — no sentence goes on where the tokens are rejected.
* `exists_sentence_of_readSoFar` — what has been read can be completed.
* `rejects_first_wrong_token` — **tokens are rejected at the first one that is wrong.**
-/

namespace ArithFrontEnd

variable {g : Grammar}

/-- Every nonterminal derives a sequence of terminals. -/
def Grammar.Productive (g : Grammar) : Prop :=
  ∀ n, g.Declares (.nonterminal n) → ∃ ts, g.Derives [.nonterminal n] (sentenceSymbols ts)

/-- Where every nonterminal does, every sequence of symbols derives a sequence of terminals. -/
theorem Grammar.Productive.derives (h : g.Productive) {w : List GrammarSymbol}
    (hw : ∀ s ∈ withoutActions w, g.Declares s) :
    ∃ ts, g.Derives (withoutActions w) (sentenceSymbols ts) := by
  induction w with
  | nil => exact ⟨[], .refl _⟩
  | cons s w ih =>
    cases s with
    | terminal t =>
      obtain ⟨ts, hts⟩ := ih fun s' hs' => hw s' (List.mem_cons_of_mem _ hs')
      exact ⟨t :: ts, (Grammar.Derives.refl [.terminal t]).append hts⟩
    | nonterminal n =>
      obtain ⟨us, hus⟩ := h n (hw _ List.mem_cons_self)
      obtain ⟨ts, hts⟩ := ih fun s' hs' => hw s' (List.mem_cons_of_mem _ hs')
      refine ⟨us ++ ts, ?_⟩
      rw [sentenceSymbols, List.map_append]
      exact hus.append hts
    | action a => exact ih hw

namespace PredictionTable

variable {policy : ConflictPolicy} {table : PredictionTable} {kinds kinds' : Kinds}
  {input rest rest' : List (InputToken TerminalId)}

/-! ### What has been read -/

/-- What has been read is the beginning of a sentence, if every nonterminal derives terminals. -/
theorem exists_sentence_of_readSoFar (hg : g.WellFormed) (hproductive : g.Productive)
    (h : ReadSoFar g input kinds rest) :
    ∃ ts more, terminalsOf input = ts ++ terminalsOf rest ∧ g.IsSentence (ts ++ more) := by
  obtain ⟨ts, hinput, hderives⟩ := h
  have hstart : ∀ s ∈ [Symbol.nonterminal g.start], g.Declares s := by
    intro s hs
    obtain rfl := List.mem_singleton.1 hs
    exact hg.start
  -- what is expected is made of declared symbols, like everything that the start symbol derives
  obtain ⟨more, hmore⟩ := hproductive.derives fun s hs =>
    hderives.declares hg hstart s (List.mem_append_right _ hs)
  refine ⟨ts, more, hinput, ?_⟩
  rw [Grammar.IsSentence, sentenceSymbols, List.map_append]
  exact hderives.trans ((Grammar.Derives.refl (sentenceSymbols ts)).append hmore)

/-! ### What may come next -/

/-- Some tokens have been read, and the parser is on the way to every sentence that begins with them
and goes on with the next terminal. -/
def HeadsFor (g : Grammar) (input : List (InputToken TerminalId)) (kinds : Kinds)
    (rest : List (InputToken TerminalId)) : Prop :=
  ∃ read, input = read ++ rest ∧ ∀ other, nextTerminal? other = nextTerminal? rest →
    g.IsSentence (terminalsOf (read ++ other)) → OnTheWay g kinds other

/-- A move goes on towards all these sentences. -/
theorem move_headsFor (hg : g.WellFormed) (htable : ofGrammar g .reject = .ok table)
    (h : HeadsFor g input kinds rest) (hmove : Move table.predictor kinds rest kinds' rest') :
    HeadsFor g input kinds' rest' := by
  obtain ⟨read, rfl, hheads⟩ := h
  rcases hmove.input_cases with ⟨rfl, hother⟩ | ⟨token, rfl, hother⟩
  · refine ⟨read, rfl, fun other hnext hsentence => ?_⟩
    exact move_onTheWay hg htable (hheads other hnext hsentence) (hother other hnext)
  · refine ⟨read ++ [token], by rw [List.append_assoc]; rfl, fun other _ hsentence => ?_⟩
    rw [List.append_assoc] at hsentence
    exact move_onTheWay hg htable (hheads (token :: other) rfl hsentence) (hother token other rfl)

theorem initial_headsFor (hg : g.WellFormed) (htable : ofGrammar g .reject = .ok table)
    (input : List (InputToken TerminalId)) :
    HeadsFor g input (kindsOf (Config.initial table.predictor input).stack) input :=
  ⟨[], rfl, fun _ _ hsentence => initial_onTheWay hg htable hsentence⟩

/-- A parse goes towards all sentences that go on with the next terminal, and what has been read can
be the beginning of one. -/
theorem headsFor_of_reachable (hg : g.WellFormed) (htable : ofGrammar g .reject = .ok table)
    {registry : Registry ActionId} {c : Config TerminalId NonterminalId ActionId}
    (h : Config.Reachable table.predictor registry input c) :
    HeadsFor g input (kindsOf c.stack) c.input ∧ ReadSoFar g input (kindsOf c.stack) c.input := by
  induction h with
  | initial => exact ⟨initial_headsFor hg htable input, initial_readSoFar hg htable input⟩
  | step _ hstep ih =>
    have hmove := Config.move_of_step hstep
    exact ⟨move_headsFor hg htable ih.1 hmove, move_readSoFar hg htable ih.2 hmove⟩

/-- Where the tokens are rejected, no sentence begins with what has been read and goes on with the
next terminal. -/
theorem HeadsFor.not_isSentence (hg : g.WellFormed) (htable : ofGrammar g .reject = .ok table)
    {registry : Registry ActionId} {c : Config TerminalId NonterminalId ActionId} {e : ParseError}
    (h : HeadsFor g input (kindsOf c.stack) c.input)
    (hrejected : c.step table.predictor registry = .rejected e)
    (hcategory : e.category = .syntactic) :
    ∃ read, input = read ++ c.input ∧ ∀ other, nextTerminal? other = nextTerminal? c.input →
      ¬ g.IsSentence (terminalsOf (read ++ other)) := by
  obtain ⟨read, hinput, hheads⟩ := h
  refine ⟨read, hinput, fun other hnext hsentence => ?_⟩
  exact not_onTheWay_of_rejected hg htable hrejected hcategory hnext (hheads other hnext hsentence)

/-! ### The first wrong token -/

/-- The tokens can be read up to the one of this number, and not further.  If there is none of this
number, the end of the input comes too early. -/
structure FirstWrong (g : Grammar) (input : List (InputToken TerminalId)) (i : Nat) : Prop where
  /-- There are as many tokens before it. -/
  le_length : i ≤ input.length
  /-- No sentence begins with the tokens up to the wrong one. -/
  wrong (h : i < input.length) {ts : List TerminalId} (hts : g.IsSentence ts) :
    ¬ terminalsOf (input.take (i + 1)) <+: ts
  /-- All the tokens are not a sentence. -/
  early (h : i = input.length) : ¬ g.IsSentence (terminalsOf input)
  /-- The tokens before the wrong one begin a sentence, if every nonterminal derives terminals. -/
  right (h : g.Productive) : ∃ ts, g.IsSentence ts ∧ terminalsOf (input.take i) <+: ts

theorem terminalsOf_append (input rest : List (InputToken TerminalId)) :
    terminalsOf (input ++ rest) = terminalsOf input ++ terminalsOf rest := List.map_append

/-- Any terminals are those of some tokens. -/
theorem exists_terminalsOf (ts : List TerminalId) :
    ∃ input : List (InputToken TerminalId), terminalsOf input = ts := by
  refine ⟨ts.map fun t => ⟨t, .nothing, ""⟩, ?_⟩
  rw [terminalsOf, List.map_map]
  exact List.map_id ts

/-- Where the tokens are rejected, the next one is the first that is wrong. -/
theorem firstWrong_of_rejected (hg : g.WellFormed) (htable : ofGrammar g .reject = .ok table)
    {registry : Registry ActionId} {c : Config TerminalId NonterminalId ActionId} {e : ParseError}
    (hreach : Config.Reachable table.predictor registry input c)
    (hrejected : c.step table.predictor registry = .rejected e)
    (hcategory : e.category = .syntactic) :
    ∃ i, c.input = input.drop i ∧ FirstWrong g input i := by
  obtain ⟨hheads, hread⟩ := headsFor_of_reachable hg htable hreach
  obtain ⟨read, hinput, hnot⟩ := hheads.not_isSentence hg htable hrejected hcategory
  subst hinput
  have hdrop : (read ++ c.input).drop read.length = c.input := List.drop_left
  refine ⟨read.length, hdrop.symm, ?_⟩
  constructor
  case le_length => simp
  case wrong =>
    rintro hlt ts hts ⟨more, rfl⟩
    cases hrest : c.input with
    | nil => simp [hrest] at hlt
    | cons token rest =>
      obtain ⟨other, rfl⟩ := exists_terminalsOf more
      have htake : (read ++ c.input).take (read.length + 1) = read ++ [token] := by
        rw [hrest, List.take_length_add_append]
        rfl
      rw [htake, ← terminalsOf_append, List.append_assoc] at hts
      exact hnot (token :: other) (by rw [hrest]; rfl) hts
  case early => exact fun _ hsentence => hnot c.input rfl hsentence
  case right =>
    intro hproductive
    obtain ⟨ts, more, hts, hsentence⟩ := exists_sentence_of_readSoFar hg hproductive hread
    obtain rfl := List.append_cancel_right ((terminalsOf_append read c.input).symm.trans hts)
    exact ⟨_, hsentence, by rw [List.take_left]; exact List.prefix_append _ _⟩

/-- Tokens are rejected by a step of the parse, and all tokens before it have been read.  What comes
next is shown as the first wrong token: no sentence begins with the tokens up to it, or all tokens
are not a sentence if it is the end of the input, and the tokens before it begin a sentence if every
nonterminal derives terminals. -/
theorem rejects_first_wrong_token (hg : g.IsDefined) (htable : ofGrammar g .reject = .ok table)
    (registry : Registry ActionId) (input : List (InputToken TerminalId)) :
    (∀ e, parse table.predictor registry input = .error e → e.category = .syntactic →
      ∃ c, Config.Reachable table.predictor registry input c ∧
        c.step table.predictor registry = .rejected e) ∧
    ∀ c e, Config.Reachable table.predictor registry input c →
      c.step table.predictor registry = .rejected e → e.category = .syntactic →
      ∃ i, c.input = input.drop i ∧ FirstWrong g input i ∧
        ∃ part, e = .unexpectedToken part (table.predictor.shownNext (input.drop i)) ∨
          e = .noProduction part (table.predictor.shownNext (input.drop i)) := by
  refine ⟨fun e he hcategory => ?_, fun c e hreach hrejected hcategory => ?_⟩
  · obtain ⟨c, hreach, hverdict⟩ := Config.exists_reachable_of_parse he (by
      rintro steps heq
      obtain rfl := Except.error.inj heq
      cases hcategory)
    exact ⟨c, hreach, Progress.verdict?_eq_error_iff.1 hverdict⟩
  · obtain ⟨i, hinput, hwrong⟩ :=
      firstWrong_of_rejected hg.wellFormed htable hreach hrejected hcategory
    refine ⟨i, hinput, hwrong, ?_⟩
    rw [← hinput]
    exact (Config.refuses_of_step hrejected hcategory).shows_next

end PredictionTable

/-- The grammar `S -> ( A )`, `S -> [ A ]`, `A -> ε`, in which `A` may be empty before either
closing bracket. -/
def Grammar.brackets : Grammar where
  terminals := ["(", ")", "[", "]"]
  nonterminals := [⟨"S", false⟩, ⟨"A", false⟩]
  rules := [⟨0, [.terminal 2, .nonterminal 1, .terminal 3]⟩,
    ⟨0, [.terminal 4, .nonterminal 1, .terminal 5]⟩, ⟨1, []⟩]
  start := 0

namespace PredictionTable

/-- The table of `S -> ( A )`, `S -> [ A ]`, `A -> ε`. -/
def brackets : PredictionTable where
  vocabulary := Grammar.brackets.toVocabulary
  start := 0
  rows :=
    [[(2, ⟨0, [.terminal 2, .nonterminal 1, .terminal 3], none⟩),
      (4, ⟨1, [.terminal 4, .nonterminal 1, .terminal 5], none⟩)],
      [(3, ⟨2, [], none⟩), (5, ⟨2, [], none⟩)]]

/-- In `( ]` the empty right-hand side is predicted for the wrong bracket, which is rejected then:
no sentence begins like this. -/
theorem rejects_first_wrong_token_brackets :
    parse brackets.predictor .empty [⟨2, .nothing, "("⟩, ⟨5, .nothing, "]"⟩] =
        .error (.unexpectedToken ")" "]") ∧
      FirstWrong .brackets [⟨2, .nothing, "("⟩, ⟨5, .nothing, "]"⟩] 1 := by
  have hg : Grammar.brackets.IsDefined :=
    ⟨[.terminal "(", .terminal ")", .terminal "[", .terminal "]", .nonterminal "S",
      .nonterminal "A", .rule 0 [.terminal 2, .nonterminal 1, .terminal 3],
      .rule 0 [.terminal 4, .nonterminal 1, .terminal 5], .rule 1 []], rfl⟩
  have htable : ofGrammar .brackets .reject = .ok brackets := by decide +kernel
  have hparse : parse brackets.predictor .empty [⟨2, .nothing, "("⟩, ⟨5, .nothing, "]"⟩] =
      .error (.unexpectedToken ")" "]") := by decide +kernel
  obtain ⟨hrejects, hwrong⟩ := rejects_first_wrong_token hg htable .empty
    [⟨2, .nothing, "("⟩, ⟨5, .nothing, "]"⟩]
  obtain ⟨c, hreach, hrejected⟩ := hrejects _ hparse rfl
  obtain ⟨i, -, hfirst, part, hshown⟩ := hwrong c _ hreach hrejected rfl
  -- the error shows the second token, so that this is the wrong one
  have hnext : brackets.predictor.shownNext
      ([⟨2, .nothing, "("⟩, ⟨5, .nothing, "]"⟩].drop i) = "]" := by
    rcases hshown with h | h
    · exact (ParseError.unexpectedToken.inj h).2.symm
    · cases h
  refine ⟨hparse, ?_⟩
  match i, hfirst, hnext with
  | 0, _, hnext => exact absurd hnext (by decide)
  | 1, hfirst, _ => exact hfirst
  | i + 2, _, hnext =>
    rw [List.drop_eq_nil_of_le (by simp)] at hnext
    exact absurd hnext (by decide)

end PredictionTable
end ArithFrontEnd
