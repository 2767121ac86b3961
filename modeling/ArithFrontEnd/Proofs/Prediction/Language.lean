import ArithFrontEnd.Proofs.Grammar.LeftmostDerivation
import ArithFrontEnd.Proofs.Prediction.Acyclic

/-!
# The parser of a table accepts the language of the grammar

At every moment the tokens that have been read and the symbols that are expected derive from the
start symbol, so that what is accepted is a sentence.  Conversely, while a sentence is read, the
symbols that are expected have a leftmost derivation of what is left of it.  Where conflicts are
refused, the next terminal leaves one rule for the nonterminal in front, in the derivation and in
the table.

## Main definitions

* `ReadSoFar` — what has been read and what is expected derive from the start symbol.
* `OnTheWay` — what is expected has a leftmost derivation of what is left.

## Main results

* `move_readSoFar`, `move_onTheWay` — what a move keeps.
* `isSentence_of_run` — **what is accepted is a sentence.**
* `leftmost_unique` — there is one leftmost derivation where conflicts are refused.
* `not_syntactic_of_run` — **the tokens of a sentence are not rejected.**
-/

namespace ArithFrontEnd
namespace PredictionTable

variable {g : Grammar} {policy : ConflictPolicy} {table : PredictionTable}

/-- The terminals of tokens. -/
def terminalsOf (input : List (InputToken TerminalId)) : List TerminalId :=
  input.map (·.terminal)

/-- The kinds of cells of a table parser. -/
abbrev Kinds := List (CellKind TerminalId NonterminalId ActionId)

/-! ### What is accepted is a sentence -/

/-- What has been read of the input, and what is expected after it, derive from the start symbol. -/
def ReadSoFar (g : Grammar) (input : List (InputToken TerminalId)) (kinds : Kinds)
    (rest : List (InputToken TerminalId)) : Prop :=
  ∃ ts, terminalsOf input = ts ++ terminalsOf rest ∧
    g.Derives [.nonterminal g.start] (sentenceSymbols ts ++ withoutActions (expected kinds))

/-- A move goes on with the derivation. -/
theorem move_readSoFar (hg : g.WellFormed) (htable : ofGrammar g policy = .ok table)
    {input rest rest' : List (InputToken TerminalId)} {kinds kinds' : Kinds}
    (h : ReadSoFar g input kinds rest) (hmove : Move table.predictor kinds rest kinds' rest') :
    ReadSoFar g input kinds' rest' := by
  obtain ⟨ts, hinput, hderives⟩ := h
  cases hmove with
  | finish => exact ⟨ts, hinput, hderives⟩
  | left n => exact ⟨ts, hinput, hderives⟩
  | performed a => exact ⟨ts, hinput, hderives⟩
  | @matched t token _ _ hterminal =>
    -- the terminal is no longer expected, and has been read
    refine ⟨ts ++ [t], ?_, ?_⟩
    · rw [hinput, ← hterminal]
      simp [terminalsOf]
    · have hsymbols : sentenceSymbols (ts ++ [t]) ++ withoutActions (expected kinds') =
          sentenceSymbols ts ++ (.terminal t :: withoutActions (expected kinds')) := by
        simp [sentenceSymbols]
      rw [hsymbols]
      exact hderives
  | @expanded n _ prediction below hpredict =>
    obtain ⟨r, rule, hrule, rfl, -, hproduction, -⟩ := predict_eq_some hg htable hpredict
    refine ⟨ts, hinput, ?_⟩
    rw [expected_append, expected_expansion, hproduction, withoutActions_append]
    exact hderives.step (sentenceSymbols ts) rule (withoutActions (expected below))
      (List.mem_of_getElem? hrule)

/-- Before the first move nothing has been read, and the start symbol is expected. -/
theorem initial_readSoFar (hg : g.WellFormed) (htable : ofGrammar g policy = .ok table)
    (input : List (InputToken TerminalId)) :
    ReadSoFar g input (kindsOf (Config.initial table.predictor input).stack) input := by
  refine ⟨[], rfl, ?_⟩
  have hstart : table.start = g.start := (ofGrammar_spec hg htable).2.1
  show g.Derives _ [.nonterminal table.start]
  rw [hstart]
  exact .refl _

/-- What is accepted in any number of steps is a sentence. -/
theorem isSentence_of_run (hg : g.WellFormed) (htable : ofGrammar g policy = .ok table)
    {registry : Registry ActionId} {input : List (InputToken TerminalId)} {steps : Nat}
    {result : Option Value}
    (h : (Config.initial table.predictor input).run table.predictor registry steps =
      some (.ok result)) : g.IsSentence (terminalsOf input) := by
  obtain ⟨c, hc, hverdict⟩ := Config.exists_step_of_run
    (P := fun c => ReadSoFar g input (kindsOf c.stack) c.input)
    (fun c c' hc hstep => move_readSoFar hg htable hc (Config.move_of_step hstep))
    (initial_readSoFar hg htable input) h
  have haccepted := Progress.verdict?_eq_ok_iff.1 hverdict
  obtain ⟨hstack, hinput⟩ := Config.eq_nil_of_accepted haccepted
  obtain ⟨ts, hts, hderives⟩ := hc
  rw [hstack] at hderives
  rw [hinput] at hts
  have heq : terminalsOf input = ts := hts.trans (List.append_nil ts)
  have hend : sentenceSymbols ts ++ withoutActions (expected (kindsOf [])) = sentenceSymbols ts :=
    List.append_nil _
  rw [Grammar.IsSentence, heq, ← hend]
  exact hderives

/-! ### The rule that is the right choice -/

/-- The rule by which a leftmost derivation replaces the nonterminal in front is the right
choice. -/
theorem selects_of_leftmost {rule : Rule} {w : List GrammarSymbol} {rs : List RuleId}
    {ts : List TerminalId} (hcovered : Covered g (· = .endOfInput) (.nonterminal rule.left :: w))
    (h : g.Leftmost (rule.right ++ w) rs ts) : g.Selects (ts.head?.getD .endOfInput) rule := by
  cases ts with
  | nil =>
    obtain ⟨hright, hrest⟩ := h.nullable.of_append
    exact Or.inr ⟨hright, hcovered.head (Or.inr ⟨hrest, rfl⟩)⟩
  | cons t ts =>
    rcases Grammar.begins_append_iff.1 h.begins with hright | ⟨hnull, hrest⟩
    · exact Or.inl hright
    · exact Or.inr ⟨hnull, hcovered.head (Or.inl hrest)⟩

/-- Where conflicts are refused, there is one leftmost derivation. -/
theorem leftmost_unique (hg : g.WellFormed) (htable : ofGrammar g .reject = .ok table)
    {w : List GrammarSymbol} {rs rs' : List RuleId} {ts : List TerminalId}
    (hcovered : Covered g (· = .endOfInput) w) (h : g.Leftmost w rs ts)
    (h' : g.Leftmost w rs' ts) : rs = rs' := by
  induction h generalizing rs' with
  | done =>
    cases h'
    rfl
  | terminal t _ ih =>
    cases h' with
    | terminal _ rest => exact ih hcovered.tail rest
  | action a _ ih =>
    cases h' with
    | action _ rest => exact ih hcovered.tail rest
  | @expand r rule w rs ts found rest ih =>
    obtain ⟨r', rule', rs'', rfl, found', hleft, rest'⟩ := h'.of_nonterminal
    -- both derivations start with a rule that is the right choice, and there is one
    have hselects := selects_of_leftmost hcovered rest
    have hselects' := selects_of_leftmost (hleft ▸ hcovered) rest'
    obtain rfl := selects_unique hg htable found found' hleft.symm hselects hselects'
    obtain rfl := Option.some.inj (found.symm.trans found')
    rw [ih (hcovered.expand hg (List.mem_of_getElem? found)) rest']

/-! ### A sentence is not rejected -/

/-- What is expected has a leftmost derivation of what is left of the input, and the end of the
input is expected last. -/
structure OnTheWay (g : Grammar) (kinds : Kinds) (rest : List (InputToken TerminalId)) : Prop where
  /-- There is a leftmost derivation of what is left. -/
  leftmost : ∃ rs, g.Leftmost (expected kinds) rs (terminalsOf rest)
  /-- What can come after the nonterminals is in their FOLLOW sets. -/
  covered : Covered g (· = .endOfInput) (expected kinds)
  /-- The end of the input is expected last. -/
  ends : kinds = [] ∨ ∃ before, kinds = before ++ [.endMarker] ∧ .endMarker ∉ before

theorem head?_terminalsOf (rest : List (InputToken TerminalId)) :
    (terminalsOf rest).head? = nextTerminal? rest := List.head?_map

/-- Below the end of the input nothing is expected. -/
theorem OnTheWay.eq_nil_of_endMarker {below : Kinds} {rest : List (InputToken TerminalId)}
    (h : OnTheWay g (.endMarker :: below) rest) : below = [] := by
  obtain ⟨before, hbefore, hnot⟩ := h.ends.resolve_left (List.cons_ne_nil _ _)
  cases before with
  | nil => exact (List.cons.inj hbefore).2
  | cons k before =>
    obtain ⟨rfl, -⟩ := List.cons.inj hbefore
    exact absurd List.mem_cons_self hnot

/-- What is on the way before a cell is taken away or replaced still expects the end last. -/
theorem OnTheWay.ends_of_cons {kind : CellKind TerminalId NonterminalId ActionId} {below : Kinds}
    {rest : List (InputToken TerminalId)} (h : OnTheWay g (kind :: below) rest)
    (hkind : kind ≠ .endMarker) (top : Kinds) (htop : .endMarker ∉ top) :
    ∃ before, top ++ below = before ++ [.endMarker] ∧ .endMarker ∉ before := by
  obtain ⟨before, hbefore, hnot⟩ := h.ends.resolve_left (List.cons_ne_nil _ _)
  cases before with
  | nil => exact absurd (List.cons.inj hbefore).1 hkind
  | cons k before =>
    obtain ⟨rfl, rfl⟩ := List.cons.inj hbefore
    refine ⟨top ++ before, (List.append_assoc ..).symm, fun hmem => ?_⟩
    rcases List.mem_append.1 hmem with h | h
    · exact htop h
    · exact hnot (List.mem_cons_of_mem _ h)

theorem endMarker_not_mem_expansion (production : List GrammarSymbol) :
    CellKind.endMarker ∉ kindsOf (expansion production) := by
  induction production with
  | nil => exact List.not_mem_nil
  | cons s production ih =>
    rw [expansion_cons, kindsOf_append, List.mem_append]
    rintro (h | h)
    · cases s <;> simp [cellsOf, Cell.new] at h
    · exact ih h

/-- A move goes on with the leftmost derivation. -/
theorem move_onTheWay (hg : g.WellFormed) (htable : ofGrammar g .reject = .ok table)
    {rest rest' : List (InputToken TerminalId)} {kinds kinds' : Kinds} (h : OnTheWay g kinds rest)
    (hmove : Move table.predictor kinds rest kinds' rest') : OnTheWay g kinds' rest' := by
  obtain ⟨rs, hrs⟩ := h.leftmost
  cases hmove with
  | finish => exact ⟨⟨rs, hrs⟩, h.covered, Or.inl h.eq_nil_of_endMarker⟩
  | left n =>
    exact ⟨⟨rs, hrs⟩, h.covered, Or.inr (h.ends_of_cons (by simp) [] (by simp))⟩
  | performed a =>
    have hrs' : g.Leftmost (.action a :: expected kinds') rs (terminalsOf rest) := hrs
    cases hrs' with
    | action _ hrest =>
      exact ⟨⟨rs, hrest⟩, h.covered.tail, Or.inr (h.ends_of_cons (by simp) [] (by simp))⟩
  | @matched t token _ _ hterminal =>
    have hrs' : g.Leftmost (.terminal t :: expected kinds') rs
      (token.terminal :: terminalsOf rest') := hrs
    cases hrs' with
    | terminal _ hrest =>
      exact ⟨⟨rs, hrest⟩, h.covered.tail, Or.inr (h.ends_of_cons (by simp) [] (by simp))⟩
  | @expanded n _ prediction below hpredict =>
    have hrs' : g.Leftmost (.nonterminal n :: expected below) rs (terminalsOf rest) := hrs
    have hcovered : Covered g (· = .endOfInput) (.nonterminal n :: expected below) := h.covered
    obtain ⟨r, rule, rs', rfl, found, rfl, hrest⟩ := hrs'.of_nonterminal
    have mem := List.mem_of_getElem? found
    -- the rule that the derivation goes on with is the one that is predicted
    have hselects := selects_of_leftmost hcovered hrest
    rw [head?_terminalsOf] at hselects
    have hproduction := production_of_selects hg htable mem hselects hpredict
    rw [hproduction]
    have hexpected : expected (kindsOf (expansion rule.right) ++ below) =
        rule.right ++ expected below := by
      rw [expected_append, expected_expansion]
    refine ⟨⟨rs', ?_⟩, ?_, ?_⟩
    · rwa [hexpected]
    · rw [hexpected]
      exact hcovered.expand hg mem
    · exact Or.inr (h.ends_of_cons (by simp) _ (endMarker_not_mem_expansion rule.right))

/-- While a sentence is read there is always a move, until nothing is expected and nothing is
left. -/
theorem OnTheWay.exists_move (hg : g.WellFormed) (htable : ofGrammar g .reject = .ok table)
    {rest : List (InputToken TerminalId)} {kinds : Kinds} (h : OnTheWay g kinds rest) :
    (kinds = [] ∧ rest = []) ∨ ∃ kinds' rest', Move table.predictor kinds rest kinds' rest' := by
  obtain ⟨rs, hrs⟩ := h.leftmost
  cases kinds with
  | nil =>
    refine Or.inl ⟨rfl, ?_⟩
    have hnil : g.Leftmost [] rs (terminalsOf rest) := hrs
    cases rest with
    | nil => rfl
    | cons token rest => cases hnil
  | cons kind below =>
    refine Or.inr ?_
    cases kind with
    | endMarker =>
      obtain rfl := h.eq_nil_of_endMarker
      have hnil : g.Leftmost [] rs (terminalsOf rest) := hrs
      cases rest with
      | nil => exact ⟨_, _, .finish _⟩
      | cons token rest => cases hnil
    | synthesized n => exact ⟨_, _, .left n _ _⟩
    | action a => exact ⟨_, _, .performed a _ _⟩
    | terminal t =>
      have hrs' : g.Leftmost (.terminal t :: expected below) rs (terminalsOf rest) := hrs
      generalize hts : terminalsOf rest = ts at hrs'
      cases hrs' with
      | @terminal _ _ _ ts hrest =>
        obtain ⟨token, rest', rfl, hterminal, -⟩ := List.map_eq_cons_iff.1 hts
        exact ⟨_, _, .matched _ _ hterminal⟩
    | nonterminal n =>
      have hrs' : g.Leftmost (.nonterminal n :: expected below) rs (terminalsOf rest) := hrs
      obtain ⟨r, rule, rs', rfl, found, rfl, hrest⟩ := hrs'.of_nonterminal
      have hselects := selects_of_leftmost h.covered hrest
      rw [head?_terminalsOf] at hselects
      obtain ⟨prediction, hpredict, -⟩ := predict_of_selects hg htable found hselects
      exact ⟨_, _, .expanded _ hpredict⟩

/-- The first configuration is on the way if the input is a sentence. -/
theorem initial_onTheWay (hg : g.WellFormed) (htable : ofGrammar g policy = .ok table)
    {input : List (InputToken TerminalId)} (h : g.IsSentence (terminalsOf input)) :
    OnTheWay g (kindsOf (Config.initial table.predictor input).stack) input := by
  have hexpected : expected (kindsOf (Config.initial table.predictor input).stack) =
      [.nonterminal g.start] := by
    rw [← (ofGrammar_spec hg htable).2.1]
    rfl
  refine ⟨?_, ?_, Or.inr ⟨[.nonterminal table.start, .synthesized table.start], rfl, by simp⟩⟩
  · rw [hexpected]
    exact Grammar.isSentence_iff.1 h
  · rw [hexpected]
    exact covered_start hg

/-- Where the tokens are rejected, the parser is not on the way to anything that goes on with the
next terminal. -/
theorem not_onTheWay_of_rejected (hg : g.WellFormed) (htable : ofGrammar g .reject = .ok table)
    {registry : Registry ActionId} {c : Config TerminalId NonterminalId ActionId} {e : ParseError}
    (h : c.step table.predictor registry = .rejected e) (hcategory : e.category = .syntactic)
    {other : List (InputToken TerminalId)} (hnext : nextTerminal? other = nextTerminal? c.input) :
    ¬ OnTheWay g (kindsOf c.stack) other := by
  intro hway
  rcases hway.exists_move hg htable with ⟨hstack, rfl⟩ | ⟨kinds', rest', hmove⟩
  · -- nothing is expected and nothing is left, which is accepted
    obtain ⟨stack, rest, result⟩ := c
    obtain rfl : stack = [] := List.map_eq_nil_iff.1 hstack
    cases rest with
    | nil => cases h
    | cons token rest => cases hnext
  · obtain ⟨rest'', hmove'⟩ := hmove.of_next hnext.symm
    exact Config.no_move_of_syntactic h hcategory hmove'

/-- The tokens of a sentence are not rejected. -/
theorem not_syntactic_of_run (hg : g.WellFormed) (htable : ofGrammar g .reject = .ok table)
    {registry : Registry ActionId} {input : List (InputToken TerminalId)}
    (hsentence : g.IsSentence (terminalsOf input)) {steps : Nat} {e : ParseError}
    (h : (Config.initial table.predictor input).run table.predictor registry steps =
      some (.error e)) : e.category ≠ .syntactic := by
  intro hcategory
  obtain ⟨c, hc, hverdict⟩ := Config.exists_step_of_run
    (P := fun c => OnTheWay g (kindsOf c.stack) c.input)
    (fun c c' hc hstep => move_onTheWay hg htable hc (Config.move_of_step hstep))
    (initial_onTheWay hg htable hsentence) h
  have hrejected := Progress.verdict?_eq_error_iff.1 hverdict
  exact not_onTheWay_of_rejected hg htable hrejected hcategory rfl hc

end PredictionTable
end ArithFrontEnd
