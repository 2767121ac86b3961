import ArithFrontEnd.Proofs.Engine.Verdicts
import ArithFrontEnd.Proofs.Expression.Cells
import ArithFrontEnd.Proofs.Expression.Descents

/-!
# The table recognizes by recursive descent

The table of the recognizer is that of the evaluator without its actions, so the parser moves from
cell to cell without values.  Where recursive descent takes a part of an expression, the parser
passes through the cells of the part and comes to the same tokens.  Where recursive descent fails,
the parser rejects the tokens with the same one in front.  Between the two there is one difference:
a term that is followed by none of the tokens that can follow it is taken by recursive descent, and
rejected by the parser.  What is left then is left for good, so that this does not move the fault.

## Main definitions

* `Goes`, `Rejected` — the parser goes on, and it rejects the tokens with the next one at fault.
* `Reads`, `StopsAt` — the parser goes past some symbols, or rejects the tokens on the way.
* `Follows` — the parser does what recursive descent does.

## Main results

* `predict_recognizerTable` — the table of the recognizer is that of the evaluator without actions.
* `follows_append`, `follows_expanded`, … — parts that consist of other parts.
* `follows_sum` — **an expression is recognized as recursive descent recognizes it.**
-/

namespace ArithFrontEnd.Expression

/-! ### The table -/

/-- The table of the recognizer, given by that of the evaluator. -/
theorem recognizerTable_eq : recognizerTable = ⟨recognizer.toVocabulary, goal,
    evaluatorRows.map fun row => row.map fun (t, e) =>
      (t, ⟨e.rule, e.production.filter (!·.isAction), none⟩)⟩ := by
  -- the kernel computes the sets and the cells from the rules here, and nowhere else
  decide +kernel

theorem find?_map (f : Entry → Entry) (row : Row) (t : TerminalId) :
    Row.find? (row.map fun (u, e) => (u, f e)) t = (row.find? t).map f := by
  induction row with
  | nil => rfl
  | cons cell row ih =>
    obtain ⟨u, e⟩ := cell
    rw [List.map_cons, Row.find?, Row.find?, ih]
    split <;> rfl

/-- The recognizer predicts what the evaluator predicts, without actions. -/
theorem predict_recognizerTable (n : NonterminalId) (t : Option TerminalId) :
    recognizerTable.predict n t = (evaluatorTable.predict n t).map fun prediction =>
      ⟨prediction.production.filter (!·.isAction), none⟩ := by
  rw [recognizerTable_eq, evaluatorTable_eq]
  simp only [PredictionTable.predict, PredictionTable.find?, PredictionTable.row,
    List.getD_eq_getElem?_getD, List.getElem?_map]
  cases evaluatorRows[n]? with
  | none => rfl
  | some row =>
    simp only [Option.map_some, Option.getD_some, Option.map_map]
    rw [find?_map fun e => ⟨e.rule, e.production.filter (!·.isAction), none⟩, Option.map_map]
    rfl

theorem nextTerminal?_recognizerInput (n : NonterminalId) (tokens : List Token) :
    recognizerTable.predictor.predict n (nextTerminal? (recognizerInput tokens)) =
      recognizerTable.predict n (some (look tokens)) := by
  cases tokens <;> rfl

theorem terminalName_recognizerTable :
    recognizerTable.predictor.terminalName none = "#" := by
  show recognizerTable.vocabulary.terminalName .endOfInput = "#"
  rw [recognizerTable_eq]
  rfl

/-- The parser and the recursive evaluation show what comes next alike. -/
theorem shownNext_recognizerInput (tokens : List Token) :
    recognizerTable.predictor.shownNext (recognizerInput tokens) = shownHead tokens := by
  cases tokens with
  | nil => exact terminalName_recognizerTable
  | cons token rest => rfl

/-! ### Steps -/

variable {n : NonterminalId} {t : TerminalId} {token : Token} {tokens middle rest : List Token}
  {cells cells' below : List (Cell TerminalId NonterminalId ActionId)}
  {production u v w : List GrammarSymbol} {inherited : Option Int}

/-- The recognizer with these cells and tokens. -/
def recognizing (cells : List (Cell TerminalId NonterminalId ActionId)) (tokens : List Token) :
    Config TerminalId NonterminalId ActionId := ⟨cells, recognizerInput tokens, none⟩

/-- The recognizer goes on from these cells and tokens to those. -/
def Goes (cells : List (Cell TerminalId NonterminalId ActionId)) (tokens : List Token)
    (cells' : List (Cell TerminalId NonterminalId ActionId)) (rest : List Token) : Prop :=
  (recognizing cells tokens).GoesTo recognizerTable.predictor .empty (recognizing cells' rest)

/-- The error is that the tokens cannot go on with the first of these, or cannot end here. -/
def Blames (e : ParseError) (tokens : List Token) : Prop :=
  ∃ part, e = .unexpectedToken part (shownHead tokens) ∨ e = .noProduction part (shownHead tokens)

/-- The recognizer rejects the tokens, with the next one at fault. -/
def Rejected (cells : List (Cell TerminalId NonterminalId ActionId)) (tokens : List Token) :
    Prop :=
  ∃ e, (recognizing cells tokens).step recognizerTable.predictor .empty = .rejected e ∧
    Blames e tokens

theorem goes_refl (cells : List (Cell TerminalId NonterminalId ActionId)) (tokens : List Token) :
    Goes cells tokens cells tokens := .refl

theorem Goes.trans {cells'' : List (Cell TerminalId NonterminalId ActionId)}
    (h : Goes cells tokens cells' middle) (h' : Goes cells' middle cells'' rest) :
    Goes cells tokens cells'' rest := Relation.ReflTransGen.trans h h'

theorem goes_expanded
    (hpredict : evaluatorTable.predict n (some (look tokens)) = some ⟨production, inherited⟩) :
    Goes (⟨.nonterminal n, []⟩ :: below) tokens
      (expansion (production.filter (!·.isAction)) ++ below) tokens := by
  have hstep : recognizerTable.predictor.predict n (nextTerminal? (recognizerInput tokens)) =
      some ⟨production.filter (!·.isAction), none⟩ := by
    rw [nextTerminal?_recognizerInput, predict_recognizerTable, hpredict]
    rfl
  exact .of_running (Config.step_expanded hstep)

theorem goes_matched (hterminal : terminalOf token = t) :
    Goes (⟨.terminal t, []⟩ :: below) (token :: rest) below rest :=
  .of_running (Config.step_matched hterminal rfl)

theorem goes_left (n : NonterminalId) (below : List (Cell TerminalId NonterminalId ActionId))
    (tokens : List Token) : Goes (⟨.synthesized n, []⟩ :: below) tokens below tokens :=
  .of_running Config.step_left

theorem rejected_unpredicted (hpredict : evaluatorTable.predict n (some (look tokens)) = none) :
    Rejected (⟨.nonterminal n, []⟩ :: below) tokens := by
  refine ⟨_, Config.step_unpredicted ?_, _,
    Or.inr (congrArg (ParseError.noProduction _) (shownNext_recognizerInput tokens))⟩
  rw [nextTerminal?_recognizerInput, predict_recognizerTable, hpredict]
  rfl

theorem rejected_mismatched (h : look tokens ≠ t) :
    Rejected (⟨.terminal t, []⟩ :: below) tokens := by
  refine ⟨_, Config.step_mismatched ?_, _,
    Or.inl (congrArg (ParseError.unexpectedToken _) (shownNext_recognizerInput tokens))⟩
  cases tokens with
  | nil => exact (nomatch ·)
  | cons token rest => exact fun heq => h (Option.some.inj heq)

/-! ### Symbols -/

/-- Wherever the parser expects these symbols, it reads the tokens up to the rest. -/
def Reads (w : List GrammarSymbol) (tokens rest : List Token) : Prop :=
  ∀ below, Goes (expansion w ++ below) tokens below rest

/-- Wherever the parser expects these symbols, it rejects the tokens when this rest is left. -/
def StopsAt (w : List GrammarSymbol) (tokens rest : List Token) : Prop :=
  ∀ below, ∃ cells, Goes (expansion w ++ below) tokens cells rest ∧ Rejected cells rest

theorem expansion_append_append (u v : List GrammarSymbol)
    (below : List (Cell TerminalId NonterminalId ActionId)) :
    expansion (u ++ v) ++ below = expansion u ++ (expansion v ++ below) := by
  rw [expansion, List.flatMap_append, List.append_assoc]
  rfl

theorem Reads.append (hu : Reads u tokens middle) (hv : Reads v middle rest) :
    Reads (u ++ v) tokens rest := by
  intro below
  rw [expansion_append_append]
  exact (hu _).trans (hv below)

theorem Reads.append_stopsAt (hu : Reads u tokens middle) (hv : StopsAt v middle rest) :
    StopsAt (u ++ v) tokens rest := by
  intro below
  obtain ⟨cells, hgoes, hrejected⟩ := hv below
  rw [expansion_append_append]
  exact ⟨cells, (hu _).trans hgoes, hrejected⟩

theorem StopsAt.append (hu : StopsAt u tokens rest) (v : List GrammarSymbol) :
    StopsAt (u ++ v) tokens rest := by
  intro below
  rw [expansion_append_append]
  exact hu (expansion v ++ below)

theorem reads_nil (tokens : List Token) : Reads [] tokens tokens := fun below => goes_refl below _

theorem reads_terminal (hterminal : terminalOf token = t) :
    Reads [.terminal t] (token :: rest) rest := fun _ => goes_matched hterminal

theorem stopsAt_terminal (h : look tokens ≠ t) : StopsAt [.terminal t] tokens tokens :=
  fun _ => ⟨_, goes_refl _ _, rejected_mismatched h⟩

theorem stopsAt_unpredicted (hpredict : evaluatorTable.predict n (some (look tokens)) = none) :
    StopsAt [.nonterminal n] tokens tokens :=
  fun _ => ⟨_, goes_refl _ _, rejected_unpredicted hpredict⟩

theorem reads_expanded
    (hpredict : evaluatorTable.predict n (some (look tokens)) = some ⟨production, inherited⟩)
    (h : Reads (production.filter (!·.isAction)) tokens rest) :
    Reads [.nonterminal n] tokens rest :=
  fun below => ((goes_expanded hpredict).trans (h _)).trans (goes_left n below rest)

theorem stopsAt_expanded
    (hpredict : evaluatorTable.predict n (some (look tokens)) = some ⟨production, inherited⟩)
    (h : StopsAt (production.filter (!·.isAction)) tokens rest) :
    StopsAt [.nonterminal n] tokens rest := by
  intro below
  obtain ⟨cells, hgoes, hrejected⟩ := h (⟨.synthesized n, []⟩ :: below)
  exact ⟨cells, (goes_expanded hpredict).trans hgoes, hrejected⟩

/-! ### Outcomes -/

/-- Where these symbols are expected, the parser does what the outcome of recursive descent says: it
reads the tokens up to the rest if the rest is what can come after the symbols, and otherwise
rejects them when the rest is left. -/
inductive Follows (w : List GrammarSymbol) (complete : List Token → Prop) (tokens : List Token) :
    Outcome → Prop
  /-- The tokens that are left can come after the symbols. -/
  | reads {rest : List Token} (hsuffix : rest <:+ tokens) (hcomplete : complete rest)
      (h : Reads w tokens rest) : Follows w complete tokens (.ok rest)
  /-- The tokens that are left cannot come after the symbols. -/
  | incomplete {rest : List Token} (hsuffix : rest <:+ tokens) (hcomplete : ¬ complete rest)
      (h : StopsAt w tokens rest) : Follows w complete tokens (.ok rest)
  /-- A factor or a closing parenthesis is missing. -/
  | missing {d : DescentError} (hsuffix : d.rest <:+ tokens) (hmissing : d.missing ≠ .ending)
      (h : StopsAt w tokens d.rest) : Follows w complete tokens (.error d)

variable {P Q : List Token → Prop} {outcome : Outcome}

theorem follows_expanded
    (hpredict : evaluatorTable.predict n (some (look tokens)) = some ⟨production, inherited⟩)
    (h : Follows (production.filter (!·.isAction)) P tokens outcome) :
    Follows [.nonterminal n] P tokens outcome := by
  cases h with
  | reads hsuffix hcomplete h => exact .reads hsuffix hcomplete (reads_expanded hpredict h)
  | incomplete hsuffix hcomplete h =>
    exact .incomplete hsuffix hcomplete (stopsAt_expanded hpredict h)
  | missing hsuffix hmissing h => exact .missing hsuffix hmissing (stopsAt_expanded hpredict h)

/-- Where nothing is predicted, recursive descent misses a factor. -/
theorem follows_unpredicted (hpredict : evaluatorTable.predict n (some (look tokens)) = none) :
    Follows [.nonterminal n] P tokens (.error ⟨.factor, tokens⟩) :=
  .missing List.suffix_rfl (nomatch ·) (stopsAt_unpredicted hpredict)

/-- Where nothing is predicted, recursive descent may also take nothing. -/
theorem follows_incomplete (hpredict : evaluatorTable.predict n (some (look tokens)) = none)
    (hcomplete : ¬ P tokens) : Follows [.nonterminal n] P tokens (.ok tokens) :=
  .incomplete List.suffix_rfl hcomplete (stopsAt_unpredicted hpredict)

/-- A part without symbols. -/
theorem follows_empty {a : ActionId}
    (hpredict : evaluatorTable.predict n (some (look tokens)) = some ⟨[.action a], inherited⟩)
    (hcomplete : P tokens) : Follows [.nonterminal n] P tokens (.ok tokens) :=
  .reads List.suffix_rfl hcomplete (reads_expanded hpredict (reads_nil tokens))

/-- A part after the first token. -/
theorem follows_terminal (hterminal : terminalOf token = t) (h : Follows w P rest outcome) :
    Follows (.terminal t :: w) P (token :: rest) outcome := by
  have hterm : Reads [.terminal t] (token :: rest) rest := reads_terminal hterminal
  have hrest := List.suffix_cons token rest
  cases h with
  | reads hsuffix hcomplete h => exact .reads (hsuffix.trans hrest) hcomplete (hterm.append h)
  | incomplete hsuffix hcomplete h =>
    exact .incomplete (hsuffix.trans hrest) hcomplete (hterm.append_stopsAt h)
  | missing hsuffix hmissing h =>
    exact .missing (hsuffix.trans hrest) hmissing (hterm.append_stopsAt h)

/-- A part after another one.  Where the first one is not complete, what comes after it takes
nothing. -/
theorem follows_append {past : List Token → Outcome} (hfirst : Follows u P tokens outcome)
    (hnext : ∀ after, outcome = .ok after → after <:+ tokens → P after →
      Follows v Q after (past after))
    (hstuck : ∀ after, ¬ P after → past after = .ok after ∧ ¬ Q after ∨
      ∃ what, what ≠ .ending ∧ past after = .error ⟨what, after⟩) :
    Follows (u ++ v) Q tokens (outcome.bind past) := by
  cases hfirst with
  | @reads after hafter hcomplete hu =>
    have hthen := hnext after rfl hafter hcomplete
    show Follows (u ++ v) Q tokens (past after)
    generalize past after = outcome at hthen
    cases hthen with
    | reads hsuffix hcomplete h => exact .reads (hsuffix.trans hafter) hcomplete (hu.append h)
    | incomplete hsuffix hcomplete h =>
      exact .incomplete (hsuffix.trans hafter) hcomplete (hu.append_stopsAt h)
    | missing hsuffix hmissing h =>
      exact .missing (hsuffix.trans hafter) hmissing (hu.append_stopsAt h)
  | @incomplete after hafter hcomplete hu =>
    show Follows (u ++ v) Q tokens (past after)
    rcases hstuck after hcomplete with ⟨hpast, hcomplete⟩ | ⟨what, hmissing, hpast⟩
    · rw [hpast]
      exact .incomplete hafter hcomplete (hu.append v)
    · rw [hpast]
      exact .missing hafter hmissing (hu.append v)
  | missing hsuffix hmissing hu => exact .missing hsuffix hmissing (hu.append v)

/-- The closing parenthesis is matched, whatever comes after it. -/
theorem follows_closing (tokens : List Token) (hlex : ∀ t ∈ tokens, t.IsLexical) :
    Follows [.terminal closing] (fun _ => True) tokens (pastClosing tokens) := by
  cases tokens with
  | nil =>
    rw [pastClosing_nil]
    exact .missing List.suffix_rfl (nomatch ·) (stopsAt_terminal (by decide))
  | cons token rest =>
    have hiff := isClosing_iff_terminalOf (hlex token List.mem_cons_self)
    rw [pastClosing_cons]
    by_cases hclosing : isClosing token = true
    · rw [if_pos hclosing]
      exact .reads (List.suffix_cons token rest) trivial (reads_terminal (hiff.1 hclosing))
    · rw [if_neg hclosing]
      exact .missing List.suffix_rfl (nomatch ·)
        (stopsAt_terminal fun heq => hclosing (hiff.2 heq))

/-- An operator, its right operand, and what comes after it. -/
theorem follows_operator {op : BinaryOp} {past : List Token → Outcome}
    (hterminal : terminalOf token = operatorTerminal op)
    (hoperand : Follows [.nonterminal (operandOf op)] P rest outcome)
    (hnext : ∀ after, outcome = .ok after → after <:+ rest → P after →
      Follows [.nonterminal (restOf op)] Q after (past after))
    (hstuck : ∀ after, ¬ P after → past after = .ok after ∧ ¬ Q after ∨
      ∃ what, what ≠ .ending ∧ past after = .error ⟨what, after⟩) :
    Follows [.nonterminal (restOf op)] Q (token :: rest) (outcome.bind past) := by
  have hpredict := predict_operator op
  rw [← hterminal] at hpredict
  exact follows_expanded hpredict (follows_terminal rfl (follows_append hoperand hnext hstuck))

/-! ### All parts -/

/-- What can come after a term can come after these parts. -/
abbrev Complete (tokens : List Token) : Prop := completesTerm tokens = true

theorem forall_of_suffix (hlex : ∀ t ∈ tokens, t.IsLexical) (h : rest <:+ tokens) :
    ∀ t ∈ rest, t.IsLexical := fun t ht => hlex t (h.subset ht)

mutual

/-- An expression is recognized as recursive descent recognizes it. -/
theorem follows_sum (tokens : List Token) (hlex : ∀ t ∈ tokens, t.IsLexical) :
    Follows [.nonterminal signedSum] Complete tokens (pastSum tokens) := by
  cases tokens with
  | nil =>
    rw [pastSum_nil]
    exact follows_unpredicted (predict_signed_eq_none _ (by decide) _ (by decide) (by decide))
  | cons token rest =>
    rw [pastSum_cons]
    cases hsign : sumOperator? token with
    | none =>
      dsimp only
      by_cases hstarts : StartsFactor (token :: rest)
      · have hlook := (look_mem_starters_iff hlex).2 hstarts
        exact follows_expanded (predict_signedSum _ hlook) (follows_terms _ hlex)
      · rw [pastTerms_of_not hstarts]
        exact follows_unpredicted (predict_signed_eq_none _ (by decide) _ (look_lt hlex)
          (not_mem_of_sumOperator? hlex hsign hstarts))
    | some sign =>
      obtain ⟨hterminal, hmem⟩ := terminalOf_of_sumOperator? (hlex token List.mem_cons_self) hsign
      have hpredict := predict_sign sign hmem
      rw [← hterminal] at hpredict
      exact follows_expanded hpredict
        (follows_terminal rfl (follows_terms rest (List.forall_mem_cons.1 hlex).2))
termination_by (tokens.length, 4)
decreasing_by
  · subst_vars
    exact Prod.Lex.right _ (by decide)
  · subst_vars
    exact Prod.Lex.left _ _ (Nat.lt_succ_self _)

/-- A sum without a sign: a term, and more terms after it. -/
theorem follows_terms (tokens : List Token) (hlex : ∀ t ∈ tokens, t.IsLexical) :
    Follows [.nonterminal sum] Complete tokens (pastTerms tokens) := by
  by_cases hstarts : StartsFactor tokens
  · have hlook := (look_mem_starters_iff hlex).2 hstarts
    refine follows_expanded (predict_sum _ hlook) (follows_append (u := [.nonterminal term])
      (follows_term tokens hlex) (fun after hterm hsuffix hcomplete => ?_)
      fun after hcomplete => ?_)
    · have hlength := length_of_pastTerm hterm
      exact follows_sumRest after (forall_of_suffix hlex hsuffix) hcomplete
    · exact Or.inl ⟨pastSumRest_of_not hcomplete, hcomplete⟩
  · rw [pastTerms_of_not hstarts]
    exact follows_unpredicted (predict_eq_none _ (by decide) _ (look_lt hlex)
      fun hmem => hstarts ((look_mem_starters_iff hlex).1 hmem))
termination_by (tokens.length, 3)

theorem follows_sumRest (tokens : List Token) (hlex : ∀ t ∈ tokens, t.IsLexical)
    (hcomplete : Complete tokens) :
    Follows [.nonterminal sumRest] Complete tokens (pastSumRest tokens) := by
  cases tokens with
  | nil =>
    rw [pastSumRest_nil]
    exact follows_empty (predict_sumRest _ (by decide)) rfl
  | cons token rest =>
    rw [pastSumRest_cons]
    cases hop : sumOperator? token with
    | none =>
      exact follows_empty (predict_sumRest _ (look_mem_sumClosers hlex hop hcomplete)) hcomplete
    | some op =>
      have hrest := (List.forall_mem_cons.1 hlex).2
      obtain ⟨hterminal, hmem⟩ := terminalOf_of_sumOperator? (hlex token List.mem_cons_self) hop
      obtain ⟨hoperand, hmore⟩ : operandOf op = term ∧ restOf op = sumRest := by
        revert hmem
        cases op <;> decide
      rw [← hmore]
      refine follows_operator hterminal (hoperand ▸ follows_term rest hrest)
        (fun after hterm hsuffix hcomplete => ?_) fun after hcomplete => ?_
      · have hlength := length_of_pastTerm hterm
        rw [hmore]
        exact follows_sumRest after (forall_of_suffix hrest hsuffix) hcomplete
      · exact Or.inl ⟨pastSumRest_of_not hcomplete, hcomplete⟩
termination_by (tokens.length, 0)
decreasing_by
  · subst_vars
    exact Prod.Lex.left _ _ (Nat.lt_succ_self _)
  · subst_vars
    exact Prod.Lex.left _ _ (Nat.lt_succ_of_lt hlength)

theorem follows_term (tokens : List Token) (hlex : ∀ t ∈ tokens, t.IsLexical) :
    Follows [.nonterminal term] Complete tokens (pastTerm tokens) := by
  by_cases hstarts : StartsFactor tokens
  · have hlook := (look_mem_starters_iff hlex).2 hstarts
    rw [pastTerm_eq]
    refine follows_expanded (predict_term _ hlook) (follows_append (u := [.nonterminal factor])
      (follows_factor tokens hlex) (fun after hfactor hsuffix _ => ?_) fun after hnot => ?_)
    · have hlength := length_of_pastFactor hfactor
      exact follows_termRest after (forall_of_suffix hlex hsuffix)
    · exact absurd trivial hnot
  · rw [pastTerm_of_not hstarts]
    exact follows_unpredicted (predict_eq_none _ (by decide) _ (look_lt hlex)
      fun hmem => hstarts ((look_mem_starters_iff hlex).1 hmem))
termination_by (tokens.length, 2)

theorem follows_termRest (tokens : List Token) (hlex : ∀ t ∈ tokens, t.IsLexical) :
    Follows [.nonterminal termRest] Complete tokens (pastTermRest tokens) := by
  cases tokens with
  | nil =>
    rw [pastTermRest_nil]
    exact follows_empty (predict_termRest _ (by decide)) rfl
  | cons token rest =>
    rw [pastTermRest_cons]
    cases hop : termOperator? token with
    | none =>
      by_cases hcomplete : Complete (token :: rest)
      · have hlook := (look_mem_termClosers_iff hlex).2 hcomplete
        exact follows_empty (predict_termRest _ hlook) hcomplete
      · -- recursive descent takes the term all the same
        exact follows_incomplete (predict_termRest_eq_none _ (look_lt hlex)
          (not_mem_of_termOperator? hlex hop hcomplete)) hcomplete
    | some op =>
      have hrest := (List.forall_mem_cons.1 hlex).2
      obtain ⟨hterminal, hmem⟩ := terminalOf_of_termOperator? (hlex token List.mem_cons_self) hop
      obtain ⟨hoperand, hmore⟩ : operandOf op = factor ∧ restOf op = termRest := by
        revert hmem
        cases op <;> decide
      rw [← hmore]
      refine follows_operator hterminal (hoperand ▸ follows_factor rest hrest)
        (fun after hfactor hsuffix _ => ?_) fun after hnot => ?_
      · have hlength := length_of_pastFactor hfactor
        rw [hmore]
        exact follows_termRest after (forall_of_suffix hrest hsuffix)
      · exact absurd trivial hnot
termination_by (tokens.length, 0)
decreasing_by
  · subst_vars
    exact Prod.Lex.left _ _ (Nat.lt_succ_self _)
  · subst_vars
    exact Prod.Lex.left _ _ (Nat.lt_succ_of_lt hlength)

/-- Whatever comes after a factor, it is read up to its end. -/
theorem follows_factor (tokens : List Token) (hlex : ∀ t ∈ tokens, t.IsLexical) :
    Follows [.nonterminal factor] (fun _ => True) tokens (pastFactor tokens) := by
  cases tokens with
  | nil =>
    rw [pastFactor_nil]
    exact follows_unpredicted (predict_eq_none _ (by decide) _ (by decide) (by decide))
  | cons token rest =>
    rw [pastFactor_cons]
    by_cases hatom : isAtom token = true
    · rw [if_pos hatom]
      obtain ⟨b, -, -, hpredict⟩ := predict_atom hatom
      exact follows_expanded hpredict
        (follows_terminal rfl (.reads List.suffix_rfl trivial (reads_nil rest)))
    · by_cases hopening : isOpening token = true
      · rw [if_neg hatom, if_pos hopening]
        have hrest := (List.forall_mem_cons.1 hlex).2
        have hpredict := predict_factor_opening
        rw [← (isOpening_iff_terminalOf (hlex token List.mem_cons_self)).1 hopening] at hpredict
        refine follows_expanded hpredict (follows_terminal rfl
          (follows_append (u := [.nonterminal signedSum]) (follows_sum rest hrest)
            (fun inner _ hsuffix _ => ?_) fun inner hcomplete => ?_))
        · exact follows_closing inner (forall_of_suffix hrest hsuffix)
        · exact Or.inr ⟨.closing, by decide, pastClosing_of_not hcomplete⟩
      · rw [if_neg hatom, if_neg hopening]
        refine follows_unpredicted (predict_eq_none _ (by decide) _ (look_lt hlex) fun hmem => ?_)
        have hstarts := (look_mem_starters_iff hlex).1 hmem
        exact (startsFactor_cons_iff.1 hstarts).elim hatom hopening
termination_by (tokens.length, 1)

end

end ArithFrontEnd.Expression
