import ArithFrontEnd.Proofs.Expression.Recognition
import ArithFrontEnd.Proofs.Prediction.Acyclic
import ArithFrontEnd.Proofs.Source.Scanning

/-!
# The two recognizers agree

Tokens are an expression for the table of the recognizer just if they are one for recursive descent.
If they are not, both find fault with the same token, or both with the end of the tokens, although
the table may apply rules without symbols before it notices.

## Main definitions

* `Agree` — the recognizers come to the same verdict on some tokens, and to the same fault.

## Main results

* `recognize_cases` — what the parser comes to, told by recursive descent.
* `check_agrees_with_recognize` — **the two recognizers agree on all tokens of all source texts.**
-/

namespace ArithFrontEnd.Expression

variable {tokens rest : List Token} {d : DescentError}

/-! ### The start symbol -/

theorem pastSum_of_not (hlex : ∀ t ∈ tokens, t.IsLexical)
    (h : look tokens ∉ plus :: minus :: starters) :
    pastSum tokens = .error ⟨.factor, tokens⟩ := by
  cases tokens with
  | nil => exact pastSum_nil
  | cons token rest =>
    rw [pastSum_cons]
    cases hsign : sumOperator? token with
    | some sign =>
      obtain ⟨hterminal, hmem⟩ := terminalOf_of_sumOperator? (hlex token List.mem_cons_self) hsign
      have hsigns : ∀ op ∈ [BinaryOp.add, .sub],
          operatorTerminal op ∈ plus :: minus :: starters := by decide
      refine absurd ?_ h
      show terminalOf token ∈ _
      rw [hterminal]
      exact hsigns sign hmem
    | none =>
      refine pastTerms_of_not fun hstarts => h ?_
      exact List.mem_cons_of_mem _ (List.mem_cons_of_mem _ ((look_mem_starters_iff hlex).2 hstarts))

theorem follows_goal (hlex : ∀ t ∈ tokens, t.IsLexical) :
    Follows [.nonterminal goal] Complete tokens (pastSum tokens) := by
  by_cases hlook : look tokens ∈ plus :: minus :: starters
  · exact follows_expanded (predict_goal _ hlook) (follows_sum tokens hlex)
  · rw [pastSum_of_not hlex hlook]
    exact follows_unpredicted (predict_signed_eq_none goal (by decide) _ (look_lt hlex) hlook)

/-- The cells that expect one expression and the end. -/
def startCells : List (Cell TerminalId NonterminalId ActionId) :=
  [⟨.nonterminal goal, []⟩, ⟨.synthesized goal, []⟩, ⟨.endMarker, []⟩]

/-- The parser comes to the end of the tokens where recursive descent accepts them, and rejects them
otherwise when the tokens are left that recursive descent has not taken. -/
theorem recognize_cases (hlex : ∀ t ∈ tokens, t.IsLexical) :
    (recognize tokens = .ok () ∧ Goes startCells tokens [⟨.endMarker, []⟩] []) ∨
      ∃ d, recognize tokens = .error d ∧ d.rest <:+ tokens ∧ (d.missing = .ending → d.rest ≠ []) ∧
        ∃ cells, Goes startCells tokens cells d.rest ∧ Rejected cells d.rest := by
  have hfollows := follows_goal hlex
  rw [recognize_eq]
  generalize pastSum tokens = outcome at hfollows
  cases hfollows with
  | @reads rest hsuffix hcomplete h =>
    have hgoes : Goes startCells tokens [⟨.endMarker, []⟩] rest := h [⟨.endMarker, []⟩]
    cases rest with
    | nil => exact Or.inl ⟨rfl, hgoes⟩
    | cons token rest =>
      refine Or.inr ⟨_, rfl, hsuffix, fun _ => List.cons_ne_nil _ _, _, hgoes, _, rfl, ?_⟩
      exact ⟨_, Or.inl rfl⟩
  | @incomplete rest hsuffix hcomplete h =>
    obtain ⟨cells, hgoes, hrejected⟩ := h [⟨.endMarker, []⟩]
    cases rest with
    | nil => exact absurd rfl hcomplete
    | cons token rest =>
      exact Or.inr ⟨_, rfl, hsuffix, fun _ => List.cons_ne_nil _ _, cells, hgoes, hrejected⟩
  | @missing d hsuffix hmissing h =>
    obtain ⟨cells, hgoes, hrejected⟩ := h [⟨.endMarker, []⟩]
    exact Or.inr ⟨d, rfl, hsuffix, fun heq => absurd heq hmissing, cells, hgoes, hrejected⟩

/-! ### The check -/

theorem recognizer_wellFormed : recognizer.WellFormed where
  left {rule} h := by
    have hall : ∀ rule ∈ recognizer.rules, recognizer.Declares (.nonterminal rule.left) := by decide
    exact hall rule h
  right {rule} h {s} hs := by
    have hall : ∀ rule ∈ recognizer.rules, ∀ s ∈ rule.right, recognizer.Declares s := by decide
    exact hall rule h s hs
  start := by decide

/-- The check is unfolded as a function: given a list of tokens, unfolding it would mean to parse
the list. -/
theorem check_eq : check = fun tokens =>
    (parse recognizerTable.predictor .empty (recognizerInput tokens)).map fun _ => () := by
  delta check
  rfl

theorem initial_recognizer (tokens : List Token) :
    Config.initial recognizerTable.predictor (recognizerInput tokens) =
      recognizing startCells tokens := by
  have hstart : recognizerTable.predictor.start = goal := by rw [recognizerTable_eq]; rfl
  rw [Config.initial, hstart]
  rfl

/-- The check tells whether the verdict is an error. -/
theorem check_eq_of_gives {v : Verdict}
    (h : (recognizing startCells tokens).Gives recognizerTable.predictor .empty v) :
    check tokens = v.map fun _ => () := by
  rw [← initial_recognizer] at h
  obtain ⟨w, hw⟩ := PredictionTable.exists_verdict recognizer_wellFormed ofGrammar_recognizer .empty
    (recognizerInput tokens)
  rw [check_eq]
  dsimp only
  rw [parse_eq_of_gives h hw]

theorem reachable_of_goes {cells : List (Cell TerminalId NonterminalId ActionId)}
    (h : Goes startCells tokens cells rest) :
    Config.Reachable recognizerTable.predictor .empty (recognizerInput tokens)
      (recognizing cells rest) := by
  apply Config.GoesTo.reachable
  rw [initial_recognizer]
  exact h

/-! ### Agreement -/

/-- The end is shown where nothing is left. -/
theorem shownHead_eq_end_iff : shownHead tokens = "#" ↔ tokens = [] := by
  cases tokens with
  | nil => exact ⟨fun _ => rfl, fun _ => rfl⟩
  | cons token rest =>
    refine ⟨fun h => ?_, (nomatch ·)⟩
    -- a token is shown between two marks
    have hlength := congrArg String.length h
    have hmarks : (toString "`").length = 1 ∧ (toString "'").length = 1 ∧ "#".length = 1 := by
      decide
    simp only [shownHead, String.length_append] at hlength
    omega

/-- The end is at fault where a closing parenthesis or a factor is missing there. -/
theorem shownHead_eq_end_iff_missing (h : d.missing = .ending → d.rest ≠ []) :
    shownHead d.rest = "#" ↔ d = ⟨.closing, []⟩ ∨ d = ⟨.factor, []⟩ := by
  obtain ⟨missing, rest⟩ := d
  rw [shownHead_eq_end_iff]
  cases missing with
  | ending => simpa using h
  | closing => simp
  | factor => simp

theorem shownHead_of_found? {token : Token} (h : d.found? = some token) :
    shownHead d.rest = s!"`{token.text}'" := by
  rw [DescentError.found?] at h
  cases hrest : d.rest with
  | nil =>
    rw [hrest] at h
    cases h
  | cons other rest =>
    rw [hrest] at h
    obtain rfl := Option.some.inj h
    rfl

/-- The two recognizers agree on these tokens.  They accept them both, or both do not.  In the
second case the parser stops when those tokens are left that recursive descent has not taken, with
an error that shows the first of them; or the end, if a closing parenthesis or a factor is missing
there. -/
def Agree (tokens : List Token) : Prop :=
  (check tokens = .ok () ↔ recognize tokens = .ok ()) ∧
    ∀ e d, check tokens = .error e → recognize tokens = .error d →
      (∃ part found, (e = .unexpectedToken part found ∨ e = .noProduction part found) ∧
        (∀ token, d.found? = some token → found = s!"`{token.text}'") ∧
        (found = "#" ↔ d = ⟨.closing, []⟩ ∨ d = ⟨.factor, []⟩)) ∧
      d.rest <:+ tokens ∧
      ∃ c, Config.Reachable recognizerTable.predictor .empty (recognizerInput tokens) c ∧
        c.step recognizerTable.predictor .empty = .rejected e ∧ c.input = recognizerInput d.rest

theorem agree_of_isLexical (hlex : ∀ t ∈ tokens, t.IsLexical) : Agree tokens := by
  rcases recognize_cases hlex with ⟨hrecognize, hgoes⟩ |
    ⟨d, hrecognize, hsuffix, hending, cells, hgoes, e, hstep, part, hblames⟩
  · have hgives : Config.Gives recognizerTable.predictor .empty
        (recognizing [⟨.endMarker, []⟩] []) (.ok none) := .of_running rfl (.of_accepted rfl)
    have hcheck := check_eq_of_gives (hgoes.gives hgives)
    refine ⟨⟨fun _ => hrecognize, fun _ => hcheck⟩, fun e d he => ?_⟩
    rw [hcheck] at he
    cases he
  · have hcheck := check_eq_of_gives (hgoes.gives (.of_rejected hstep))
    refine ⟨⟨fun h => ?_, fun h => ?_⟩, fun e' d' he hd => ?_⟩
    · rw [hcheck] at h
      cases h
    · rw [hrecognize] at h
      cases h
    · rw [hcheck] at he
      rw [hrecognize] at hd
      obtain rfl := Except.error.inj he
      obtain rfl := Except.error.inj hd
      exact ⟨⟨part, shownHead d.rest, hblames, fun token => shownHead_of_found?,
        shownHead_eq_end_iff_missing hending⟩, hsuffix, _, reachable_of_goes hgoes, hstep, rfl⟩

/-- The recognizers by table and by recursive descent agree on all tokens that are as a scanner
makes them, and so on every source text. -/
theorem check_agrees_with_recognize :
    (∀ tokens : List Token, (∀ token ∈ tokens, token.IsLexical) → Agree tokens) ∧
      ∀ source : String, Agree (Token.scan source) :=
  ⟨fun _ => agree_of_isLexical, fun _ => agree_of_isLexical fun _ => Token.isLexical_of_mem_scan⟩

/-- In `(a;` the parser has nothing for the semicolon after a factor, and recursive descent misses a
closing parenthesis there.  In `(a` the end is at fault for both. -/
theorem check_agrees_with_recognize_unclosed :
    (Agree [⟨.delimiter, "(", 1⟩, ⟨.identifier, "a", 1⟩, ⟨.delimiter, ";", 1⟩] ∧
      check [⟨.delimiter, "(", 1⟩, ⟨.identifier, "a", 1⟩, ⟨.delimiter, ";", 1⟩] =
        .error (.noProduction "T'" "`;'") ∧
      recognize [⟨.delimiter, "(", 1⟩, ⟨.identifier, "a", 1⟩, ⟨.delimiter, ";", 1⟩] =
        .error ⟨.closing, [⟨.delimiter, ";", 1⟩]⟩) ∧
    Agree (Token.scan "(a") ∧ check (Token.scan "(a") = .error (.unexpectedToken ")" "#") ∧
      recognize (Token.scan "(a") = .error ⟨.closing, []⟩ := by
  have hscan : Token.scan "(a" = [⟨.delimiter, "(", 1⟩, ⟨.identifier, "a", 1⟩] := by decide +kernel
  obtain ⟨htokens, hsources⟩ := check_agrees_with_recognize
  refine ⟨⟨htokens _ (by decide), by decide +kernel, ?_⟩, hsources "(a", ?_⟩
  · simp [recognize_eq, pastSum_cons, pastTerms, pastTerm_eq, pastFactor_cons, pastTermRest_cons,
      pastSumRest_cons, pastClosing_cons, sumOperator?, termOperator?, isAdditive, isMultiplicative,
      isAtom, isOpening, isClosing, Token.isOneOf, Except.bind]
  · rw [hscan]
    refine ⟨by decide +kernel, ?_⟩
    simp [recognize_eq, pastSum_cons, pastTerms, pastTerm_eq, pastFactor_cons, pastTermRest_nil,
      pastSumRest_nil, pastClosing_nil, sumOperator?, isAdditive, isAtom, isOpening, Token.isOneOf,
      Except.bind]

end ArithFrontEnd.Expression
