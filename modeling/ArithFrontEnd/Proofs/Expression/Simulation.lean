import ArithFrontEnd.Proofs.Engine.Verdicts
import ArithFrontEnd.Proofs.Expression.Cells
import ArithFrontEnd.Proofs.Expression.Meaning

/-!
# The table evaluates by recursive descent

The parser with the table of the evaluator has a nonterminal on top of its stack where the recursive
evaluation has a function to call.  When the function answers with a value, the parser has come to
the cells below the nonterminal and has delivered the value to the nearest action among them; when
it answers with an error, the parser rejects the tokens with that error.  This is shown part by
part, with any cells below.

## Main definitions

* `Comes` — the parser comes to a verdict from some cells and tokens.
* `Delivers` — a nonterminal is read as a function of the recursive evaluation answers.

## Main results

* `delivers_chain`, `delivers_operator` — sums and terms, which are evaluated alike.
* `delivers_signed` — **an expression is read as the recursive evaluation reads it.**
-/

namespace ArithFrontEnd.Expression

/-- The cells of the evaluator's stack. -/
abbrev Cells := List (Cell TerminalId NonterminalId ActionId)

/-- The evaluator comes to this verdict from these cells, with these tokens left. -/
def Comes (cells : Cells) (tokens : List Token) (v : Verdict) : Prop :=
  Config.Gives evaluatorTable.predictor actions ⟨cells, evaluatorInput tokens, none⟩ v

variable {n : NonterminalId} {a : ActionId} {cells below below' : Cells} {tokens rest : List Token}
  {token : Token} {values : List Value} {left w : Value} {v : Verdict}
  {production : List GrammarSymbol} {reading : Reading}

/-! ### Steps -/

theorem comes_expanded {inherited : Option Int}
    (hpredict : evaluatorTable.predict n (some (look tokens)) = some ⟨production, inherited⟩)
    (h : Comes (expansion production ++ below) tokens v) :
    Comes (⟨.nonterminal n, []⟩ :: below) tokens v :=
  .expanded ((predict_next n tokens).trans hpredict) h

theorem comes_carrying {height : Nat}
    (hpredict : evaluatorTable.predict n (some (look tokens)) =
      some ⟨production, some (height : Int)⟩)
    (hdeliver : deliverAt w height (expansion production) = some cells)
    (h : Comes (cells ++ below) tokens v) :
    Comes (⟨.nonterminal n, [w]⟩ :: below) tokens v :=
  .expanded_carrying ((predict_next n tokens).trans hpredict)
    (by rw [deliverBy_natCast, hdeliver, Option.map_some]) h

theorem comes_unpredicted (hpredict : evaluatorTable.predict n (some (look tokens)) = none) :
    Comes (⟨.nonterminal n, values⟩ :: below) tokens
      (.error (cannotStart (evaluator.nonterminalName n) tokens)) := by
  have h : Comes (⟨.nonterminal n, values⟩ :: below) tokens _ :=
    .unpredicted ((predict_next n tokens).trans hpredict)
  rwa [shownNext_evaluatorInput, nonterminalName_evaluatorTable] at h

theorem comes_synthesized (hdeliver : deliverTo CellKind.isAction w below = some below')
    (h : Comes below' tokens v) : Comes (⟨.synthesized n, [w]⟩ :: below) tokens v :=
  .synthesized hdeliver h

theorem comes_performed (ha : a < 21) (hrun : (actionOf a).run values = .ok w)
    (hdeliver : deliverTo CellKind.isNonterminal w below = some below')
    (h : Comes below' tokens v) : Comes (⟨.action a, values⟩ :: below) tokens v :=
  .performed (find?_actions ha) hrun hdeliver h

/-- An action that passes its value on. -/
theorem comes_passed (ha : a < 21) (hassign : actionOf a = .assign)
    (hdeliver : deliverTo CellKind.isNonterminal w below = some below')
    (h : Comes below' tokens v) : Comes (⟨.action a, [w]⟩ :: below) tokens v :=
  comes_performed ha (by rw [hassign]; rfl) hdeliver h

theorem comes_failed {e : OperationError} (ha : a < 21) (hrun : (actionOf a).run values = .error e)
    (hbelow : below.any (·.kind.isNonterminal) = true) :
    Comes (⟨.action a, values⟩ :: below) tokens (.error (.action e)) :=
  .failed (find?_actions ha) hrun hbelow

theorem comes_matched {t : TerminalId} (hterminal : terminalOf token = t)
    (hvalue : token.value = .nothing) (h : Comes below rest v) :
    Comes (⟨.terminal t, values⟩ :: below) (token :: rest) v :=
  .matched hterminal hvalue h

theorem comes_matched_known {t : TerminalId} {kind : CellKind TerminalId NonterminalId ActionId}
    (hterminal : terminalOf token = t) (hvalue : token.value = .known w)
    (h : Comes (⟨kind, [w]⟩ :: below) rest v) :
    Comes (⟨.terminal t, values⟩ :: ⟨kind, []⟩ :: below) (token :: rest) v :=
  .matched_known hterminal hvalue h

theorem comes_matched_unknown {t : TerminalId} (hterminal : terminalOf token = t)
    (hvalue : token.value = .unknown) :
    Comes (⟨.terminal t, values⟩ :: below) (token :: rest)
      (.error (.unknownValue (shownHead [token]))) :=
  .matched_unknown hterminal hvalue

/-- Only the closing parenthesis is ever matched against a token that may be another one. -/
theorem comes_mismatched (h : look tokens ≠ closing) :
    Comes (⟨.terminal closing, values⟩ :: below) tokens
      (.error (.unexpectedToken ")" (shownHead tokens))) := by
  have hnext : nextTerminal? (evaluatorInput tokens) ≠ some closing := by
    cases tokens with
    | nil => exact fun heq => by cases heq
    | cons token rest => exact fun heq => h (Option.some.inj heq)
  have hcomes : Comes (⟨.terminal closing, values⟩ :: below) tokens _ := .mismatched hnext
  rwa [shownNext_evaluatorInput, terminalName_evaluatorTable] at hcomes

/-! ### Parts -/

/-- Where the nonterminal is expected, with these values and an action below its place, the parser
does what a reading of the tokens says: it delivers the value to the action and goes on with the
tokens that follow, or it rejects them with the error. -/
def Delivers (n : NonterminalId) (values : List Value) (tokens : List Token) (reading : Reading) :
    Prop :=
  ∀ (a : ActionId) (operands : List Value) (below : Cells) (v : Verdict),
    (∀ w rest, reading = .ok (w, rest) →
      Comes (⟨.action a, operands ++ [w]⟩ :: below) rest v) →
    (∀ e, reading = .error e → v = .error e) →
    Comes (⟨.nonterminal n, values⟩ :: ⟨.synthesized n, []⟩ :: ⟨.action a, operands⟩ :: below)
      tokens v

theorem delivers_unpredicted
    (hpredict : evaluatorTable.predict n (some (look tokens)) = none) :
    Delivers n values tokens (.error (cannotStart (evaluator.nonterminalName n) tokens)) := by
  intro a operands below v _ herror
  rw [herror _ rfl]
  exact comes_unpredicted hpredict

/-- A part that consists of another one and an action that passes its value on. -/
theorem delivers_pass {m : NonterminalId} {b : ActionId} (hb : b < 21)
    (hassign : actionOf b = .assign)
    (hpredict : evaluatorTable.predict n (some (look tokens)) =
      some ⟨[.nonterminal m, .action b], none⟩)
    (h : Delivers m [] tokens reading) : Delivers n [] tokens reading := by
  intro a operands below v hok herror
  refine comes_expanded hpredict ?_
  refine h b [] _ v (fun w rest hreading => ?_) herror
  refine comes_passed hb hassign rfl ?_
  exact comes_synthesized rfl (hok w rest hreading)

/-- A part without symbols, which inherits its value. -/
theorem delivers_empty {b : ActionId} (hb : b < 21) (hassign : actionOf b = .assign)
    (hpredict : evaluatorTable.predict n (some (look tokens)) = some ⟨[.action b], some 0⟩) :
    Delivers n [left] tokens (.ok (left, tokens)) := by
  intro a operands below v hok _
  refine comes_carrying hpredict rfl ?_
  refine comes_passed hb hassign rfl ?_
  exact comes_synthesized rfl (hok left tokens rfl)

/-- A sum or term: its first operand, and the rest, which inherits the value of the operand. -/
theorem delivers_chain {operand more : NonterminalId} {b c : ActionId} (hb : b < 21) (hc : c < 21)
    (hassign : actionOf b = .assign ∧ actionOf c = .assign)
    (hpredict : evaluatorTable.predict n (some (look tokens)) =
      some ⟨[.nonterminal operand, .action b, .nonterminal more, .action c], none⟩)
    {readMore : Value → List Token → Reading} (hoperand : Delivers operand [] tokens reading)
    (hmore : ∀ w after, reading = .ok (w, after) → Delivers more [w] after (readMore w after)) :
    Delivers n [] tokens (reading.bind fun (w, after) => readMore w after) := by
  intro a operands below v hok herror
  refine comes_expanded hpredict ?_
  refine hoperand b [] _ v (fun w after hreading => ?_) fun e hreading => ?_
  · rw [hreading] at hok herror
    refine comes_passed hb hassign.1 rfl ?_
    refine hmore w after hreading c [] _ v (fun x rest hrest => ?_) herror
    refine comes_passed hc hassign.2 rfl ?_
    exact comes_synthesized rfl (hok x rest hrest)
  · rw [hreading] at herror
    exact herror e rfl

/-- An operator: its right operand, the action that computes, and the rest. -/
theorem delivers_operator {op : BinaryOp} (hterminal : terminalOf token = operatorTerminal op)
    (hvalue : token.value = .nothing) {readMore : Value → List Token → Reading}
    (hoperand : Delivers (operandOf op) [] rest reading)
    (hmore : ∀ right after w, reading = .ok (right, after) → combine op left right = .ok w →
      Delivers (restOf op) [w] after (readMore w after)) :
    Delivers (restOf op) [left] (token :: rest) (reading.bind fun (right, after) =>
      (combine op left right).bind fun w => readMore w after) := by
  intro a operands below v hok herror
  have hactions : computing op < 21 ∧ passing op < 21 ∧ actionOf (passing op) = .assign := by
    cases op <;> exact ⟨by decide, by decide, rfl⟩
  obtain ⟨hcomputing, hpassing, hassign⟩ := hactions
  have hpredict := (congrArg (fun t => evaluatorTable.predict (restOf op) (some t)) hterminal).trans
    (predict_operator op)
  -- the value to the left waits at the action for the right operand
  refine comes_carrying hpredict rfl ?_
  refine comes_matched hterminal hvalue ?_
  refine hoperand (computing op) [left] _ v (fun right after hreading => ?_) fun e hreading => ?_
  · rw [hreading] at hok herror
    have hcombine := combine_eq op left right
    cases hrun : (actionOf (computing op)).run [left, right] with
    | error e =>
      -- the action fails as soon as the right operand has arrived
      replace hcombine : combine op left right = .error (.action e) := by rw [hcombine, hrun]; rfl
      rw [herror (.action e) (by simp only [Except.bind, hcombine])]
      exact comes_failed hcomputing hrun rfl
    | ok w =>
      replace hcombine : combine op left right = .ok w := by rw [hcombine, hrun]; rfl
      simp only [Except.bind, hcombine] at hok herror
      refine comes_performed hcomputing hrun rfl ?_
      refine hmore right after w hreading hcombine (passing op) [] _ v
        (fun x last hlast => ?_) herror
      refine comes_passed hpassing hassign rfl ?_
      exact comes_synthesized rfl (hok x last hlast)
  · rw [hreading] at herror
    exact herror e rfl

/-- A sum with a sign: the action applies the sign once the sum has been read. -/
theorem delivers_sign {sign : BinaryOp} (hterminal : terminalOf token = operatorTerminal sign)
    (hvalue : token.value = .nothing) (hsign : sign ∈ [BinaryOp.add, .sub])
    (hsum : Delivers sum [] rest reading) :
    Delivers signedSum [] (token :: rest)
      (reading.bind fun (w, after) => (applySign sign w).map (·, after)) := by
  intro a operands below v hok herror
  have hsigning : signing sign < 21 := by cases sign <;> decide
  have hpredict := (congrArg (fun t => evaluatorTable.predict signedSum (some t)) hterminal).trans
    (predict_sign sign hsign)
  refine comes_expanded hpredict ?_
  refine comes_matched hterminal hvalue ?_
  refine hsum (signing sign) [] _ v (fun w after hreading => ?_) fun e hreading => ?_
  · rw [hreading] at hok herror
    have happly := applySign_eq sign w
    cases hrun : (actionOf (signing sign)).run [w] with
    | error e =>
      replace happly : applySign sign w = .error (.action e) := by rw [happly, hrun]; rfl
      rw [herror (.action e) (by simp only [Except.bind, happly, Except.map])]
      exact comes_failed hsigning hrun rfl
    | ok x =>
      replace happly : applySign sign w = .ok x := by rw [happly, hrun]; rfl
      refine comes_performed hsigning hrun rfl ?_
      refine comes_synthesized rfl (hok x after ?_)
      simp only [Except.bind, happly, Except.map]
  · rw [hreading] at herror
    exact herror e rfl

/-- A number, or an identifier: its value is asked for when it is matched. -/
theorem delivers_atom (hatom : isAtom token = true) :
    Delivers factor [] (token :: rest) ((valueOfAtom token).map (·, rest)) := by
  intro a operands below v hok herror
  obtain ⟨b, hb, hassign, hpredict⟩ := predict_atom hatom
  have hlook : evaluatorTable.predict factor (some (look (token :: rest))) = _ := hpredict
  refine comes_expanded hlook ?_
  rcases valueOfAtom_eq hatom with ⟨w, hvalue, hreading⟩ | ⟨hvalue, hreading⟩
  · rw [hreading] at hok
    refine comes_matched_known rfl hvalue ?_
    refine comes_passed hb hassign rfl ?_
    exact comes_synthesized rfl (hok w rest rfl)
  · rw [hreading] at herror
    rw [herror _ rfl]
    exact comes_matched_unknown rfl hvalue

/-- An expression in parentheses: its value is delivered before the closing one is matched. -/
theorem delivers_parentheses (hterminal : terminalOf token = opening)
    (hvalue : token.value = .nothing)
    (hlex : ∀ w inner, reading = .ok (w, inner) → ∀ t ∈ inner, t.IsLexical)
    (hsigned : Delivers signedSum [] rest reading) :
    Delivers factor [] (token :: rest) (reading.bind fun (w, inner) => readClosing w inner) := by
  intro a operands below v hok herror
  have hpredict := (congrArg (fun t => evaluatorTable.predict factor (some t)) hterminal).trans
    predict_factor_opening
  refine comes_expanded hpredict ?_
  refine comes_matched hterminal hvalue ?_
  refine hsigned 18 [] _ v (fun w inner hreading => ?_) fun e hreading => ?_
  · rw [hreading] at hok herror
    refine comes_passed (by decide) rfl rfl ?_
    show Comes (⟨.terminal closing, []⟩ :: ⟨.synthesized factor, [w]⟩ :: _) inner v
    -- the value has gone past the parenthesis to the place of the factor
    cases inner with
    | nil =>
      rw [herror _ (readClosing_nil w)]
      exact comes_mismatched (by decide)
    | cons last inner =>
      have hclosing := isClosing_iff_terminalOf (hlex w _ hreading last List.mem_cons_self)
      by_cases hlast : isClosing last = true
      · have hnothing := value_eq_nothing (Or.inr (isClosing_iff.1 hlast).1)
        refine comes_matched (hclosing.1 hlast) hnothing ?_
        refine comes_synthesized rfl (hok w inner ?_)
        exact (readClosing_cons w last inner).trans (if_pos hlast)
      · rw [herror _ ((readClosing_cons w last inner).trans (if_neg hlast))]
        exact comes_mismatched fun heq => hlast (hclosing.2 heq)
  · rw [hreading] at herror
    exact herror e rfl

/-! ### All parts -/

theorem not_mem_starters (hlex : ∀ t ∈ tokens, t.IsLexical) (h : ¬ StartsFactor tokens) :
    look tokens ∉ starters := fun hmem => h ((look_mem_starters_iff hlex).1 hmem)

mutual

/-- An expression is read as the recursive evaluation reads it. -/
theorem delivers_signed (tokens : List Token) (hlex : ∀ t ∈ tokens, t.IsLexical) :
    Delivers signedSum [] tokens (readSigned "E" tokens) := by
  cases tokens with
  | nil =>
    rw [readSigned_nil]
    exact delivers_unpredicted (predict_signed_eq_none _ (by decide) _ (by decide) (by decide))
  | cons token rest =>
    rw [readSigned_cons]
    cases hsign : sumOperator? token with
    | none =>
      dsimp only
      by_cases hstarts : StartsFactor (token :: rest)
      · -- a factor comes next, so the name of the part does not matter
        rw [readSum_of_startsFactor hstarts "E" "E'"]
        have hlook := (look_mem_starters_iff hlex).2 hstarts
        exact delivers_pass (by decide) rfl (predict_signedSum _ hlook) (delivers_sum _ hlex)
      · rw [readSum_of_not hstarts]
        exact delivers_unpredicted (predict_signed_eq_none _ (by decide) _ (look_lt hlex)
          (not_mem_of_sumOperator? hlex hsign hstarts))
    | some sign =>
      have hlexical := hlex token List.mem_cons_self
      obtain ⟨hterminal, hmem⟩ := terminalOf_of_sumOperator? hlexical hsign
      have hvalue := value_eq_nothing (Or.inl (sumOperator?_eq_some_iff.1 hsign).1)
      exact delivers_sign hterminal hvalue hmem
        (delivers_sum rest (List.forall_mem_cons.1 hlex).2)
termination_by (tokens.length, 4)
decreasing_by
  · subst_vars
    exact Prod.Lex.right _ (by decide)
  · subst_vars
    exact Prod.Lex.left _ _ (Nat.lt_succ_self _)

theorem delivers_sum (tokens : List Token) (hlex : ∀ t ∈ tokens, t.IsLexical) :
    Delivers sum [] tokens (readSum "E'" tokens) := by
  by_cases hstarts : StartsFactor tokens
  · have hlook := (look_mem_starters_iff hlex).2 hstarts
    rw [readSum_eq, readTerm_of_startsFactor hstarts "E'" "T"]
    refine delivers_chain (by decide) (by decide) ⟨rfl, rfl⟩ (predict_sum _ hlook)
      (delivers_term tokens hlex) fun w after hterm => ?_
    -- fewer tokens follow the first term, and they complete it
    have hlength := length_of_readTerm hterm
    obtain ⟨before, hbefore, -⟩ := denotes_of_readTerm hlex hterm
    exact delivers_sumRest w after (forall_of_append hbefore hlex) (completesTerm_of_readTerm hterm)
  · rw [readSum_of_not hstarts]
    exact delivers_unpredicted
      (predict_eq_none _ (by decide) _ (look_lt hlex) (not_mem_starters hlex hstarts))
termination_by (tokens.length, 3)

theorem delivers_sumRest (left : Value) (tokens : List Token) (hlex : ∀ t ∈ tokens, t.IsLexical)
    (hcompletes : completesTerm tokens = true) :
    Delivers sumRest [left] tokens (readSumRest left tokens) := by
  cases tokens with
  | nil =>
    rw [readSumRest_nil]
    exact delivers_empty (by decide) rfl (predict_sumRest _ (by decide))
  | cons token rest =>
    rw [readSumRest_cons]
    cases hop : sumOperator? token with
    | none =>
      -- the term before is complete, so the sum is complete too
      exact delivers_empty (by decide) rfl
        (predict_sumRest _ (look_mem_sumClosers hlex hop hcompletes))
    | some op =>
      have hlexical := hlex token List.mem_cons_self
      have hrest := (List.forall_mem_cons.1 hlex).2
      obtain ⟨hterminal, hmem⟩ := terminalOf_of_sumOperator? hlexical hop
      have hvalue := value_eq_nothing (Or.inl (sumOperator?_eq_some_iff.1 hop).1)
      obtain ⟨hoperand, hmore⟩ : operandOf op = term ∧ restOf op = sumRest := by
        revert hmem
        cases op <;> decide
      rw [← hmore]
      refine delivers_operator hterminal hvalue (hoperand ▸ delivers_term rest hrest)
        fun right after w hterm _ => ?_
      have hlength := length_of_readTerm hterm
      obtain ⟨before, hbefore, -⟩ := denotes_of_readTerm hrest hterm
      rw [hmore]
      exact delivers_sumRest w after (forall_of_append hbefore hrest)
        (completesTerm_of_readTerm hterm)
termination_by (tokens.length, 0)

theorem delivers_term (tokens : List Token) (hlex : ∀ t ∈ tokens, t.IsLexical) :
    Delivers term [] tokens (readTerm "T" tokens) := by
  by_cases hstarts : StartsFactor tokens
  · have hlook := (look_mem_starters_iff hlex).2 hstarts
    rw [readTerm_eq, readFactor_of_startsFactor hstarts "T" "F"]
    refine delivers_chain (by decide) (by decide) ⟨rfl, rfl⟩ (predict_term _ hlook)
      (delivers_factor tokens hlex) fun w after hfactor => ?_
    have hlength := length_of_readFactor hfactor
    obtain ⟨before, hbefore, -⟩ := denotes_of_readFactor hlex hfactor
    exact delivers_termRest w after (forall_of_append hbefore hlex)
  · rw [readTerm_of_not hstarts]
    exact delivers_unpredicted
      (predict_eq_none _ (by decide) _ (look_lt hlex) (not_mem_starters hlex hstarts))
termination_by (tokens.length, 2)

theorem delivers_termRest (left : Value) (tokens : List Token) (hlex : ∀ t ∈ tokens, t.IsLexical) :
    Delivers termRest [left] tokens (readTermRest left tokens) := by
  cases tokens with
  | nil =>
    rw [readTermRest_nil]
    exact delivers_empty (by decide) rfl (predict_termRest _ (by decide))
  | cons token rest =>
    rw [readTermRest_cons]
    cases hop : termOperator? token with
    | none =>
      dsimp only
      by_cases hcompletes : completesTerm (token :: rest) = true
      · -- the table has a cell for what may come after a term
        rw [if_pos hcompletes]
        exact delivers_empty (by decide) rfl
          (predict_termRest _ ((look_mem_termClosers_iff hlex).2 hcompletes))
      · -- and none for anything else
        rw [if_neg hcompletes]
        exact delivers_unpredicted (predict_termRest_eq_none _ (look_lt hlex)
          (not_mem_of_termOperator? hlex hop hcompletes))
    | some op =>
      have hlexical := hlex token List.mem_cons_self
      have hrest := (List.forall_mem_cons.1 hlex).2
      obtain ⟨hterminal, hmem⟩ := terminalOf_of_termOperator? hlexical hop
      have hvalue := value_eq_nothing (Or.inl (termOperator?_eq_some_iff.1 hop).1)
      obtain ⟨hoperand, hmore⟩ : operandOf op = factor ∧ restOf op = termRest := by
        revert hmem
        cases op <;> decide
      rw [← hmore]
      refine delivers_operator hterminal hvalue (hoperand ▸ delivers_factor rest hrest)
        fun right after w hfactor _ => ?_
      have hlength := length_of_readFactor hfactor
      obtain ⟨before, hbefore, -⟩ := denotes_of_readFactor hrest hfactor
      rw [hmore]
      exact delivers_termRest w after (forall_of_append hbefore hrest)
termination_by (tokens.length, 0)

theorem delivers_factor (tokens : List Token) (hlex : ∀ t ∈ tokens, t.IsLexical) :
    Delivers factor [] tokens (readFactor "F" tokens) := by
  cases tokens with
  | nil =>
    rw [readFactor_nil]
    exact delivers_unpredicted (predict_eq_none _ (by decide) _ (by decide) (by decide))
  | cons token rest =>
    by_cases hatom : isAtom token = true
    · rw [readFactor_cons, if_pos hatom]
      exact delivers_atom hatom
    · by_cases hopening : isOpening token = true
      · have hrest := (List.forall_mem_cons.1 hlex).2
        have hterminal := (isOpening_iff_terminalOf (hlex token List.mem_cons_self)).1 hopening
        have hvalue := value_eq_nothing (Or.inr (isOpening_iff.1 hopening).1)
        rw [readFactor_cons, if_neg hatom, if_pos hopening]
        refine delivers_parentheses hterminal hvalue (fun w inner hsigned => ?_)
          (delivers_signed rest hrest)
        obtain ⟨before, hbefore, -⟩ := denotes_of_readSigned hrest hsigned
        exact forall_of_append hbefore hrest
      · have hstarts : ¬ StartsFactor (token :: rest) := by
          rw [startsFactor_cons_iff, not_or]
          exact ⟨hatom, hopening⟩
        rw [readFactor_of_not hstarts]
        exact delivers_unpredicted
          (predict_eq_none _ (by decide) _ (look_lt hlex) (not_mem_starters hlex hstarts))
termination_by (tokens.length, 1)

end

end ArithFrontEnd.Expression
