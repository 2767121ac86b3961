import ArithFrontEnd.Proofs.Expression.Meaning

/-!
# Why an expression has no value

Tokens that do not stand for an integer have a first difficulty from left to right: everything
before it stands for integers, and the difficulty is met as soon as the tokens up to it are known.
Operators of terms are computed with their right factor, those of sums when the next token completes
their right term, and a sign when the next token completes the sum.

## Main definitions

* `Refuses` — why an operator has no value between two integers.
* `Fails` — the first difficulty with a part of an expression.

## Main results

* `readPart_of_fails` — a first difficulty is why nothing is read.
* `fails_of_readSigned` — what is not read has a first difficulty.
* `value_eq_error_iff` — **a list of tokens has no value for the reason that is met first.**
-/

namespace ArithFrontEnd.Expression

/-- Why an operator has no value between two integers. -/
inductive Refuses (op : BinaryOp) (a b : Int) : OperationError → Prop
  /-- The divisor is zero. -/
  | divisionByZero (hdivisor : op = .div ∧ b = 0) : Refuses op a b .divisionByZero
  /-- The exact result is out of range. -/
  | overflow (hdivisor : ¬ (op = .div ∧ b = 0)) (hfits : ¬ Value.Fits (op.exact a b)) :
      Refuses op a b (.overflow op.operation)

/-- The first difficulty with the tokens when they are to start with this part of an expression,
which messages call by this name. -/
inductive Fails : Part → String → List Token → ParseError → Prop
  /-- Neither an atom nor an opening parenthesis comes next. -/
  | start {name : String} {tokens : List Token} (h : ¬ StartsFactor tokens) :
      Fails .factor name tokens (cannotStart name tokens)
  /-- The value of an identifier is not known. -/
  | identifier {name : String} {token : Token} {rest : List Token}
      (hkind : token.kind = .identifier) :
      Fails .factor name (token :: rest) (.unknownValue (shownHead [token]))
  /-- A number is out of range. -/
  | number {name : String} {token : Token} {rest : List Token} (hkind : token.kind = .number)
      (hdigits : Source.isNumber token.text.toList = true)
      (hfits : ¬ Value.Fits (magnitude token)) :
      Fails .factor name (token :: rest) (.unknownValue (shownHead [token]))
  /-- There is a difficulty with the expression in parentheses. -/
  | parentheses {name : String} {token : Token} {rest : List Token} {e : ParseError}
      (hopening : isOpening token = true) (h : Fails .signed "E" rest e) :
      Fails .factor name (token :: rest) e
  /-- The tokens end before the parenthesis is closed. -/
  | unclosed {name : String} {token : Token} {tokens : List Token} {n : Int}
      (hopening : isOpening token = true) (h : Denotes .signed tokens n) :
      Fails .factor name (token :: tokens) (.unexpectedToken ")" (shownHead []))
  /-- There is a difficulty with the first factor of a term. -/
  | factor {name : String} {tokens : List Token} {e : ParseError}
      (h : Fails .factor name tokens e) : Fails .term name tokens e
  /-- There is a difficulty with a later factor of a term. -/
  | laterFactor {name : String} {left rest : List Token} {token : Token} {op : BinaryOp} {a : Int}
      {e : ParseError} (hleft : Denotes .term left a) (hop : termOperator? token = some op)
      (h : Fails .factor "F" rest e) : Fails .term name (left ++ token :: rest) e
  /-- A product or quotient has no value. -/
  | product {name : String} {left right rest : List Token} {token : Token} {op : BinaryOp}
      {a b : Int} {e : OperationError} (hleft : Denotes .term left a)
      (hop : termOperator? token = some op) (hright : Denotes .factor right b)
      (h : Refuses op a b e) : Fails .term name (left ++ token :: right ++ rest) (.action e)
  /-- What comes after a factor does not go on with the term and does not complete it. -/
  | follow {name : String} {left rest : List Token} {token : Token} {a : Int}
      (hleft : Denotes .term left a) (hnone : termOperator? token = none)
      (h : ¬ completesTerm (token :: rest) = true) :
      Fails .term name (left ++ token :: rest) (cannotStart "T'" (token :: rest))
  /-- There is a difficulty with the first term of a sum. -/
  | term {name : String} {tokens : List Token} {e : ParseError} (h : Fails .term name tokens e) :
      Fails .sum name tokens e
  /-- There is a difficulty with a later term of a sum. -/
  | laterTerm {name : String} {left rest : List Token} {token : Token} {op : BinaryOp} {a : Int}
      {e : ParseError} (hleft : Denotes .sum left a) (hop : sumOperator? token = some op)
      (h : Fails .term "T" rest e) : Fails .sum name (left ++ token :: rest) e
  /-- A sum or difference has no value, and its right operand is complete. -/
  | sum {name : String} {left right rest : List Token} {token : Token} {op : BinaryOp} {a b : Int}
      {e : OperationError} (hleft : Denotes .sum left a) (hop : sumOperator? token = some op)
      (hright : Denotes .term right b) (hrest : completesTerm rest = true) (h : Refuses op a b e) :
      Fails .sum name (left ++ token :: right ++ rest) (.action e)
  /-- There is a difficulty with a sum without a sign. -/
  | unsigned {name : String} {tokens : List Token} {e : ParseError}
      (hnone : ∀ token ∈ tokens.head?, sumOperator? token = none) (h : Fails .sum name tokens e) :
      Fails .signed name tokens e
  /-- There is a difficulty with the sum after a sign. -/
  | signed {name : String} {token : Token} {sign : BinaryOp} {rest : List Token} {e : ParseError}
      (hsign : sumOperator? token = some sign) (h : Fails .sum "E'" rest e) :
      Fails .signed name (token :: rest) e
  /-- A complete sum has no opposite. -/
  | negation {name : String} {token : Token} {tokens rest : List Token} {n : Int}
      (hsign : sumOperator? token = some .sub) (hsum : Denotes .sum tokens n)
      (hrest : completesSum rest = true) (hfits : ¬ Value.Fits (-n)) :
      Fails .signed name (token :: tokens ++ rest) (.action (.overflow .negation))

/-! ### Operations -/

theorem apply_eq_error_iff {op : BinaryOp} {a b : Value} {e : OperationError} :
    op.apply a b = .error e ↔ Refuses op a.toInt b.toInt e := by
  rw [BinaryOp.apply]
  split
  · next hdivisor =>
    rw [← toInt_eq_zero_iff] at hdivisor
    constructor
    · intro h
      cases h
      exact .divisionByZero hdivisor
    · rintro (_ | ⟨hnot, -⟩)
      · rfl
      · exact absurd hdivisor hnot
  · next hdivisor =>
    rw [← toInt_eq_zero_iff] at hdivisor
    cases hvalue : Value.ofInt? (op.exact a.toInt b.toInt) with
    | some v =>
      refine ⟨(nomatch ·), ?_⟩
      rintro (h | ⟨-, hfits⟩)
      · exact absurd h hdivisor
      · rw [Value.ofInt?_eq_none_iff.2 hfits] at hvalue
        cases hvalue
    | none =>
      constructor
      · intro h
        cases h
        exact .overflow hdivisor (Value.ofInt?_eq_none_iff.1 hvalue)
      · rintro (h | _)
        · exact absurd h hdivisor
        · rfl

theorem combine_of_refuses {op : BinaryOp} {a b : Value} {e : OperationError}
    (h : Refuses op a.toInt b.toInt e) : combine op a b = .error (.action e) := by
  rw [combine, apply_eq_error_iff.2 h]

theorem exists_refuses {op : BinaryOp} {a b : Value} {e : ParseError}
    (h : combine op a b = .error e) : ∃ e', e = .action e' ∧ Refuses op a.toInt b.toInt e' := by
  rw [combine] at h
  cases happly : op.apply a b with
  | ok v => rw [happly] at h; cases h
  | error e' =>
    rw [happly] at h
    exact ⟨e', (Except.error.inj h).symm, apply_eq_error_iff.1 happly⟩

theorem opposite_eq_error_iff {v : Value} {e : ParseError} : opposite v = .error e ↔
    ¬ Value.Fits (-v.toInt) ∧ e = .action (.overflow .negation) := by
  rw [opposite, ← Value.ofInt?_eq_none_iff]
  cases Value.ofInt? (-v.toInt) with
  | some w => simp
  | none => exact ⟨fun h => ⟨rfl, (Except.error.inj h).symm⟩, fun h => by rw [h.2]⟩

/-! ### What is not read -/

/-- The reading of a part. -/
def readPart : Part → String → List Token → Reading
  | .signed => readSigned
  | .sum => readSum
  | .term => readTerm
  | .factor => readFactor

/-- A first difficulty is why nothing is read. -/
theorem readPart_of_fails {p : Part} {name : String} {tokens : List Token} {e : ParseError}
    (h : Fails p name tokens e) : readPart p name tokens = .error e := by
  induction h with
  | start h => exact readFactor_of_not h _
  | identifier hkind =>
    show readFactor _ _ = _
    rw [readFactor_cons, if_pos (isAtom_iff.2 (Or.inl hkind)), valueOfAtom, hkind]
    rfl
  | number hkind hdigits hfits =>
    show readFactor _ _ = _
    rw [readFactor_cons, if_pos (isAtom_iff.2 (Or.inr hkind)), valueOfAtom_of_number hkind,
      value?_of_isNumber hdigits, Value.ofInt?_eq_none_iff.2 hfits]
    rfl
  | parentheses hopening _ ih =>
    show readFactor _ _ = _
    rw [readFactor_cons, if_neg (not_isAtom_of_isOpening hopening), if_pos hopening]
    exact bind_of_error ih _
  | @unclosed _ _ tokens _ hopening h =>
    obtain ⟨v, hv⟩ := h.exists_value
    -- the expression is read to the end, where the parenthesis is missing
    have hread := read_of_denotes h hv "E" [] rfl
    rw [List.append_nil] at hread
    show readFactor _ _ = _
    rw [readFactor_cons, if_neg (not_isAtom_of_isOpening hopening), if_pos hopening, hread]
    rfl
  | factor _ ih =>
    show readTerm _ _ = _
    rw [readTerm_eq]
    exact bind_of_error ih _
  | laterFactor hleft hop _ ih =>
    obtain ⟨x, hx⟩ := hleft.exists_value
    show readTerm _ _ = _
    rw [read_of_denotes hleft hx, readTermRest_cons, hop]
    exact bind_of_error ih _
  | product hleft hop hright h =>
    obtain ⟨x, hx⟩ := hleft.exists_value
    obtain ⟨y, hy⟩ := hright.exists_value
    rw [← hx, ← hy] at h
    show readTerm _ _ = _
    rw [List.append_assoc, read_of_denotes hleft hx, List.cons_append, readTermRest_cons, hop]
    dsimp only
    rw [read_of_denotes hright hy]
    exact bind_of_error (combine_of_refuses h) _
  | follow hleft hnone h =>
    obtain ⟨x, hx⟩ := hleft.exists_value
    show readTerm _ _ = _
    rw [read_of_denotes hleft hx, readTermRest_cons, hnone]
    exact if_neg h
  | term _ ih =>
    show readSum _ _ = _
    rw [readSum_eq]
    exact bind_of_error ih _
  | laterTerm hleft hop _ ih =>
    obtain ⟨x, hx⟩ := hleft.exists_value
    show readSum _ _ = _
    rw [read_of_denotes hleft hx _ _ (completesTerm_of_sumOperator? hop _), readSumRest_cons, hop]
    exact bind_of_error ih _
  | sum hleft hop hright hrest h =>
    obtain ⟨x, hx⟩ := hleft.exists_value
    obtain ⟨y, hy⟩ := hright.exists_value
    rw [← hx, ← hy] at h
    show readSum _ _ = _
    rw [List.append_assoc, List.cons_append,
      read_of_denotes hleft hx _ _ (completesTerm_of_sumOperator? hop _), readSumRest_cons, hop]
    dsimp only
    rw [read_of_denotes hright hy, readTermRest_of_completesTerm hrest]
    exact bind_of_error (combine_of_refuses h) _
  | @unsigned name tokens e hnone h ih =>
    show readSigned _ _ = _
    cases tokens with
    | nil =>
      rw [readSigned_nil, ← ih]
      exact (readSum_of_not not_startsFactor_nil name).symm
    | cons token rest =>
      rw [readSigned_cons, hnone token rfl]
      exact ih
  | signed hsign _ ih =>
    show readSigned _ _ = _
    rw [readSigned_cons, hsign]
    exact bind_of_error ih _
  | @negation _ _ tokens rest n hsign hsum hrest hfits =>
    obtain ⟨x, hx⟩ := hsum.exists_value
    rw [← hx] at hfits
    show readSigned _ _ = _
    rw [List.cons_append, readSigned_cons, hsign]
    dsimp only
    rw [read_of_denotes hsum hx _ _ (completesTerm_of_completesSum hrest),
      readSumRest_of_completesSum hrest]
    show (opposite x).map _ = _
    rw [opposite_eq_error_iff.2 ⟨hfits, rfl⟩]
    rfl

/-! ### First difficulties -/

/-- A sum is read up to what completes it. -/
theorem completesSum_of_readSumRest {left v : Value} {tokens rest : List Token}
    (hcompletes : completesTerm tokens = true) (h : readSumRest left tokens = .ok (v, rest)) :
    completesSum rest = true := by
  induction hlength : tokens.length using Nat.strongRecOn generalizing tokens left with
  | ind length ih =>
    subst hlength
    cases tokens with
    | nil =>
      rw [readSumRest_nil] at h
      obtain ⟨-, rfl⟩ := Prod.mk.inj (Except.ok.inj h)
      rfl
    | cons token after =>
      rw [readSumRest_cons] at h
      cases hop : sumOperator? token with
      | none =>
        rw [hop] at h
        obtain ⟨-, rfl⟩ := Prod.mk.inj (Except.ok.inj h)
        rw [completesTerm, hop] at hcompletes
        exact hcompletes
      | some op =>
        rw [hop] at h
        obtain ⟨⟨right, last⟩, hterm, hcombined⟩ := exists_of_bind h
        obtain ⟨w, -, hmore⟩ := exists_of_bind hcombined
        exact ih last.length (Nat.lt_succ_of_lt (length_of_readTerm hterm))
          (completesTerm_of_readTerm hterm) hmore rfl

theorem completesSum_of_readSum {name : String} {v : Value} {tokens rest : List Token}
    (h : readSum name tokens = .ok (v, rest)) : completesSum rest = true := by
  rw [readSum_eq] at h
  obtain ⟨⟨w, after⟩, hterm, hrest⟩ := exists_of_bind h
  exact completesSum_of_readSumRest (completesTerm_of_readTerm hterm) hrest

theorem completesSum_of_readSigned {name : String} {v : Value} {tokens rest : List Token}
    (h : readSigned name tokens = .ok (v, rest)) : completesSum rest = true := by
  cases tokens with
  | nil => rw [readSigned_nil] at h; cases h
  | cons token after =>
    rw [readSigned_cons] at h
    cases hsign : sumOperator? token with
    | none =>
      rw [hsign] at h
      exact completesSum_of_readSum h
    | some sign =>
      rw [hsign] at h
      obtain ⟨⟨w, last⟩, hsum, happly⟩ := exists_of_bind h
      obtain ⟨x, -, hpair⟩ := exists_of_map happly
      obtain ⟨-, rfl⟩ := Prod.mk.inj hpair
      exact completesSum_of_readSum hsum

theorem fails_of_valueOfAtom {token : Token} (hlex : token.IsLexical) (hatom : isAtom token = true)
    {e : ParseError} (h : valueOfAtom token = .error e) (name : String) (rest : List Token) :
    Fails .factor name (token :: rest) e := by
  rcases isAtom_iff.1 hatom with hkind | hkind
  · rw [valueOfAtom, hkind] at h
    cases h
    exact .identifier hkind
  · have hdigits := isNumber_of_isLexical hlex hkind
    rw [valueOfAtom_of_number hkind, value?_of_isNumber hdigits] at h
    cases hvalue : Value.ofInt? (magnitude token) with
    | some v => rw [hvalue] at h; cases h
    | none =>
      rw [hvalue] at h
      cases h
      exact .number hkind hdigits (Value.ofInt?_eq_none_iff.1 hvalue)

mutual

/-- What is not read as an expression has a first difficulty. -/
theorem fails_of_readSigned {name : String} {tokens : List Token} {e : ParseError}
    (hlex : ∀ t ∈ tokens, t.IsLexical) (h : readSigned name tokens = .error e) :
    Fails .signed name tokens e := by
  cases tokens with
  | nil =>
    rw [readSigned_nil] at h
    cases h
    exact .unsigned (fun _ hmem => nomatch hmem) (.term (.factor (.start not_startsFactor_nil)))
  | cons token rest =>
    rw [readSigned_cons] at h
    cases hsign : sumOperator? token with
    | none =>
      rw [hsign] at h
      refine .unsigned (fun t ht => ?_) (fails_of_readSum hlex h)
      rwa [← Option.some.inj ht]
    | some sign =>
      rw [hsign] at h
      have hrest := (List.forall_mem_cons.1 hlex).2
      rcases error_of_bind h with hsum | ⟨⟨w, last⟩, hsum, happly⟩
      · exact .signed hsign (fails_of_readSum hrest hsum)
      · obtain ⟨tokens, rfl, hdenotes⟩ := denotes_of_readSum hrest hsum
        have hopposite := error_of_map happly
        rw [applySign] at hopposite
        split at hopposite
        · next heq =>
          obtain ⟨hfits, rfl⟩ := opposite_eq_error_iff.1 hopposite
          exact .negation (heq ▸ hsign) hdenotes (completesSum_of_readSum hsum) hfits
        · cases hopposite
termination_by (tokens.length, 4)
decreasing_by
  · subst_vars
    exact Prod.Lex.right _ (by decide)
  · subst_vars
    exact Prod.Lex.left _ _ (Nat.lt_succ_self _)

theorem fails_of_readSum {name : String} {tokens : List Token} {e : ParseError}
    (hlex : ∀ t ∈ tokens, t.IsLexical) (h : readSum name tokens = .error e) :
    Fails .sum name tokens e := by
  rw [readSum_eq] at h
  rcases error_of_bind h with hterm | ⟨⟨w, after⟩, hterm, hrest⟩
  · exact .term (fails_of_readTerm hlex hterm)
  · have hlength := length_of_readTerm hterm
    obtain ⟨before, hbefore, hdenotes⟩ := denotes_of_readTerm hlex hterm
    have hfails := fails_of_readSumRest (forall_of_append hbefore hlex)
      (completesTerm_of_readTerm hterm) (.term hdenotes) hrest name
    rwa [← hbefore] at hfails
termination_by (tokens.length, 3)

theorem fails_of_readSumRest {left : Value} {first tokens : List Token} {e : ParseError}
    (hlex : ∀ t ∈ tokens, t.IsLexical) (hcompletes : completesTerm tokens = true)
    (hfirst : Denotes .sum first left.toInt) (h : readSumRest left tokens = .error e)
    (name : String) : Fails .sum name (first ++ tokens) e := by
  cases tokens with
  | nil => rw [readSumRest_nil] at h; cases h
  | cons token rest =>
    rw [readSumRest_cons] at h
    cases hop : sumOperator? token with
    | none => rw [hop] at h; cases h
    | some op =>
      rw [hop] at h
      have hrest := (List.forall_mem_cons.1 hlex).2
      rcases error_of_bind h with hterm | ⟨⟨right, last⟩, hterm, hcombined⟩
      · exact .laterTerm hfirst hop (fails_of_readTerm hrest hterm)
      · have hlength := length_of_readTerm hterm
        obtain ⟨operand, hoperand, hright⟩ := denotes_of_readTerm hrest hterm
        rcases error_of_bind hcombined with hrefused | ⟨w, hw, hmore⟩
        · obtain ⟨e', rfl, hrefuses⟩ := exists_refuses hrefused
          have hfails : Fails .sum name (first ++ token :: operand ++ last) (.action e') :=
            .sum hfirst hop hright (completesTerm_of_readTerm hterm) hrefuses
          rwa [List.append_assoc, List.cons_append, ← hoperand] at hfails
        · -- the terms so far are the left operand of what follows
          have hleft := hfirst.sum_of_combine hop hright hw
          have hfails := fails_of_readSumRest (forall_of_append hoperand hrest)
            (completesTerm_of_readTerm hterm) hleft hmore name
          rwa [List.append_assoc, List.cons_append, ← hoperand] at hfails
termination_by (tokens.length, 0)

theorem fails_of_readTerm {name : String} {tokens : List Token} {e : ParseError}
    (hlex : ∀ t ∈ tokens, t.IsLexical) (h : readTerm name tokens = .error e) :
    Fails .term name tokens e := by
  rw [readTerm_eq] at h
  rcases error_of_bind h with hfactor | ⟨⟨w, after⟩, hfactor, hrest⟩
  · exact .factor (fails_of_readFactor hlex hfactor)
  · have hlength := length_of_readFactor hfactor
    obtain ⟨before, hbefore, hdenotes⟩ := denotes_of_readFactor hlex hfactor
    have hfails :=
      fails_of_readTermRest (forall_of_append hbefore hlex) (.factor hdenotes) hrest name
    rwa [← hbefore] at hfails
termination_by (tokens.length, 2)

theorem fails_of_readTermRest {left : Value} {first tokens : List Token} {e : ParseError}
    (hlex : ∀ t ∈ tokens, t.IsLexical) (hfirst : Denotes .term first left.toInt)
    (h : readTermRest left tokens = .error e) (name : String) :
    Fails .term name (first ++ tokens) e := by
  cases tokens with
  | nil => rw [readTermRest_nil] at h; cases h
  | cons token rest =>
    rw [readTermRest_cons] at h
    cases hop : termOperator? token with
    | none =>
      rw [hop] at h
      dsimp only at h
      split at h
      · cases h
      · next hfollow =>
        cases h
        exact .follow hfirst hop hfollow
    | some op =>
      rw [hop] at h
      have hrest := (List.forall_mem_cons.1 hlex).2
      rcases error_of_bind h with hfactor | ⟨⟨right, last⟩, hfactor, hcombined⟩
      · exact .laterFactor hfirst hop (fails_of_readFactor hrest hfactor)
      · have hlength := length_of_readFactor hfactor
        obtain ⟨operand, hoperand, hright⟩ := denotes_of_readFactor hrest hfactor
        rcases error_of_bind hcombined with hrefused | ⟨w, hw, hmore⟩
        · obtain ⟨e', rfl, hrefuses⟩ := exists_refuses hrefused
          have hfails : Fails .term name (first ++ token :: operand ++ last) (.action e') :=
            .product hfirst hop hright hrefuses
          rwa [List.append_assoc, List.cons_append, ← hoperand] at hfails
        · have hleft := hfirst.product_of_combine hop hright hw
          have hfails := fails_of_readTermRest (forall_of_append hoperand hrest) hleft hmore name
          rwa [List.append_assoc, List.cons_append, ← hoperand] at hfails
termination_by (tokens.length, 0)

theorem fails_of_readFactor {name : String} {tokens : List Token} {e : ParseError}
    (hlex : ∀ t ∈ tokens, t.IsLexical) (h : readFactor name tokens = .error e) :
    Fails .factor name tokens e := by
  cases tokens with
  | nil =>
    rw [readFactor_nil] at h
    cases h
    exact .start not_startsFactor_nil
  | cons token rest =>
    rw [readFactor_cons] at h
    split at h
    · next hatom =>
      exact fails_of_valueOfAtom (hlex token List.mem_cons_self) hatom (error_of_map h) name rest
    · next hatom =>
      split at h
      · next hopening =>
        have hrest := (List.forall_mem_cons.1 hlex).2
        rcases error_of_bind h with hsigned | ⟨⟨w, inner⟩, hsigned, hclosing⟩
        · exact .parentheses hopening (fails_of_readSigned hrest hsigned)
        · obtain ⟨before, hbefore, hdenotes⟩ := denotes_of_readSigned hrest hsigned
          have hcompletes := completesSum_of_readSigned hsigned
          cases inner with
          | nil =>
            rw [List.append_nil] at hbefore
            rw [hbefore]
            cases hclosing
            exact .unclosed hopening hdenotes
          | cons last inner =>
            -- what comes after the sum is a closing parenthesis
            have hlast : isClosing last = true := hcompletes
            dsimp only at hclosing
            rw [readClosing_cons, if_pos hlast] at hclosing
            cases hclosing
      · next hopening =>
        cases h
        exact .start (by rw [startsFactor_cons_iff, not_or]; exact ⟨hatom, hopening⟩)
termination_by (tokens.length, 1)

end

/-- A list of tokens from a source text has no value for the reason that is met first: a difficulty
with an expression in front, or a closing parenthesis after it. -/
theorem value_eq_error_iff {tokens : List Token} (hlex : ∀ token ∈ tokens, token.IsLexical)
    {e : ParseError} : value tokens = .error e ↔ Fails .signed "S" tokens e ∨
      ∃ before token rest n, tokens = before ++ token :: rest ∧ Denotes .signed before n ∧
        isClosing token = true ∧ e = .unexpectedToken "#" (shownHead (token :: rest)) := by
  rw [value_eq]
  constructor
  · intro h
    cases hread : readSigned "S" tokens with
    | error e' =>
      rw [hread] at h
      cases h
      exact Or.inl (fails_of_readSigned hlex hread)
    | ok result =>
      obtain ⟨v, rest⟩ := result
      rw [hread] at h
      obtain ⟨before, hbefore, hdenotes⟩ := denotes_of_readSigned hlex hread
      have hcompletes := completesSum_of_readSigned hread
      cases rest with
      | nil => cases h
      | cons token rest =>
        cases h
        exact Or.inr ⟨before, token, rest, _, hbefore, hdenotes, hcompletes, rfl⟩
  · rintro (h | ⟨before, token, rest, n, rfl, hdenotes, hclosing, rfl⟩)
    · have hread : readSigned "S" tokens = .error e := readPart_of_fails h
      rw [hread]
    · obtain ⟨v, hv⟩ := hdenotes.exists_value
      rw [read_of_denotes hdenotes hv "S" (token :: rest) hclosing]

end ArithFrontEnd.Expression
