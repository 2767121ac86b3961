import ArithFrontEnd.Proofs.Expression.Lexemes
import ArithFrontEnd.Proofs.Expression.Readings

/-!
# The meaning of expressions

Which tokens form an expression, and what integer it stands for, can be said without reading from
the left.  Sums and terms are read off their last operator, so that operators associate to the left;
the results are those of the unbounded integers and have to be in range.  The recursive evaluation
finds exactly these integers.

## Main definitions

* `Part`, `Denotes` — the parts of an expression, and what tokens stand for.

## Main results

* `read_of_denotes` — tokens that stand for an integer are read to their end.
* `denotes_of_readSigned` — what is read stands for its value.
* `value_eq_ok_iff` — **a list of tokens has the value that it stands for.**
-/

namespace ArithFrontEnd.Expression

/-- The parts of an expression. -/
inductive Part
  /-- A sum with an optional sign. -/
  | signed
  /-- A sum of terms. -/
  | sum
  /-- A product of factors. -/
  | term
  /-- A number or an expression in parentheses. -/
  | factor
  deriving DecidableEq, Repr

/-- The tokens form this part of an expression and stand for this integer: all numbers and all
results on the way are in range, and no divisor is zero. -/
inductive Denotes : Part → List Token → Int → Prop
  /-- A number stands for the integer of its digits. -/
  | number {token : Token} (hkind : token.kind = .number)
      (hdigits : Source.isNumber token.text.toList = true) (hfits : Value.Fits (magnitude token)) :
      Denotes .factor [token] (magnitude token)
  /-- An expression in parentheses stands for the integer of the expression. -/
  | parentheses {left right : Token} {tokens : List Token} {n : Int}
      (hleft : isOpening left = true) (h : Denotes .signed tokens n)
      (hright : isClosing right = true) : Denotes .factor (left :: tokens ++ [right]) n
  /-- A factor is a term. -/
  | factor {tokens : List Token} {n : Int} (h : Denotes .factor tokens n) : Denotes .term tokens n
  /-- The last factor of a term is the right operand of the operator in front of it. -/
  | product {left right : List Token} {token : Token} {op : BinaryOp} {a b : Int}
      (hleft : Denotes .term left a) (hop : termOperator? token = some op)
      (hright : Denotes .factor right b) (hdivisor : ¬ (op = .div ∧ b = 0))
      (hfits : Value.Fits (op.exact a b)) : Denotes .term (left ++ token :: right) (op.exact a b)
  /-- A term is a sum. -/
  | term {tokens : List Token} {n : Int} (h : Denotes .term tokens n) : Denotes .sum tokens n
  /-- The last term of a sum is the right operand of the operator in front of it. -/
  | sum {left right : List Token} {token : Token} {op : BinaryOp} {a b : Int}
      (hleft : Denotes .sum left a) (hop : sumOperator? token = some op)
      (hright : Denotes .term right b) (hfits : Value.Fits (op.exact a b)) :
      Denotes .sum (left ++ token :: right) (op.exact a b)
  /-- A sum needs no sign. -/
  | unsigned {tokens : List Token} {n : Int} (h : Denotes .sum tokens n) : Denotes .signed tokens n
  /-- A plus sign in front changes nothing. -/
  | plus {token : Token} {tokens : List Token} {n : Int} (hsign : sumOperator? token = some .add)
      (h : Denotes .sum tokens n) : Denotes .signed (token :: tokens) n
  /-- A minus sign in front is that of the whole sum. -/
  | minus {token : Token} {tokens : List Token} {n : Int} (hsign : sumOperator? token = some .sub)
      (h : Denotes .sum tokens n) (hfits : Value.Fits (-n)) :
      Denotes .signed (token :: tokens) (-n)

/-! ### Values -/

/-- Tokens stand for integers that are in range. -/
theorem Denotes.fits {p : Part} {tokens : List Token} {n : Int} (h : Denotes p tokens n) :
    Value.Fits n := by
  induction h with
  | number _ _ hfits => exact hfits
  | parentheses _ _ _ ih => exact ih
  | factor _ ih => exact ih
  | product _ _ _ _ hfits => exact hfits
  | term _ ih => exact ih
  | sum _ _ _ hfits => exact hfits
  | unsigned _ ih => exact ih
  | plus _ _ ih => exact ih
  | minus _ _ hfits => exact hfits

theorem Denotes.exists_value {p : Part} {tokens : List Token} {n : Int} (h : Denotes p tokens n) :
    ∃ v : Value, v.toInt = n := ⟨_, Value.ofInt?_eq_some_iff.1 (if_pos h.fits)⟩

theorem toInt_eq_zero_iff {v : Value} : v.toInt = 0 ↔ v = 0 :=
  ⟨fun h => Int64.toInt_inj.1 (h.trans rfl), fun h => by rw [h]; rfl⟩

theorem combine_eq_ok_iff {op : BinaryOp} {a b v : Value} : combine op a b = .ok v ↔
    ¬ (op = .div ∧ b.toInt = 0) ∧ v.toInt = op.exact a.toInt b.toInt := by
  rw [toInt_eq_zero_iff, ← BinaryOp.apply_eq_ok_iff, combine]
  cases op.apply a b <;> simp

/-- The result of an operator in a sum stands for the operands together. -/
theorem Denotes.sum_of_combine {left right : List Token} {token : Token} {op : BinaryOp}
    {a b v : Value} (hleft : Denotes .sum left a.toInt) (hop : sumOperator? token = some op)
    (hright : Denotes .term right b.toInt) (h : combine op a b = .ok v) :
    Denotes .sum (left ++ token :: right) v.toInt := by
  have hresult := (combine_eq_ok_iff.1 h).2
  rw [hresult]
  exact .sum hleft hop hright (hresult ▸ Value.fits_toInt v)

/-- The result of an operator in a term stands for the operands together. -/
theorem Denotes.product_of_combine {left right : List Token} {token : Token} {op : BinaryOp}
    {a b v : Value} (hleft : Denotes .term left a.toInt) (hop : termOperator? token = some op)
    (hright : Denotes .factor right b.toInt) (h : combine op a b = .ok v) :
    Denotes .term (left ++ token :: right) v.toInt := by
  obtain ⟨hdivisor, hresult⟩ := combine_eq_ok_iff.1 h
  rw [hresult]
  exact .product hleft hop hright hdivisor (hresult ▸ Value.fits_toInt v)

theorem opposite_eq_ok_iff {v w : Value} : opposite v = .ok w ↔ w.toInt = -v.toInt := by
  rw [opposite, ← Value.ofInt?_eq_some_iff]
  cases Value.ofInt? (-v.toInt) <;> simp

theorem valueOfAtom_of_number {token : Token} (h : token.kind = .number) :
    valueOfAtom token =
      (Numeral.value? token.text).elim (.error (.unknownValue (shownHead [token]))) .ok := by
  rw [valueOfAtom, h]
  cases Numeral.value? token.text <;> rfl

theorem sumOperator?_ne_div {token : Token} {op : BinaryOp} (h : sumOperator? token = some op) :
    op ≠ .div := by
  obtain ⟨-, -, rfl | rfl⟩ := sumOperator?_eq_some_iff.1 h <;> decide

/-- Tokens that stand for an integer are tokens as they come from a source text. -/
theorem Denotes.isLexical {p : Part} {tokens : List Token} {n : Int} (h : Denotes p tokens n) :
    ∀ token ∈ tokens, token.IsLexical := by
  induction h with
  | @number token hkind hdigits hfits =>
    intro other hother
    obtain rfl := List.mem_singleton.1 hother
    rw [Token.IsLexical, hkind]
    exact hdigits
  | parentheses hleft _ hright ih => exact isLexical_parentheses hleft hright ih
  | factor _ ih => exact ih
  | product _ hop _ _ _ ihleft ihright =>
    exact List.forall_mem_append.2
      ⟨ihleft, List.forall_mem_cons.2 ⟨isLexical_of_termOperator? hop, ihright⟩⟩
  | term _ ih => exact ih
  | sum _ hop _ _ ihleft ihright =>
    exact List.forall_mem_append.2
      ⟨ihleft, List.forall_mem_cons.2 ⟨isLexical_of_sumOperator? hop, ihright⟩⟩
  | unsigned _ ih => exact ih
  | plus hsign _ ih => exact List.forall_mem_cons.2 ⟨isLexical_of_sumOperator? hsign, ih⟩
  | minus hsign _ _ ih => exact List.forall_mem_cons.2 ⟨isLexical_of_sumOperator? hsign, ih⟩

/-! ### What is read to the end -/

/-- Only a number or an opening parenthesis is in front. -/
theorem Denotes.startsFactor {p : Part} {tokens : List Token} {n : Int} (h : Denotes p tokens n)
    (hp : p ≠ .signed) (rest : List Token) : StartsFactor (tokens ++ rest) := by
  induction h generalizing rest with
  | number hkind => exact ⟨_, _, rfl, Or.inl (isAtom_iff.2 (Or.inr hkind))⟩
  | parentheses hleft => exact ⟨_, _, rfl, Or.inr hleft⟩
  | factor _ ih => exact ih (by decide) rest
  | product _ _ _ _ _ ih => rw [List.append_assoc]; exact ih (by decide) _
  | term _ ih => exact ih (by decide) rest
  | sum _ _ _ _ ih => rw [List.append_assoc]; exact ih (by decide) _
  | unsigned => exact absurd rfl hp
  | plus => exact absurd rfl hp
  | minus => exact absurd rfl hp

theorem StartsFactor.sumOperator?_eq_none {tokens : List Token} (h : StartsFactor tokens) :
    ∃ token rest, tokens = token :: rest ∧ sumOperator? token = none := by
  obtain ⟨token, rest, rfl, hstarts⟩ := h
  refine ⟨token, rest, rfl, ?_⟩
  cases hop : sumOperator? token with
  | none => rfl
  | some op =>
    have hkind := (sumOperator?_eq_some_iff.1 hop).1
    rw [isAtom_iff, isOpening_iff, hkind] at hstarts
    simp at hstarts

/-- The next token is a closing parenthesis, or there is none. -/
def completesSum : List Token → Bool
  | [] => true
  | token :: _ => isClosing token

theorem completesTerm_of_completesSum {rest : List Token} (h : completesSum rest = true) :
    completesTerm rest = true := by
  cases rest with
  | nil => rfl
  | cons token rest => exact Bool.or_eq_true_iff.2 (Or.inr h)

theorem readSumRest_of_completesSum {rest : List Token} (h : completesSum rest = true) (v : Value) :
    readSumRest v rest = .ok (v, rest) := by
  cases rest with
  | nil => exact readSumRest_nil v
  | cons token rest =>
    have hkind := (isClosing_iff.1 h).1
    rw [readSumRest_cons]
    cases hop : sumOperator? token with
    | none => rfl
    | some op =>
      rw [(sumOperator?_eq_some_iff.1 hop).1] at hkind
      cases hkind

theorem readTermRest_of_completesTerm {rest : List Token} (h : completesTerm rest = true)
    (v : Value) : readTermRest v rest = .ok (v, rest) := by
  cases rest with
  | nil => exact readTermRest_nil v
  | cons token rest =>
    rw [readTermRest_cons]
    cases hop : termOperator? token with
    | none => exact if_pos h
    | some op =>
      -- an operator of a term is not one of a sum
      obtain ⟨hkind, htext, hops⟩ := termOperator?_eq_some_iff.1 hop
      rw [completesTerm, Bool.or_eq_true, Option.isSome_iff_exists, isClosing_iff, hkind] at h
      rcases h with ⟨other, hother⟩ | ⟨hclosing, -⟩
      · obtain ⟨-, htext', hothers⟩ := sumOperator?_eq_some_iff.1 hother
        rw [htext] at htext'
        rcases hops with rfl | rfl <;> rcases hothers with rfl | rfl <;>
          simp [BinaryOp.symbol] at htext'
      · cases hclosing

theorem completesTerm_of_sumOperator? {token : Token} {op : BinaryOp}
    (h : sumOperator? token = some op) (rest : List Token) :
    completesTerm (token :: rest) = true :=
  Bool.or_eq_true_iff.2 (Or.inl (Option.isSome_of_eq_some h))

/-- Tokens in front are read as a part with this value. -/
def ReadAs : Part → List Token → Value → Prop
  | .signed, tokens, v => ∀ part rest, completesSum rest = true →
      readSigned part (tokens ++ rest) = .ok (v, rest)
  | .sum, tokens, v => ∀ part rest, completesTerm rest = true →
      readSum part (tokens ++ rest) = readSumRest v rest
  | .term, tokens, v => ∀ part rest, readTerm part (tokens ++ rest) = readTermRest v rest
  | .factor, tokens, v => ∀ part rest, readFactor part (tokens ++ rest) = .ok (v, rest)

/-- A sum after a sign is read before the sign is applied. -/
theorem readSigned_of_sign {token : Token} {sign : BinaryOp} {tokens rest : List Token}
    {v w : Value} (hsign : sumOperator? token = some sign) (h : ReadAs .sum tokens v)
    (hrest : completesSum rest = true) (hw : applySign sign v = .ok w) (part : String) :
    readSigned part (token :: tokens ++ rest) = .ok (w, rest) := by
  rw [List.cons_append, readSigned_cons, hsign]
  dsimp only
  rw [h "E'" rest (completesTerm_of_completesSum hrest), readSumRest_of_completesSum hrest]
  show (applySign sign v).map (·, rest) = _
  rw [hw]
  rfl

/-- Tokens that stand for an integer are read to their end, with the value that equals it. -/
theorem read_of_denotes {p : Part} {tokens : List Token} {n : Int} (h : Denotes p tokens n)
    {v : Value} (hv : v.toInt = n) : ReadAs p tokens v := by
  induction h generalizing v with
  | @number token hkind hdigits hfits =>
    intro part rest
    have hatom : isAtom token = true := isAtom_iff.2 (Or.inr hkind)
    have hvalue : Numeral.value? token.text = some v := by
      rw [value?_of_isNumber hdigits, ← hv]
      exact Value.ofInt?_toInt v
    rw [List.cons_append, readFactor_cons, if_pos hatom, valueOfAtom_of_number hkind, hvalue]
    rfl
  | @parentheses left right tokens n hleft h hright ih =>
    intro part rest
    rw [List.append_assoc, List.cons_append, readFactor_cons,
      if_neg (not_isAtom_of_isOpening hleft), if_pos hleft,
      ih hv "E" ([right] ++ rest) hright]
    show readClosing v (right :: rest) = _
    rw [readClosing_cons, if_pos hright]
  | factor h ih =>
    intro part rest
    rw [readTerm_eq, ih hv part rest]
    rfl
  | @product left right token op a b hleft hop hright hdivisor hfits ihleft ihright =>
    intro part rest
    obtain ⟨x, hx⟩ := hleft.exists_value
    obtain ⟨y, hy⟩ := hright.exists_value
    have hcombine : combine op x y = .ok v :=
      combine_eq_ok_iff.2 ⟨by rwa [hy], by rw [hv, hx, hy]⟩
    -- the operands are read from the left, and then combined
    rw [List.append_assoc, ihleft hx part, List.cons_append, readTermRest_cons, hop]
    dsimp only
    rw [ihright hy "F" rest]
    show (combine op x y).bind _ = _
    rw [hcombine]
    rfl
  | term h ih =>
    intro part rest hrest
    rw [readSum_eq, ih hv part rest, readTermRest_of_completesTerm hrest]
    rfl
  | @sum left right token op a b hleft hop hright hfits ihleft ihright =>
    intro part rest hrest
    obtain ⟨x, hx⟩ := hleft.exists_value
    obtain ⟨y, hy⟩ := hright.exists_value
    have hcombine : combine op x y = .ok v :=
      combine_eq_ok_iff.2 ⟨fun h => sumOperator?_ne_div hop h.1, by rw [hv, hx, hy]⟩
    rw [List.append_assoc, List.cons_append,
      ihleft hx part _ (completesTerm_of_sumOperator? hop _), readSumRest_cons, hop]
    dsimp only
    rw [ihright hy "T" rest, readTermRest_of_completesTerm hrest]
    show (combine op x y).bind _ = _
    rw [hcombine]
    rfl
  | @unsigned tokens n h ih =>
    intro part rest hrest
    -- the first token is no sign, so that the sum is read as it is
    obtain ⟨token, after, hcons, hnone⟩ :=
      (h.startsFactor (by decide) rest).sumOperator?_eq_none
    have hsum := ih hv part rest (completesTerm_of_completesSum hrest)
    rw [hcons] at hsum ⊢
    rw [readSigned_cons, hnone]
    exact hsum.trans (readSumRest_of_completesSum hrest v)
  | plus hsign h ih =>
    intro part rest hrest
    exact readSigned_of_sign hsign (ih hv) hrest rfl part
  | minus hsign h hfits ih =>
    intro part rest hrest
    obtain ⟨x, hx⟩ := h.exists_value
    exact readSigned_of_sign hsign (ih hx) hrest (opposite_eq_ok_iff.2 (by rw [hv, hx])) part

/-! ### What has been read -/

theorem denotes_of_valueOfAtom {token : Token} {v : Value} (hlex : token.IsLexical)
    (h : valueOfAtom token = .ok v) : Denotes .factor [token] v.toInt := by
  have hkind : token.kind = .number := by
    rw [valueOfAtom] at h
    split at h
    · assumption
    · cases h
  have hdigits := isNumber_of_isLexical hlex hkind
  rw [valueOfAtom_of_number hkind, value?_of_isNumber hdigits] at h
  cases hvalue : Value.ofInt? (magnitude token) with
  | none => rw [hvalue] at h; cases h
  | some w =>
    rw [hvalue] at h
    obtain rfl := Except.ok.inj h
    have hv := Value.ofInt?_eq_some_iff.1 hvalue
    rw [hv]
    exact .number hkind hdigits (hv ▸ Value.fits_toInt w)

/-- The tokens of a source text after the first ones are such tokens too. -/
theorem forall_of_append {before tokens rest : List Token} (h : tokens = before ++ rest)
    (hlex : ∀ token ∈ tokens, token.IsLexical) : ∀ token ∈ rest, token.IsLexical :=
  fun token htoken => hlex token (h ▸ List.mem_append_right before htoken)

-- For the same tokens, the parts of an expression come in the order in which they call each other;
-- what is read after an operator or a parenthesis has fewer tokens.
mutual

/-- What is read of an expression in front stands for its value. -/
theorem denotes_of_readSigned {part : String} {tokens rest : List Token} {v : Value}
    (hlex : ∀ token ∈ tokens, token.IsLexical) (h : readSigned part tokens = .ok (v, rest)) :
    ∃ before, tokens = before ++ rest ∧ Denotes .signed before v.toInt := by
  cases tokens with
  | nil => rw [readSigned_nil] at h; cases h
  | cons token after =>
    rw [readSigned_cons] at h
    cases hsign : sumOperator? token with
    | none =>
      rw [hsign] at h
      obtain ⟨before, hbefore, hdenotes⟩ := denotes_of_readSum hlex h
      exact ⟨before, hbefore, .unsigned hdenotes⟩
    | some sign =>
      rw [hsign] at h
      obtain ⟨⟨w, last⟩, hsum, happly⟩ := exists_of_bind h
      obtain ⟨x, hx, hpair⟩ := exists_of_map happly
      obtain ⟨rfl, rfl⟩ := Prod.mk.inj hpair
      obtain ⟨before, rfl, hdenotes⟩ :=
        denotes_of_readSum (List.forall_mem_cons.1 hlex).2 hsum
      refine ⟨token :: before, rfl, ?_⟩
      rw [applySign] at hx
      split at hx
      · next heq =>
        have hopposite := opposite_eq_ok_iff.1 hx
        rw [hopposite]
        exact .minus (heq ▸ hsign) hdenotes (hopposite ▸ Value.fits_toInt x)
      · next hne =>
        obtain rfl := Except.ok.inj hx
        have hadd := (sumOperator?_eq_some_iff.1 hsign).2.2.resolve_right hne
        exact .plus (hadd ▸ hsign) hdenotes
termination_by (tokens.length, 4)
decreasing_by
  · subst_vars
    exact Prod.Lex.right _ (by decide)
  · subst_vars
    exact Prod.Lex.left _ _ (Nat.lt_succ_self _)

theorem denotes_of_readSum {part : String} {tokens rest : List Token} {v : Value}
    (hlex : ∀ token ∈ tokens, token.IsLexical) (h : readSum part tokens = .ok (v, rest)) :
    ∃ before, tokens = before ++ rest ∧ Denotes .sum before v.toInt := by
  rw [readSum_eq] at h
  obtain ⟨⟨w, after⟩, hterm, hrest⟩ := exists_of_bind h
  have hlength := length_of_readTerm hterm
  obtain ⟨before, hbefore, hdenotes⟩ := denotes_of_readTerm hlex hterm
  obtain ⟨more, rfl, hall⟩ :=
    denotes_of_readSumRest (forall_of_append hbefore hlex) (.term hdenotes) hrest
  exact ⟨before ++ more, by rw [hbefore, List.append_assoc], hall⟩
termination_by (tokens.length, 3)

/-- What is read after the first terms stands for its value together with them. -/
theorem denotes_of_readSumRest {left v : Value} {first tokens rest : List Token}
    (hlex : ∀ token ∈ tokens, token.IsLexical) (hfirst : Denotes .sum first left.toInt)
    (h : readSumRest left tokens = .ok (v, rest)) :
    ∃ before, tokens = before ++ rest ∧ Denotes .sum (first ++ before) v.toInt := by
  cases tokens with
  | nil =>
    rw [readSumRest_nil] at h
    obtain ⟨rfl, rfl⟩ := Prod.mk.inj (Except.ok.inj h)
    exact ⟨[], rfl, by rwa [List.append_nil]⟩
  | cons token after =>
    rw [readSumRest_cons] at h
    cases hop : sumOperator? token with
    | none =>
      rw [hop] at h
      obtain ⟨rfl, rfl⟩ := Prod.mk.inj (Except.ok.inj h)
      exact ⟨[], rfl, by rwa [List.append_nil]⟩
    | some op =>
      rw [hop] at h
      obtain ⟨⟨right, last⟩, hterm, hcombined⟩ := exists_of_bind h
      obtain ⟨w, hw, hmore⟩ := exists_of_bind hcombined
      have hlength := length_of_readTerm hterm
      obtain ⟨operand, rfl, hright⟩ :=
        denotes_of_readTerm (List.forall_mem_cons.1 hlex).2 hterm
      -- the terms so far are the left operand of what follows
      have hleft := hfirst.sum_of_combine hop hright hw
      obtain ⟨more, rfl, hall⟩ := denotes_of_readSumRest
        (forall_of_append (List.cons_append ..).symm hlex) hleft hmore
      exact ⟨token :: operand ++ more, by simp, by simpa using hall⟩
termination_by (tokens.length, 0)

theorem denotes_of_readTerm {part : String} {tokens rest : List Token} {v : Value}
    (hlex : ∀ token ∈ tokens, token.IsLexical) (h : readTerm part tokens = .ok (v, rest)) :
    ∃ before, tokens = before ++ rest ∧ Denotes .term before v.toInt := by
  rw [readTerm_eq] at h
  obtain ⟨⟨w, after⟩, hfactor, hrest⟩ := exists_of_bind h
  have hlength := length_of_readFactor hfactor
  obtain ⟨before, hbefore, hdenotes⟩ := denotes_of_readFactor hlex hfactor
  obtain ⟨more, rfl, hall⟩ :=
    denotes_of_readTermRest (forall_of_append hbefore hlex) (.factor hdenotes) hrest
  exact ⟨before ++ more, by rw [hbefore, List.append_assoc], hall⟩
termination_by (tokens.length, 2)

/-- What is read after the first factors stands for its value together with them. -/
theorem denotes_of_readTermRest {left v : Value} {first tokens rest : List Token}
    (hlex : ∀ token ∈ tokens, token.IsLexical) (hfirst : Denotes .term first left.toInt)
    (h : readTermRest left tokens = .ok (v, rest)) :
    ∃ before, tokens = before ++ rest ∧ Denotes .term (first ++ before) v.toInt := by
  cases tokens with
  | nil =>
    rw [readTermRest_nil] at h
    obtain ⟨rfl, rfl⟩ := Prod.mk.inj (Except.ok.inj h)
    exact ⟨[], rfl, by rwa [List.append_nil]⟩
  | cons token after =>
    rw [readTermRest_cons] at h
    cases hop : termOperator? token with
    | none =>
      rw [hop] at h
      dsimp only at h
      split at h
      · obtain ⟨rfl, rfl⟩ := Prod.mk.inj (Except.ok.inj h)
        exact ⟨[], rfl, by rwa [List.append_nil]⟩
      · cases h
    | some op =>
      rw [hop] at h
      obtain ⟨⟨right, last⟩, hfactor, hcombined⟩ := exists_of_bind h
      obtain ⟨w, hw, hmore⟩ := exists_of_bind hcombined
      have hlength := length_of_readFactor hfactor
      obtain ⟨operand, rfl, hright⟩ :=
        denotes_of_readFactor (List.forall_mem_cons.1 hlex).2 hfactor
      have hleft := hfirst.product_of_combine hop hright hw
      obtain ⟨more, rfl, hall⟩ := denotes_of_readTermRest
        (forall_of_append (List.cons_append ..).symm hlex) hleft hmore
      exact ⟨token :: operand ++ more, by simp, by simpa using hall⟩
termination_by (tokens.length, 0)

theorem denotes_of_readFactor {part : String} {tokens rest : List Token} {v : Value}
    (hlex : ∀ token ∈ tokens, token.IsLexical) (h : readFactor part tokens = .ok (v, rest)) :
    ∃ before, tokens = before ++ rest ∧ Denotes .factor before v.toInt := by
  cases tokens with
  | nil => rw [readFactor_nil] at h; cases h
  | cons token after =>
    rw [readFactor_cons] at h
    split at h
    · obtain ⟨w, hw, hpair⟩ := exists_of_map h
      obtain ⟨rfl, rfl⟩ := Prod.mk.inj hpair
      exact ⟨[token], rfl, denotes_of_valueOfAtom (hlex token List.mem_cons_self) hw⟩
    · split at h
      · next hopening =>
        obtain ⟨⟨w, inner⟩, hsigned, hclosing⟩ := exists_of_bind h
        obtain ⟨before, rfl, hdenotes⟩ :=
          denotes_of_readSigned (List.forall_mem_cons.1 hlex).2 hsigned
        -- the expression in parentheses ends where the parenthesis is closed
        cases inner with
        | nil => cases hclosing
        | cons last inner =>
          dsimp only at hclosing
          rw [readClosing_cons] at hclosing
          split at hclosing
          · next hlast =>
            obtain ⟨rfl, rfl⟩ := Prod.mk.inj (Except.ok.inj hclosing)
            exact ⟨token :: before ++ [last], by simp, .parentheses hopening hdenotes hlast⟩
          · cases hclosing
      · cases h
termination_by (tokens.length, 1)

end

/-- A list of tokens from a source text has the value that it stands for, and no other. -/
theorem value_eq_ok_iff {tokens : List Token} (hlex : ∀ token ∈ tokens, token.IsLexical)
    {v : Value} : value tokens = .ok v ↔ Denotes .signed tokens v.toInt := by
  have hvalue : value tokens = .ok v ↔ readSigned "S" tokens = .ok (v, []) := by
    rw [value_eq]
    rcases readSigned "S" tokens with e | ⟨w, rest⟩
    · simp
    · cases rest <;> simp
  rw [hvalue]
  constructor
  · intro h
    obtain ⟨before, rfl, hdenotes⟩ := denotes_of_readSigned hlex h
    rwa [List.append_nil]
  · intro h
    have hread := read_of_denotes h rfl "S" [] rfl
    rwa [List.append_nil] at hread

end ArithFrontEnd.Expression
