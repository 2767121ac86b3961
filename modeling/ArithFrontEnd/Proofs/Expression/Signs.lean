import ArithFrontEnd.Proofs.Expression.Calculation

/-!
# The sign in front of a sum

The calculator reads a sign in front of a sum, then the whole sum, and only then applies the sign.
So a minus sign is that of the sum and not that of its first term, at the top as in parentheses, and
taking the sum away from zero term by term gives another value, unless the other terms cancel out.

## Main definitions

* `Addend`, `addendTokens` — the terms of a sum after the first one, and how they are written.
* `addUp` — a value and then such terms, taken together from the left.

## Main results

* `readSum_addends` — a sum of terms is read as they are taken together.
* `toInt_of_addUp` — terms are taken together as integers.
* `evaluate_minus_sum` — **a minus sign in front is that of the whole sum.**
* `not_evaluate_minus_first_term` — it is not that of the first term.
-/

namespace ArithFrontEnd.Expression

/-- A term of a sum that has a sign in front of it. -/
structure Addend where
  /-- The sign. -/
  sign : Token
  /-- The operator that the sign stands for. -/
  op : BinaryOp
  /-- The tokens of the term. -/
  tokens : List Token
  /-- The value of the term. -/
  value : Value

/-- The sign is one of a sum, and the tokens are a term that has the value. -/
structure Addend.IsTerm (s : Addend) : Prop where
  /-- The sign stands for the operator. -/
  sign : sumOperator? s.sign = some s.op
  /-- The tokens stand for the value. -/
  denotes : Denotes .term s.tokens s.value.toInt

/-- How terms are written after the first term of a sum. -/
def addendTokens (more : List Addend) : List Token := more.flatMap fun s => s.sign :: s.tokens

/-- A value and then terms, taken together from the left. -/
def addUp : Value → List Addend → Except ParseError Value
  | v, [] => .ok v
  | v, s :: more => (combine s.op v s.value).bind (addUp · more)

/-- The integer that terms after the first one add up to. -/
def addendSum (more : List Addend) : Int := (more.map fun s => s.op.exact 0 s.value.toInt).sum

variable {more : List Addend} {first : List Token} {sign left right : Token} {a v w : Value}

theorem addendTokens_cons (s : Addend) (more : List Addend) :
    addendTokens (s :: more) = s.sign :: (s.tokens ++ addendTokens more) := List.flatMap_cons

/-! ### Taking terms together -/

/-- A sum or difference is that of the integers. -/
theorem Addend.IsTerm.exact_eq {s : Addend} (h : s.IsTerm) (x : Int) :
    s.op.exact x s.value.toInt = x + s.op.exact 0 s.value.toInt := by
  obtain ⟨-, -, hop | hop⟩ := sumOperator?_eq_some_iff.1 h.sign <;> rw [hop] <;>
    simp only [BinaryOp.exact] <;> omega

/-- Terms are taken together as integers, if every result on the way is in range. -/
theorem toInt_of_addUp (hmore : ∀ s ∈ more, s.IsTerm) (h : addUp v more = .ok w) :
    w.toInt = v.toInt + addendSum more := by
  induction more generalizing v with
  | nil =>
    obtain rfl := Except.ok.inj h
    exact (Int.add_zero _).symm
  | cons s more ih =>
    obtain ⟨x, hx, hrest⟩ := exists_of_bind h
    have hsum := ih (fun s' hs' => hmore s' (List.mem_cons_of_mem _ hs')) hrest
    have hfirst := (combine_eq_ok_iff.1 hx).2
    rw [hsum, hfirst, (hmore s List.mem_cons_self).exact_eq, Int.add_assoc]
    rfl

/-- The opposite of a sum is the opposite of the first term with the other terms if these cancel
out, and otherwise it is not. -/
theorem opposite_addUp_eq_iff (hmore : ∀ s ∈ more, s.IsTerm)
    (hv : (addUp a more).bind opposite = .ok v)
    (hw : (opposite a).bind (addUp · more) = .ok w) : v = w ↔ addendSum more = 0 := by
  obtain ⟨x, hx, hopposite⟩ := exists_of_bind hv
  obtain ⟨y, hy, hsum⟩ := exists_of_bind hw
  have hleft := opposite_eq_ok_iff.1 hopposite
  have hright := toInt_of_addUp hmore hsum
  rw [toInt_of_addUp hmore hx] at hleft
  rw [opposite_eq_ok_iff.1 hy] at hright
  rw [← Int64.toInt_inj, hleft, hright]
  omega

/-! ### Reading a sum -/

theorem completesTerm_addendTokens (hmore : ∀ s ∈ more, s.IsTerm) {rest : List Token}
    (hrest : completesSum rest = true) : completesTerm (addendTokens more ++ rest) = true := by
  cases more with
  | nil => exact completesTerm_of_completesSum hrest
  | cons s more => exact completesTerm_of_sumOperator? (hmore s List.mem_cons_self).sign _

/-- After the first terms of a sum, the others are read as they are taken together. -/
theorem readSumRest_addends (hmore : ∀ s ∈ more, s.IsTerm) {rest : List Token}
    (hrest : completesSum rest = true) :
    readSumRest v (addendTokens more ++ rest) = (addUp v more).map (·, rest) := by
  induction more generalizing v with
  | nil => exact readSumRest_of_completesSum hrest v
  | cons s more ih =>
    have hs := hmore s List.mem_cons_self
    have hothers : ∀ s' ∈ more, s'.IsTerm := fun s' hs' => hmore s' (List.mem_cons_of_mem _ hs')
    rw [addendTokens_cons, List.cons_append, List.append_assoc, readSumRest_cons, hs.sign]
    dsimp only
    rw [read_of_denotes hs.denotes rfl "T",
      readTermRest_of_completesTerm (completesTerm_addendTokens hothers hrest), addUp]
    cases hcombine : combine s.op v s.value with
    | error e => exact bind_of_error hcombine _
    | ok x =>
      refine Eq.trans ?_ (ih hothers)
      show (combine s.op v s.value).bind _ = _
      rw [hcombine]
      rfl

/-- A sum of terms is read as they are taken together. -/
theorem readSum_addends (hfirst : Denotes .term first a.toInt) (hmore : ∀ s ∈ more, s.IsTerm)
    {rest : List Token} (hrest : completesSum rest = true) (part : String) :
    readSum part (first ++ addendTokens more ++ rest) = (addUp a more).map (·, rest) := by
  rw [List.append_assoc, readSum_eq, read_of_denotes hfirst rfl part,
    readTermRest_of_completesTerm (completesTerm_addendTokens hmore hrest)]
  exact readSumRest_addends hmore hrest

/-- With a minus sign in front, the opposite of the sum is read. -/
theorem readSigned_minus (hsign : sumOperator? sign = some .sub)
    (hfirst : Denotes .term first a.toInt) (hmore : ∀ s ∈ more, s.IsTerm) {rest : List Token}
    (hrest : completesSum rest = true) (part : String) :
    readSigned part (sign :: first ++ addendTokens more ++ rest) =
      ((addUp a more).bind opposite).map (·, rest) := by
  rw [List.cons_append, List.cons_append, readSigned_cons, hsign]
  dsimp only
  rw [readSum_addends hfirst hmore hrest]
  cases addUp a more <;> rfl

/-- Without a sign in front, the sum is read. -/
theorem readSigned_addends (hfirst : Denotes .term first a.toInt) (hmore : ∀ s ∈ more, s.IsTerm)
    {rest : List Token} (hrest : completesSum rest = true) (part : String) :
    readSigned part (first ++ addendTokens more ++ rest) = (addUp a more).map (·, rest) := by
  have hread := readSum_addends hfirst hmore hrest part
  obtain ⟨token, after, hcons, hnone⟩ :=
    (hfirst.startsFactor (by decide) (addendTokens more ++ rest)).sumOperator?_eq_none
  rw [List.append_assoc, hcons] at hread ⊢
  rwa [readSigned_cons, hnone]

/-- In parentheses, an expression is read as it is read in front of a closing parenthesis. -/
theorem readSigned_parentheses {tokens : List Token} {result : Except ParseError Value}
    (hleft : isOpening left = true) (hright : isClosing right = true)
    (h : readSigned "E" (tokens ++ [right]) = result.map (·, [right])) (part : String) :
    readSigned part (left :: tokens ++ [right]) = result.map (·, []) := by
  have hstarts : StartsFactor (left :: tokens ++ [right]) :=
    startsFactor_cons_iff.2 (Or.inr hleft)
  obtain ⟨token, rest, hcons, hnone⟩ := hstarts.sumOperator?_eq_none
  obtain ⟨rfl, -⟩ := List.cons.inj hcons
  rw [List.cons_append, readSigned_cons, hnone]
  dsimp only
  rw [readSum_eq, readTerm_eq, readFactor_cons, if_neg (not_isAtom_of_isOpening hleft),
    if_pos hleft, h]
  cases result with
  | error e => rfl
  | ok v =>
    show Except.bind (Except.bind (readClosing v [right]) _) _ = _
    rw [readClosing_cons, if_pos hright]
    show Except.bind (readTermRest v []) _ = _
    rw [readTermRest_nil]
    exact readSumRest_nil v

/-! ### The calculator -/

theorem isLexical_addendTokens (hmore : ∀ s ∈ more, s.IsTerm) :
    ∀ token ∈ addendTokens more, token.IsLexical := by
  intro token htoken
  obtain ⟨s, hs, hmem⟩ := List.mem_flatMap.1 htoken
  rcases List.mem_cons.1 hmem with rfl | hmem
  · exact isLexical_of_sumOperator? (hmore s hs).sign
  · exact (hmore s hs).denotes.isLexical token hmem

/-- What is read to the end is what the calculator gives. -/
theorem evaluate_of_readSigned {tokens : List Token} {result : Except ParseError Value}
    (hlex : ∀ token ∈ tokens, token.IsLexical)
    (h : readSigned "S" tokens = result.map (·, [])) : evaluate tokens = result := by
  rw [evaluate_eq_value hlex, value_eq, h]
  cases result <;> rfl

/-- A sum has the value of its terms taken together from the left. -/
theorem evaluate_addends (hfirst : Denotes .term first a.toInt) (hmore : ∀ s ∈ more, s.IsTerm) :
    evaluate (first ++ addendTokens more) = addUp a more := by
  have hlex := List.forall_mem_append.2 ⟨hfirst.isLexical, isLexical_addendTokens hmore⟩
  have hend : completesSum [] = true := rfl
  have hread := readSigned_addends hfirst hmore hend "S"
  rw [List.append_nil] at hread
  exact evaluate_of_readSigned hlex hread

theorem isLexical_minus_addends (hsign : sumOperator? sign = some .sub)
    (hfirst : Denotes .term first a.toInt) (hmore : ∀ s ∈ more, s.IsTerm) :
    ∀ token ∈ sign :: first ++ addendTokens more, token.IsLexical :=
  List.forall_mem_append.2
    ⟨List.forall_mem_cons.2 ⟨isLexical_of_sumOperator? hsign, hfirst.isLexical⟩,
      isLexical_addendTokens hmore⟩

/-- With a minus sign in front, a sum has the opposite of that value. -/
theorem evaluate_minus_addends (hsign : sumOperator? sign = some .sub)
    (hfirst : Denotes .term first a.toInt) (hmore : ∀ s ∈ more, s.IsTerm) :
    evaluate (sign :: first ++ addendTokens more) = (addUp a more).bind opposite := by
  have hend : completesSum [] = true := rfl
  have hread := readSigned_minus hsign hfirst hmore hend "S"
  rw [List.append_nil] at hread
  exact evaluate_of_readSigned (isLexical_minus_addends hsign hfirst hmore) hread

/-- A sum with a minus sign in front has the opposite of the value that its terms have together, at
the top and in parentheses, where it is a factor of that value.  With a zero in front, all terms are
taken together from the left.  This is the value that the sum would have if the sign were that of
the first term, and a different one unless the other terms cancel out. -/
theorem evaluate_minus_sum (hsign : sumOperator? sign = some .sub)
    (hfirst : Denotes .term first a.toInt) (hmore : ∀ s ∈ more, s.IsTerm) :
    evaluate (sign :: first ++ addendTokens more) = (addUp a more).bind opposite ∧
    (∀ left right, isOpening left = true → isClosing right = true →
      evaluate (left :: (sign :: first ++ addendTokens more) ++ [right]) =
          (addUp a more).bind opposite ∧
        ∀ v, (addUp a more).bind opposite = .ok v →
          Denotes .factor (left :: (sign :: first ++ addendTokens more) ++ [right]) v.toInt) ∧
    (∀ zero, Denotes .term [zero] 0 → evaluate (zero :: sign :: first ++ addendTokens more) =
      (combine .sub 0 a).bind (addUp · more)) ∧
    ∀ v w, (addUp a more).bind opposite = .ok v → (opposite a).bind (addUp · more) = .ok w →
      (v = w ↔ addendSum more = 0) := by
  have hlex := isLexical_minus_addends hsign hfirst hmore
  have htop := evaluate_minus_addends hsign hfirst hmore
  refine ⟨htop, fun left right hleft hright => ⟨?_, fun v hv => ?_⟩, fun zero hzero => ?_,
    fun v w => opposite_addUp_eq_iff hmore⟩
  · have hend : completesSum [right] = true := hright
    have hread := readSigned_minus hsign hfirst hmore hend "E"
    exact evaluate_of_readSigned (isLexical_parentheses hleft hright hlex)
      (readSigned_parentheses hleft hright hread "S")
  · have hdenotes := ((evaluate_exact _ hlex).2.1 v).1 (htop.trans hv)
    exact .parentheses hleft hdenotes hright
  · -- with a zero in front, the first term is one of those that are taken away
    have hall : ∀ s ∈ ⟨sign, .sub, first, a⟩ :: more, s.IsTerm :=
      List.forall_mem_cons.2 ⟨⟨hsign, hfirst⟩, hmore⟩
    have hvalue : Denotes .term [zero] (0 : Value).toInt := by rwa [toInt_eq_zero_iff.2 rfl]
    have hread := evaluate_addends hvalue hall
    rw [addendTokens_cons] at hread
    exact hread

/-! ### An example -/

theorem denotes_one : Denotes .term [⟨.number, "1", 1⟩] (1 : Value).toInt :=
  .factor (.number rfl (by decide +kernel) (by decide +kernel))

/-- The term of `+2`. -/
def plusTwo : Addend := ⟨⟨.operator, "+", 1⟩, .add, [⟨.number, "2", 1⟩], 2⟩

theorem plusTwo_isTerm : ∀ s ∈ [plusTwo], s.IsTerm :=
  List.forall_mem_singleton.2
    ⟨rfl, .factor (.number rfl (by decide +kernel) (by decide +kernel))⟩

/-- `-1+2` is minus three, and `0-1+2` is one. -/
theorem evaluate_minus_one_plus_two :
    evaluate [⟨.operator, "-", 1⟩, ⟨.number, "1", 1⟩, ⟨.operator, "+", 1⟩, ⟨.number, "2", 1⟩] =
        .ok (-3) ∧
      evaluate [⟨.number, "0", 1⟩, ⟨.operator, "-", 1⟩, ⟨.number, "1", 1⟩, ⟨.operator, "+", 1⟩,
        ⟨.number, "2", 1⟩] = .ok 1 := by
  have hsign : sumOperator? ⟨.operator, "-", 1⟩ = some .sub := rfl
  obtain ⟨hminus, -, hzero, -⟩ := evaluate_minus_sum hsign denotes_one plusTwo_isTerm
  refine ⟨hminus.trans rfl, (hzero ⟨.number, "0", 1⟩ ?_).trans rfl⟩
  exact .factor (.number rfl (by decide +kernel) (by decide +kernel))

/-- The sign is not that of the first term, not even where all results are in range: `-1+2` is not
one. -/
theorem not_evaluate_minus_first_term :
    ¬ ∀ (sign : Token) (first : List Token) (a : Value) (more : List Addend) (v : Value),
      sumOperator? sign = some .sub → Denotes .term first a.toInt → (∀ s ∈ more, s.IsTerm) →
        (opposite a).bind (addUp · more) = .ok v →
          evaluate (sign :: first ++ addendTokens more) = .ok v := by
  intro h
  have hclaimed := h ⟨.operator, "-", 1⟩ [⟨.number, "1", 1⟩] 1 [plusTwo] 1 rfl denotes_one
    plusTwo_isTerm rfl
  have hgiven : evaluate ([⟨.operator, "-", 1⟩, ⟨.number, "1", 1⟩] ++ addendTokens [plusTwo]) =
      .ok (-3) := by decide +kernel
  cases hclaimed.symm.trans hgiven

end ArithFrontEnd.Expression
