import ArithFrontEnd.Expression.Evaluation

/-!
# Values without bounds

The evaluation of a part of an expression carries a proof that the tokens after the part are fewer.
Without it, each part has an equation in terms of its own parts, and the bound is a theorem.  How
messages call a part only matters where the tokens cannot start one.

## Main definitions

* `Reading`, `forget` — a value with the tokens that follow, and an evaluation without its bound.
* `readSigned`, `readSum`, `readTerm`, `readFactor` — the parts of an expression.
* `StartsFactor` — the next token starts an expression without a sign.

## Main results

* `readSigned_cons`, `readSum_eq`, `readTerm_eq`, `readFactor_cons` — the equations.
* `readSum_of_startsFactor`, `readSum_of_not` — what the name of a part is needed for.
-/

namespace ArithFrontEnd.Expression

/-- A value with the tokens that follow, or why there is none. -/
abbrev Reading := Except ParseError (Value × List Token)

/-- An evaluation without its bound for the tokens that follow. -/
def forget {P : List Token → Prop}
    (e : Except ParseError (Value × { rest : List Token // P rest })) : Reading :=
  e.map fun (v, rest) => (v, rest.1)

/-- The value of a sum with an optional sign. -/
def readSigned (part : String) (tokens : List Token) : Reading := forget (valueOfSigned part tokens)

/-- The value of a sum. -/
def readSum (part : String) (tokens : List Token) : Reading := forget (valueOfSum part tokens)

/-- The value of a sum whose first terms have the value `left`. -/
def readSumRest (left : Value) (tokens : List Token) : Reading :=
  forget (valueOfSumRest left tokens)

/-- The value of a term. -/
def readTerm (part : String) (tokens : List Token) : Reading := forget (valueOfTerm part tokens)

/-- The value of a term whose first factors have the value `left`. -/
def readTermRest (left : Value) (tokens : List Token) : Reading :=
  forget (valueOfTermRest left tokens)

/-- The value of a factor. -/
def readFactor (part : String) (tokens : List Token) : Reading := forget (valueOfFactor part tokens)

/-- A value with the tokens after a closing parenthesis. -/
def readClosing (v : Value) (tokens : List Token) : Reading :=
  forget ((afterClosing tokens).map fun rest => (v, rest))

/-! ### Bounds -/

theorem exists_of_forget {P : List Token → Prop}
    {e : Except ParseError (Value × { rest : List Token // P rest })} {v : Value}
    {rest : List Token} (h : forget e = .ok (v, rest)) : P rest := by
  cases e with
  | error e => cases h
  | ok result =>
    obtain ⟨w, rest', hrest⟩ := result
    obtain ⟨-, rfl⟩ := Prod.mk.inj (Except.ok.inj h)
    exact hrest

/-- What is computed from a result has succeeded only if both have. -/
theorem exists_of_bind {α β : Type} {e : Except ParseError α} {f : α → Except ParseError β} {b : β}
    (h : e.bind f = .ok b) : ∃ a, e = .ok a ∧ f a = .ok b := by
  cases e with
  | error e => cases h
  | ok a => exact ⟨a, rfl, h⟩

theorem exists_of_map {α β : Type} {e : Except ParseError α} {f : α → β} {b : β}
    (h : e.map f = .ok b) : ∃ a, e = .ok a ∧ f a = b := by
  cases e with
  | error e => cases h
  | ok a => exact ⟨a, rfl, Except.ok.inj h⟩

/-- A computation fails with its first step or with what follows. -/
theorem error_of_bind {α β : Type} {x : Except ParseError α} {f : α → Except ParseError β}
    {e : ParseError} (h : x.bind f = .error e) :
    x = .error e ∨ ∃ a, x = .ok a ∧ f a = .error e := by
  cases x with
  | error e' => exact Or.inl (congrArg Except.error (Except.error.inj h))
  | ok a => exact Or.inr ⟨a, rfl, h⟩

theorem error_of_map {α β : Type} {x : Except ParseError α} {f : α → β} {e : ParseError}
    (h : x.map f = .error e) : x = .error e := by
  cases x with
  | error e' => exact congrArg Except.error (Except.error.inj h)
  | ok a => cases h

theorem bind_of_error {α β : Type} {x : Except ParseError α} {e : ParseError} (h : x = .error e)
    (f : α → Except ParseError β) : x.bind f = .error e := by
  rw [h]
  rfl

variable {part : String} {left v : Value} {tokens rest : List Token}

theorem length_of_readTerm (h : readTerm part tokens = .ok (v, rest)) :
    rest.length < tokens.length := exists_of_forget h

theorem length_of_readFactor (h : readFactor part tokens = .ok (v, rest)) :
    rest.length < tokens.length := exists_of_forget h

/-! ### Equations -/

theorem readClosing_nil (v : Value) :
    readClosing v [] = .error (.unexpectedToken ")" (shownHead [])) := rfl

theorem readClosing_cons (v : Value) (token : Token) (rest : List Token) :
    readClosing v (token :: rest) =
      if isClosing token then .ok (v, rest)
      else .error (.unexpectedToken ")" (shownHead (token :: rest))) := by
  rw [readClosing, afterClosing]
  split <;> rfl

theorem readSigned_nil (part : String) :
    readSigned part [] = .error (cannotStart part []) := by
  rw [readSigned, valueOfSigned]
  rfl

theorem readSigned_cons (part : String) (token : Token) (rest : List Token) :
    readSigned part (token :: rest) =
      match sumOperator? token with
      | none => readSum part (token :: rest)
      | some sign => (readSum "E'" rest).bind fun (v, after) =>
          (applySign sign v).map (·, after) := by
  rw [readSigned, valueOfSigned]
  cases sumOperator? token with
  | none => rfl
  | some sign =>
    simp only [readSum]
    rcases valueOfSum "E'" rest with e | ⟨v, after, h⟩
    · rfl
    · simp only [forget, Except.map, Except.bind]
      cases applySign sign v <;> rfl

theorem readSum_eq (part : String) (tokens : List Token) :
    readSum part tokens =
      (readTerm part tokens).bind fun (v, after) => readSumRest v after := by
  rw [readSum, valueOfSum, readTerm]
  rcases valueOfTerm part tokens with e | ⟨v, after, h⟩
  · rfl
  · simp only [forget, Except.map, Except.bind, readSumRest]
    cases valueOfSumRest v after <;> rfl

theorem readSumRest_nil (left : Value) : readSumRest left [] = .ok (left, []) := by
  rw [readSumRest, valueOfSumRest]
  rfl

theorem readSumRest_cons (left : Value) (token : Token) (rest : List Token) :
    readSumRest left (token :: rest) =
      match sumOperator? token with
      | none => .ok (left, token :: rest)
      | some op => (readTerm "T" rest).bind fun (right, after) =>
          (combine op left right).bind fun v => readSumRest v after := by
  rw [readSumRest, valueOfSumRest]
  cases sumOperator? token with
  | none => rfl
  | some op =>
    simp only [readTerm]
    rcases valueOfTerm "T" rest with e | ⟨right, after, h⟩
    · rfl
    · simp only [forget, Except.map, Except.bind]
      cases combine op left right with
      | error e => rfl
      | ok v =>
        simp only [readSumRest, forget, Except.map]
        cases valueOfSumRest v after <;> rfl

theorem readTerm_eq (part : String) (tokens : List Token) :
    readTerm part tokens =
      (readFactor part tokens).bind fun (v, after) => readTermRest v after := by
  rw [readTerm, valueOfTerm, readFactor]
  rcases valueOfFactor part tokens with e | ⟨v, after, h⟩
  · rfl
  · simp only [forget, Except.map, Except.bind, readTermRest]
    cases valueOfTermRest v after <;> rfl

theorem readTermRest_nil (left : Value) : readTermRest left [] = .ok (left, []) := by
  rw [readTermRest, valueOfTermRest]
  rfl

theorem readTermRest_cons (left : Value) (token : Token) (rest : List Token) :
    readTermRest left (token :: rest) =
      match termOperator? token with
      | none =>
        if completesTerm (token :: rest) then .ok (left, token :: rest)
        else .error (cannotStart "T'" (token :: rest))
      | some op => (readFactor "F" rest).bind fun (right, after) =>
          (combine op left right).bind fun v => readTermRest v after := by
  rw [readTermRest, valueOfTermRest]
  cases termOperator? token with
  | none => dsimp only; split <;> rfl
  | some op =>
    simp only [readFactor]
    rcases valueOfFactor "F" rest with e | ⟨right, after, h⟩
    · rfl
    · simp only [forget, Except.map, Except.bind]
      cases combine op left right with
      | error e => rfl
      | ok v =>
        simp only [readTermRest, forget, Except.map]
        cases valueOfTermRest v after <;> rfl

theorem readFactor_nil (part : String) :
    readFactor part [] = .error (cannotStart part []) := by
  rw [readFactor, valueOfFactor]
  rfl

theorem readFactor_cons (part : String) (token : Token) (rest : List Token) :
    readFactor part (token :: rest) =
      if isAtom token then (valueOfAtom token).map (·, rest)
      else if isOpening token then
        (readSigned "E" rest).bind fun (v, inner) => readClosing v inner
      else .error (cannotStart part (token :: rest)) := by
  rw [readFactor, valueOfFactor]
  split
  · cases valueOfAtom token <;> rfl
  · split
    · rw [readSigned]
      rcases valueOfSigned "E" rest with e | ⟨v, inner, h⟩
      · rfl
      · simp only [forget, Except.map, Except.bind, readClosing]
        cases afterClosing inner <;> rfl
    · rfl

/-- A term is read up to what completes it. -/
theorem completesTerm_of_readTermRest (h : readTermRest left tokens = .ok (v, rest)) :
    completesTerm rest = true := by
  induction hlength : tokens.length using Nat.strongRecOn generalizing tokens left with
  | ind length ih =>
    subst hlength
    cases tokens with
    | nil =>
      rw [readTermRest_nil] at h
      obtain ⟨-, rfl⟩ := Prod.mk.inj (Except.ok.inj h)
      rfl
    | cons token after =>
      rw [readTermRest_cons] at h
      cases hop : termOperator? token with
      | none =>
        rw [hop] at h
        dsimp only at h
        split at h
        · next hcompletes =>
          obtain ⟨-, rfl⟩ := Prod.mk.inj (Except.ok.inj h)
          exact hcompletes
        · cases h
      | some op =>
        rw [hop] at h
        obtain ⟨⟨right, last⟩, hfactor, hcombined⟩ := exists_of_bind h
        obtain ⟨w, -, hmore⟩ := exists_of_bind hcombined
        have hlast := length_of_readFactor hfactor
        exact ih last.length (Nat.lt_succ_of_lt hlast) hmore rfl

theorem completesTerm_of_readTerm (h : readTerm part tokens = .ok (v, rest)) :
    completesTerm rest = true := by
  rw [readTerm_eq] at h
  obtain ⟨⟨w, after⟩, -, hrest⟩ := exists_of_bind h
  exact completesTerm_of_readTermRest hrest

/-- A list of tokens has a value if nothing is left of it. -/
theorem value_eq (tokens : List Token) :
    value tokens = match readSigned "S" tokens with
      | .error e => .error e
      | .ok (v, []) => .ok v
      | .ok (_, token :: rest) => .error (.unexpectedToken "#" (shownHead (token :: rest))) := by
  rw [value, readSigned]
  rcases valueOfSigned "S" tokens with e | ⟨v, rest, hrest⟩
  · rfl
  · cases rest <;> rfl

/-! ### The name of a part -/

/-- The next token starts an expression without a sign. -/
def StartsFactor (tokens : List Token) : Prop :=
  ∃ token rest, tokens = token :: rest ∧ (isAtom token = true ∨ isOpening token = true)

theorem not_startsFactor_nil : ¬ StartsFactor [] := by
  rintro ⟨token, rest, h, -⟩
  cases h

theorem startsFactor_cons_iff {token : Token} :
    StartsFactor (token :: rest) ↔ isAtom token = true ∨ isOpening token = true := by
  refine ⟨?_, fun h => ⟨token, rest, rfl, h⟩⟩
  rintro ⟨token', rest', heq, h⟩
  obtain ⟨rfl, rfl⟩ := List.cons.inj heq
  exact h

theorem readFactor_of_startsFactor (h : StartsFactor tokens) (part other : String) :
    readFactor part tokens = readFactor other tokens := by
  obtain ⟨token, rest, rfl, hstarts⟩ := h
  rw [readFactor_cons, readFactor_cons]
  rcases hstarts with h | h <;> simp [h]

theorem readTerm_of_startsFactor (h : StartsFactor tokens) (part other : String) :
    readTerm part tokens = readTerm other tokens := by
  rw [readTerm_eq, readTerm_eq, readFactor_of_startsFactor h part other]

theorem readSum_of_startsFactor (h : StartsFactor tokens) (part other : String) :
    readSum part tokens = readSum other tokens := by
  rw [readSum_eq, readSum_eq, readTerm_of_startsFactor h part other]

theorem readFactor_of_not (h : ¬ StartsFactor tokens) (part : String) :
    readFactor part tokens = .error (cannotStart part tokens) := by
  cases tokens with
  | nil => exact readFactor_nil part
  | cons token rest =>
    rw [startsFactor_cons_iff, not_or] at h
    rw [readFactor_cons, if_neg h.1, if_neg h.2]

theorem readTerm_of_not (h : ¬ StartsFactor tokens) (part : String) :
    readTerm part tokens = .error (cannotStart part tokens) := by
  rw [readTerm_eq, readFactor_of_not h]
  rfl

theorem readSum_of_not (h : ¬ StartsFactor tokens) (part : String) :
    readSum part tokens = .error (cannotStart part tokens) := by
  rw [readSum_eq, readTerm_of_not h]
  rfl

end ArithFrontEnd.Expression
