import ArithFrontEnd.Expression.Calculator
import ArithFrontEnd.Expression.Evaluation
import ArithFrontEnd.Proofs.Arithmetic.NumeralText
import ArithFrontEnd.Source.Lexeme

/-!
# The tokens of an expression

The recursive evaluation asks for the kind and the text of a token, and the evaluator's table for
its terminal.  For a token from a source text this comes to the same: operators, parentheses,
identifiers and numbers have terminals of their own, and all other tokens have the unknown one.

## Main definitions

* `terminalOf` — the terminal that the evaluator knows a token by.
* `KnownBy` — what is asked of a token has the answers that a terminal tells.
* `magnitude` — the integer that the digits of a number stand for.

## Main results

* `knownBy_terminalOf` — **whatever is asked of a token, its terminal tells.**
* `value?_of_isNumber` — a number has the value of its digits, if it is in range.
-/

namespace ArithFrontEnd.Expression

/-! ### Tests -/

variable {token : Token} {op : BinaryOp}

theorem isOneOf_iff {kind : TokenKind} {texts : List String} :
    token.isOneOf kind texts = true ↔ token.kind = kind ∧ token.text ∈ texts := by
  rw [Token.isOneOf, Bool.and_eq_true, beq_iff_eq, List.contains_iff_mem]

/-- The operator that a token is, if its text is among these. -/
theorem operator?_eq_some_iff {symbols : List String} :
    (if token.isOneOf .operator symbols then BinaryOp.ofSymbol? token.text else none) = some op ↔
      token.kind = .operator ∧ token.text = op.symbol ∧ op.symbol ∈ symbols := by
  split
  · next h =>
    obtain ⟨hkind, htext⟩ := isOneOf_iff.1 h
    rw [BinaryOp.ofSymbol?_eq_some_iff]
    exact ⟨fun hop => ⟨hkind, hop, hop ▸ htext⟩, fun hop => hop.2.1⟩
  · next h =>
    refine ⟨(nomatch ·), fun ⟨hkind, htext, hop⟩ => absurd (isOneOf_iff.2 ⟨hkind, ?_⟩) h⟩
    rwa [htext]

theorem sumOperator?_eq_some_iff : sumOperator? token = some op ↔
    token.kind = .operator ∧ token.text = op.symbol ∧ (op = .add ∨ op = .sub) := by
  rw [sumOperator?, isAdditive, operator?_eq_some_iff]
  cases op <;> simp [BinaryOp.symbol]

theorem termOperator?_eq_some_iff : termOperator? token = some op ↔
    token.kind = .operator ∧ token.text = op.symbol ∧ (op = .mul ∨ op = .div) := by
  rw [termOperator?, isMultiplicative, operator?_eq_some_iff]
  cases op <;> simp [BinaryOp.symbol]

theorem isOpening_iff : isOpening token = true ↔ token.kind = .delimiter ∧ token.text = "(" := by
  rw [isOpening, isOneOf_iff, List.mem_singleton]

theorem isClosing_iff : isClosing token = true ↔ token.kind = .delimiter ∧ token.text = ")" := by
  rw [isClosing, isOneOf_iff, List.mem_singleton]

theorem isAtom_iff : isAtom token = true ↔ token.kind = .identifier ∨ token.kind = .number := by
  rw [isAtom, Bool.or_eq_true, beq_iff_eq, beq_iff_eq]

theorem not_isAtom_of_isOpening (h : isOpening token = true) : ¬ isAtom token = true := by
  rw [isAtom_iff, (isOpening_iff.1 h).1]
  decide

/-- A token with one of these texts is one from a source text, if its kind admits them. -/
theorem isLexical_of_isOneOf {kind : TokenKind} {texts : List String}
    (hall : ∀ text ∈ texts, kind.admits text = true) (h : token.isOneOf kind texts = true) :
    token.IsLexical := by
  obtain ⟨hkind, htext⟩ := isOneOf_iff.1 h
  rw [Token.IsLexical, hkind]
  exact hall _ htext

theorem isLexical_of_sumOperator? (h : sumOperator? token = some op) : token.IsLexical := by
  rw [sumOperator?] at h
  split at h
  · next hadditive => exact isLexical_of_isOneOf (by decide) hadditive
  · cases h

theorem isLexical_of_termOperator? (h : termOperator? token = some op) : token.IsLexical := by
  rw [termOperator?] at h
  split at h
  · next hmultiplicative => exact isLexical_of_isOneOf (by decide) hmultiplicative
  · cases h

theorem isLexical_parentheses {left right : Token} {tokens : List Token}
    (hleft : isOpening left = true) (hright : isClosing right = true)
    (h : ∀ token ∈ tokens, token.IsLexical) :
    ∀ token ∈ left :: tokens ++ [right], token.IsLexical := by
  have hopening := isLexical_of_isOneOf (by decide) hleft
  have hclosing := isLexical_of_isOneOf (by decide) hright
  exact List.forall_mem_append.2
    ⟨List.forall_mem_cons.2 ⟨hopening, h⟩, List.forall_mem_singleton.2 hclosing⟩

/-! ### Terminals -/

/-- The terminal that the evaluator knows a token by. -/
def terminalOf (token : Token) : TerminalId := token.terminal evaluator.toVocabulary

/-- The operator of a sum that has this terminal. -/
def sumOperatorAt (t : TerminalId) : Option BinaryOp :=
  if t = plus then some .add else if t = minus then some .sub else none

/-- The operator of a term that has this terminal. -/
def termOperatorAt (t : TerminalId) : Option BinaryOp :=
  if t = times then some .mul else if t = slash then some .div else none

/-- What the evaluation asks of a token has the answers that its terminal tells. -/
def KnownBy (token : Token) (t : TerminalId) : Prop :=
  (TerminalId.endOfInput < t ∧ t < 10) ∧ sumOperator? token = sumOperatorAt t ∧
    termOperator? token = termOperatorAt t ∧ isOpening token = decide (t = opening) ∧
    isClosing token = decide (t = closing) ∧ isAtom token = decide (t ∈ [identifier, number])

instance (token : Token) (t : TerminalId) : Decidable (KnownBy token t) :=
  inferInstanceAs (Decidable (_ ∧ _))

/-- Whatever is asked of a token from a source text, its terminal tells. -/
theorem knownBy_terminalOf (h : token.IsLexical) : KnownBy token (terminalOf token) := by
  obtain ⟨kind, text, line⟩ := token
  -- the number of the line is not asked for
  show KnownBy ⟨kind, text, 0⟩ (terminalOf ⟨kind, text, 0⟩)
  change kind.admits text = true at h
  cases kind with
  | keyword =>
    have hall : ∀ text ∈ Token.keywords,
        KnownBy ⟨.keyword, text, 0⟩ (terminalOf ⟨.keyword, text, 0⟩) := by decide
    exact hall text (List.contains_iff_mem.1 h)
  | operator =>
    have hall : ∀ text ∈ Source.operators,
        KnownBy ⟨.operator, text, 0⟩ (terminalOf ⟨.operator, text, 0⟩) := by decide
    exact hall text (List.contains_iff_mem.1 h)
  | delimiter =>
    have hall : ∀ text ∈ Source.delimiters,
        KnownBy ⟨.delimiter, text, 0⟩ (terminalOf ⟨.delimiter, text, 0⟩) := by decide
    exact hall text (List.contains_iff_mem.1 h)
  | identifier =>
    show KnownBy ⟨.identifier, text, 0⟩ identifier
    exact ⟨by decide, rfl, rfl, rfl, rfl, rfl⟩
  | number =>
    show KnownBy ⟨.number, text, 0⟩ number
    exact ⟨by decide, rfl, rfl, rfl, rfl, rfl⟩
  | invalid =>
    show KnownBy ⟨.invalid, text, 0⟩ .unknown
    exact ⟨by decide, rfl, rfl, rfl, rfl, rfl⟩

/-! ### Numbers -/

/-- The integer that the digits of a number stand for. -/
def magnitude (token : Token) : Int := (Nat.ofDigitChars 10 token.text.toList 0 : Nat)

theorem value?_of_isNumber (h : Source.isNumber token.text.toList = true) :
    Numeral.value? token.text = Value.ofInt? (magnitude token) := by
  simp only [Source.isNumber, Bool.and_eq_true, Bool.not_eq_true', List.isEmpty_eq_false_iff,
    List.all_eq_true] at h
  exact Numeral.value?_of_digits h.1 h.2

/-- A number from a source text is written in digits. -/
theorem isNumber_of_isLexical (h : token.IsLexical) (hkind : token.kind = .number) :
    Source.isNumber token.text.toList = true := by
  unfold Token.IsLexical TokenKind.admits at h
  rwa [hkind] at h

end ArithFrontEnd.Expression
