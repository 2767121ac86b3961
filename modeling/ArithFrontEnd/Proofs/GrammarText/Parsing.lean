import ArithFrontEnd.Proofs.GrammarText.Flattening

/-!
# Parsing the tokens of statements

A statement tells from its first token what it is, and ends with its semicolon.  So whatever follows
the tokens of a statement, the parser reads the statement from them and arrives behind them, and
statements are read from a list of tokens exactly if these are their tokens.

## Main definitions

* `Takes` — a parser reads something and arrives at these tokens.

## Main results

* `parseStatement_takes` — a statement is read from its tokens.
* `parse_eq_ok_iff` — **statements are read from their tokens, and from no others.**
-/

namespace ArithFrontEnd.GrammarText

/-- A parser has read something and arrived at these tokens. -/
def Takes {α : Type} (parsed : Parsed α) (a : α) (rest : List Token) : Prop :=
  ∃ c, parsed = .ok (a, c) ∧ bare c.rest = rest

variable {c : Cursor} {ts : List Located} {rest : List Token}

theorem exists_cons_of_bare {t : Token} (h : bare ts = t :: rest) :
    ∃ line others, ts = ⟨line, t⟩ :: others ∧ bare others = rest := by
  obtain ⟨⟨line, t'⟩, others, rfl, rfl, hothers⟩ := List.map_eq_cons_iff.1 h
  exact ⟨line, others, rfl, hothers⟩

/-! ### The parts of a statement -/

theorem parseSymbol_takes {name : String} (h : bare c.rest = .symbol name :: rest) :
    Takes (parseSymbol c) name rest := by
  obtain ⟨line, ts⟩ := c
  obtain ⟨line', others, rfl, hothers⟩ := exists_cons_of_bare h
  exact ⟨_, rfl, hothers⟩

theorem parseToken_takes {t : Token} (h : bare c.rest = t :: rest) :
    Takes (parseToken t c) () rest := by
  obtain ⟨line, ts⟩ := c
  obtain ⟨line', others, rfl, hothers⟩ := exists_cons_of_bare h
  exact ⟨⟨line', others⟩, if_pos rfl, hothers⟩

/-- All symbols are taken up to the semicolon. -/
theorem takeSymbols_takes {names : List String} (line : Nat)
    (h : bare ts = names.map Token.symbol ++ .semicolon :: rest) :
    (takeSymbols line ts).1 = names ∧ bare (takeSymbols line ts).2.rest = .semicolon :: rest := by
  induction names generalizing line ts with
  | nil =>
    obtain ⟨line', others, rfl, rfl⟩ := exists_cons_of_bare h
    exact ⟨rfl, rfl⟩
  | cons name names ih =>
    obtain ⟨line', others, rfl, hothers⟩ := exists_cons_of_bare h
    obtain ⟨hnames, hrest⟩ := ih line' hothers
    exact ⟨congrArg (name :: ·) hnames, hrest⟩

/-- An element goes to the first of the alternatives that are read behind it. -/
theorem parseAlternatives_element (line line' : Nat) (e : Element) :
    parseAlternatives line (⟨line', e.token⟩ :: ts) =
      (parseAlternatives line' ts).map fun ((alternative, others), c) =>
        ((e :: alternative, others), c) := by
  have hread : Element.ofToken? e.token = some e := Element.ofToken?_eq_some_iff.2 rfl
  rw [parseAlternatives]
  · rw [hread]
  · cases e <;> simp [Element.token]
  · cases e <;> simp [Element.token]

/-- The alternatives of a rule are read up to the semicolon. -/
theorem parseAlternatives_takes {alternative : Alternative} {others : List Alternative}
    (line : Nat) (h : bare ts = alternativeTokens alternative others ++ rest) :
    Takes (parseAlternatives line ts) (alternative, others) rest := by
  -- over the alternatives, and in each over its elements
  induction others generalizing line ts alternative with
  | nil =>
    induction alternative generalizing line ts with
    | nil =>
      obtain ⟨line', others, rfl, hothers⟩ := exists_cons_of_bare h
      exact ⟨_, rfl, hothers⟩
    | cons e alternative ih =>
      obtain ⟨line', others, rfl, hothers⟩ := exists_cons_of_bare h
      obtain ⟨c, hc, hrest⟩ := ih line' hothers
      exact ⟨c, by rw [parseAlternatives_element, hc]; rfl, hrest⟩
  | cons next others ih =>
    induction alternative generalizing line ts with
    | nil =>
      obtain ⟨line', more, rfl, hmore⟩ := exists_cons_of_bare h
      obtain ⟨c, hc, hrest⟩ := ih line' hmore
      exact ⟨c, by rw [parseAlternatives, hc]; rfl, hrest⟩
    | cons e alternative ihelements =>
      obtain ⟨line', more, rfl, hmore⟩ := exists_cons_of_bare h
      obtain ⟨c, hc, hrest⟩ := ihelements line' hmore
      exact ⟨c, by rw [parseAlternatives_element, hc]; rfl, hrest⟩

/-! ### Statements -/

theorem parseStart_takes {name : String} (h : bare c.rest = .symbol name :: .semicolon :: rest) :
    Takes (parseStart c) (.start name) rest := by
  obtain ⟨c₁, hname, hc₁⟩ := parseSymbol_takes h
  obtain ⟨c₂, hend, hc₂⟩ := parseToken_takes hc₁
  exact ⟨c₂, by simp only [parseStart, hname, hend], hc₂⟩

theorem parseInherit_takes {name : String} {others : List String}
    (h : bare c.rest = .symbol name :: (others.map Token.symbol ++ .semicolon :: rest)) :
    Takes (parseInherit c) (.inherit name others) rest := by
  obtain ⟨c₁, hname, hc₁⟩ := parseSymbol_takes h
  obtain ⟨hothers, hsymbols⟩ := takeSymbols_takes c₁.line hc₁
  obtain ⟨c₂, hend, hc₂⟩ := parseToken_takes hsymbols
  exact ⟨c₂, by simp only [parseInherit, hname, hend, hothers], hc₂⟩

theorem parseRule_takes {left : String} {alternative : Alternative} {others : List Alternative}
    (h : bare c.rest = .arrow :: (alternativeTokens alternative others ++ rest)) :
    Takes (parseRule left c) (.rule left alternative others) rest := by
  obtain ⟨c₁, harrow, hc₁⟩ := parseToken_takes h
  obtain ⟨c₂, halternatives, hc₂⟩ := parseAlternatives_takes c₁.line hc₁
  exact ⟨c₂, by simp only [parseRule, harrow, halternatives], hc₂⟩

/-- A statement is read from its tokens, whatever follows. -/
theorem parseStatement_takes {s : Statement} {head : Located} (line : Nat)
    (h : bare (head :: ts) = s.tokens ++ rest) : Takes (parseStatement line head ts) s rest := by
  obtain ⟨line', t⟩ := head
  cases s with
  | start name =>
    obtain ⟨rfl, hrest⟩ := List.cons.inj h
    exact parseStart_takes hrest
  | inherit name others =>
    obtain ⟨rfl, hrest⟩ := List.cons.inj h
    exact parseInherit_takes (hrest.trans (by simp))
  | rule left alternative others =>
    obtain ⟨rfl, hrest⟩ := List.cons.inj h
    exact parseRule_takes hrest

theorem Statement.tokens_ne_nil (s : Statement) : s.tokens ≠ [] := by
  cases s <;> exact List.cons_ne_nil _ _

theorem parsePrefix_of_tokens {ss : List Statement} (line : Nat)
    (h : bare ts = ss.flatMap Statement.tokens) : parsePrefix line ts = (ss, none) := by
  induction ss generalizing line ts with
  | nil =>
    obtain rfl : ts = [] := List.map_eq_nil_iff.1 h
    rw [parsePrefix]
  | cons s ss ih =>
    rw [List.flatMap_cons] at h
    cases ts with
    | nil => exact absurd (List.append_eq_nil_iff.1 h.symm).1 s.tokens_ne_nil
    | cons head ts =>
      obtain ⟨c, hs, hc⟩ := parseStatement_takes line h
      rw [parsePrefix]
      split
      · next e he => rw [hs] at he; cases he
      · next s' c' hs' =>
        obtain ⟨rfl, rfl⟩ := Prod.mk.inj (Except.ok.inj (hs.symm.trans hs'))
        rw [ih c.line hc]

/-- Statements are read from a list of tokens exactly if these are their tokens. -/
theorem parse_eq_ok_iff {ss : List Statement} :
    parse ts = .ok ss ↔ bare ts = ss.flatMap Statement.tokens := by
  refine ⟨parse_tokens, fun h => ?_⟩
  rw [parse, parsePrefix_of_tokens 1 h]

end ArithFrontEnd.GrammarText
