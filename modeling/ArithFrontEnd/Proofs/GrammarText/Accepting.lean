import ArithFrontEnd.Proofs.GrammarText.Parsing
import Mathlib.Data.Set.List

/-!
# The token lists that can be parsed

A grammar text is a sequence of statements, and each of them has a form that can be said of its
tokens alone: a name between the word for the start symbol and a semicolon, names between the word
for inherited attributes and a semicolon, or a left-hand side with an arrow and the alternatives,
which bars separate.  The parser reads the token lists of this form and no others.  It loses nothing
but the lines: what it has read tells the tokens.

## Main definitions

* `Token.IsElement`, `IsStatement`, `IsText` — the form of the tokens of an alternative, of a
  statement and of a text.

## Main results

* `isStatement_iff` — the tokens of statements are those of this form.
* `exists_parse_iff` — **tokens can be parsed exactly if they are a sequence of such lists.**
* `read_exact` — the same of texts, and what has been read tells the tokens.
-/

namespace ArithFrontEnd.GrammarText

/-- A token may stand in an alternative: it is a symbol, an action or the empty string. -/
def Token.IsElement (t : Token) : Prop :=
  (∃ name, t = .symbol name) ∨ (∃ number, t = .action number) ∨ t = .empty

/-- Tokens have the form of a statement. -/
inductive IsStatement : List Token → Prop
  /-- The start symbol is named. -/
  | start (name : String) : IsStatement [.start, .symbol name, .semicolon]
  /-- Symbols with an inherited attribute are named, at least one. -/
  | inherit {names : List String} (hnames : names ≠ []) :
      IsStatement (.inherit :: names.map .symbol ++ [.semicolon])
  /-- A left-hand side has alternatives, at least one, and each of them may be empty. -/
  | rule (left : String) {alternatives : List (List Token)} (halternatives : alternatives ≠ [])
      (helements : ∀ alternative ∈ alternatives, ∀ t ∈ alternative, t.IsElement) :
      IsStatement (.symbol left :: .arrow :: [.bar].intercalate alternatives ++ [.semicolon])

/-- Tokens have the form of a grammar text: they are those of statements, one after the other. -/
def IsText (ts : List Token) : Prop :=
  ∃ statements : List (List Token), (∀ s ∈ statements, IsStatement s) ∧ ts = statements.flatten

variable {ts : List Token}

/-- A list is what a function makes of another one if each of its items is. -/
theorem exists_map_eq_iff {α β : Type} {f : α → β} {ys : List β} :
    (∃ xs : List α, xs.map f = ys) ↔ ∀ y ∈ ys, ∃ x, f x = y :=
  Set.ext_iff.1 (Set.range_list_map f) ys

/-! ### Alternatives -/

theorem isElement_iff {t : Token} : t.IsElement ↔ ∃ e : Element, e.token = t := by
  constructor
  · rintro (⟨name, rfl⟩ | ⟨number, rfl⟩ | rfl)
    · exact ⟨.symbol name, rfl⟩
    · exact ⟨.action number, rfl⟩
    · exact ⟨.empty, rfl⟩
  · rintro ⟨e, rfl⟩
    cases e with
    | symbol name => exact .inl ⟨name, rfl⟩
    | action number => exact .inr (.inl ⟨number, rfl⟩)
    | empty => exact .inr (.inr rfl)

/-- Tokens that may stand in an alternative are those of elements. -/
theorem forall_isElement_iff :
    (∀ t ∈ ts, t.IsElement) ↔ ∃ alternative : Alternative, alternative.map Element.token = ts := by
  simp only [isElement_iff, exists_map_eq_iff]

/-- The tokens of alternatives have bars between them and a semicolon behind. -/
theorem alternativeTokens_eq (alternative : Alternative) (others : List Alternative) :
    alternativeTokens alternative others =
      [.bar].intercalate ((alternative :: others).map (·.map Element.token)) ++ [.semicolon] := by
  induction others generalizing alternative with
  | nil => simp [alternativeTokens]
  | cons next others ih =>
    rw [alternativeTokens, ih]
    simp only [List.map_cons, List.intercalate_cons_cons, List.append_assoc, List.cons_append,
      List.nil_append]

/-! ### Statements -/

theorem isStatement_tokens (s : Statement) : IsStatement s.tokens := by
  cases s with
  | start name => exact .start name
  | inherit name others => exact .inherit (List.cons_ne_nil name others)
  | rule left alternative others =>
    rw [Statement.tokens, alternativeTokens_eq]
    refine .rule left (by simp) fun tokens htokens => ?_
    obtain ⟨alternative', -, rfl⟩ := List.mem_map.1 htokens
    exact forall_isElement_iff.2 ⟨alternative', rfl⟩

/-- The tokens of statements are those that have the form of a statement. -/
theorem isStatement_iff : IsStatement ts ↔ ∃ s : Statement, s.tokens = ts := by
  constructor
  · intro h
    cases h with
    | start name => exact ⟨.start name, rfl⟩
    | @inherit names hnames =>
      cases names with
      | nil => exact absurd rfl hnames
      | cons name others => exact ⟨.inherit name others, rfl⟩
    | @rule left alternatives halternatives helements =>
      obtain ⟨parsed, rfl⟩ := exists_map_eq_iff.2 fun tokens htokens =>
        forall_isElement_iff.1 (helements tokens htokens)
      cases parsed with
      | nil => exact absurd rfl halternatives
      | cons alternative others =>
        refine ⟨.rule left alternative others, ?_⟩
        rw [Statement.tokens, alternativeTokens_eq]
        rfl
  · rintro ⟨s, rfl⟩
    exact isStatement_tokens s

theorem isText_iff : IsText ts ↔ ∃ ss : List Statement, ts = ss.flatMap Statement.tokens := by
  constructor
  · rintro ⟨statements, hstatements, rfl⟩
    obtain ⟨ss, rfl⟩ := exists_map_eq_iff.2 fun tokens htokens =>
      isStatement_iff.1 (hstatements tokens htokens)
    exact ⟨ss, (List.flatMap_def ..).symm⟩
  · rintro ⟨ss, rfl⟩
    refine ⟨ss.map Statement.tokens, fun tokens htokens => ?_, List.flatMap_def ..⟩
    obtain ⟨s, -, rfl⟩ := List.mem_map.1 htokens
    exact isStatement_tokens s

/-! ### Texts -/

/-- Tokens can be parsed exactly if they have the form of a grammar text. -/
theorem exists_parse_iff {located : List Located} :
    (∃ ss, parse located = .ok ss) ↔ IsText (bare located) := by
  simp only [isText_iff, parse_eq_ok_iff]

/-- A text is read through its tokens. -/
theorem read_eq_ok_iff {source : String} {located : List Located} {ss : List Statement}
    (h : scan source = .ok located) : read source = .ok ss ↔ parse located = .ok ss := by
  rw [read, h]
  dsimp only
  cases parse located <;> simp

/-- A text that has tokens can be read exactly if these have the form of a grammar text.  What has
been read tells the tokens, so that it is different for texts with different tokens. -/
theorem read_exact {source : String} {located : List Located}
    (h : scan source = .ok located) :
    ((∃ ss, read source = .ok ss) ↔ IsText (bare located)) ∧
      (∀ ss, read source = .ok ss → ss.flatMap Statement.tokens = bare located) ∧
      ∀ other located' ss ss', scan other = .ok located' → bare located ≠ bare located' →
        read source = .ok ss → read other = .ok ss' → ss ≠ ss' := by
  have htokens : ∀ {source located ss}, scan source = .ok located → read source = .ok ss →
      ss.flatMap Statement.tokens = bare located := fun hscan hread =>
    (parse_eq_ok_iff.1 ((read_eq_ok_iff hscan).1 hread)).symm
  refine ⟨?_, fun ss => htokens h, ?_⟩
  · simp only [read_eq_ok_iff h]
    exact exists_parse_iff
  · rintro other located' ss _ hscan hne hread hread' rfl
    exact hne ((htokens h hread).symm.trans (htokens hscan hread'))

/-- Alternatives may be empty, written out or not, and a symbol may be named twice. -/
theorem read_exact_empty_alternatives : ∃ located,
    scan "@start S;\n@inherit S T S; // twice\nS -> | ε {1} T |;" = .ok located ∧
      IsText (bare located) ∧
      read "@start S;\n@inherit S T S; // twice\nS -> | ε {1} T |;" = .ok
        [.start "S", .inherit "S" ["T", "S"],
          .rule "S" [] [[.empty, .action 1, .symbol "T"], []]] := by
  have hscan : scan "@start S;\n@inherit S T S; // twice\nS -> | ε {1} T |;" = .ok
      [⟨1, .start⟩, ⟨1, .symbol "S"⟩, ⟨1, .semicolon⟩, ⟨2, .inherit⟩, ⟨2, .symbol "S"⟩,
        ⟨2, .symbol "T"⟩, ⟨2, .symbol "S"⟩, ⟨2, .semicolon⟩, ⟨3, .symbol "S"⟩, ⟨3, .arrow⟩,
        ⟨3, .bar⟩, ⟨3, .empty⟩, ⟨3, .action 1⟩, ⟨3, .symbol "T"⟩, ⟨3, .bar⟩,
        ⟨3, .semicolon⟩] := by decide +kernel
  have hread : read "@start S;\n@inherit S T S; // twice\nS -> | ε {1} T |;" = .ok
      [.start "S", .inherit "S" ["T", "S"],
        .rule "S" [] [[.empty, .action 1, .symbol "T"], []]] := by decide +kernel
  exact ⟨_, hscan, (read_exact hscan).1.1 ⟨_, hread⟩, hread⟩

end ArithFrontEnd.GrammarText
