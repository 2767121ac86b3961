import ArithFrontEnd.Proofs.GrammarText.Accepting

/-!
# Mistakes in grammar texts

The parser takes one token after the other, and what it may take next depends only on its place in a
statement: there are seven of these, and each token leads from one to another or is a mistake.  So
the parser stops at the first token with which no grammar text can go on.  Its message names the
line of this token, but for one place: a token that cannot begin a statement is looked at and not
taken, and the message names the line of the token before it.

## Main definitions

* `Place`, `Place.next?` — the places in a statement, and where a token leads.
* `Place.reach?`, `Place.mistake?` — where tokens lead, or the first mistake among them.
* `IsBeginning` — a grammar text can begin with these tokens.
* `ParseError.Reports` — what an error tells of the tokens.

## Main results

* `parsePrefix_mistake` — the error of the parser is the first mistake.
* `isText_iff_reach`, `isBeginning_iff_reach` — the places tell texts and their beginnings.
* `read_error_reports` — **which token an error reports, and in which line.**
* `read_error_line_differs` — a message that names another line than that of the token.
-/

namespace ArithFrontEnd.GrammarText

/-! ### Places -/

/-- A place in the statements of a grammar text. -/
inductive Place
  /-- Before a statement. -/
  | statement
  /-- After the word that names the start symbol. -/
  | startName
  /-- After the name of the start symbol. -/
  | startEnd
  /-- After the word that names symbols with an inherited attribute. -/
  | inheritName
  /-- After a symbol with an inherited attribute. -/
  | inheritNames
  /-- After a left-hand side. -/
  | arrow
  /-- Within or after an alternative. -/
  | alternatives
  deriving DecidableEq, Repr

namespace Place

/-- The place to which a token leads. -/
def next? : Place → Token → Option Place
  | .statement, .start => some .startName
  | .statement, .inherit => some .inheritName
  | .statement, .symbol _ => some .arrow
  | .startName, .symbol _ => some .startEnd
  | .startEnd, .semicolon => some .statement
  | .inheritName, .symbol _ => some .inheritNames
  | .inheritNames, .symbol _ => some .inheritNames
  | .inheritNames, .semicolon => some .statement
  | .arrow, .arrow => some .alternatives
  | .alternatives, .symbol _ => some .alternatives
  | .alternatives, .action _ => some .alternatives
  | .alternatives, .empty => some .alternatives
  | .alternatives, .bar => some .alternatives
  | .alternatives, .semicolon => some .statement
  | _, _ => none

/-- What is expected at a place. -/
def expected : Place → Expected
  | .statement => .statement
  | .startName => .symbol
  | .startEnd => .token .semicolon
  | .inheritName => .symbol
  | .inheritNames => .token .semicolon
  | .arrow => .token .arrow
  | .alternatives => .barOrSemicolon

/-- The place to which tokens lead, if none of them is a mistake. -/
def reach? (p : Place) : List Token → Option Place
  | [] => some p
  | t :: ts => (p.next? t).bind fun q => q.reach? ts

/-- Tokens that lead to the end of a statement. -/
def completion : Place → List Token
  | .statement => []
  | .startName => [.symbol "", .semicolon]
  | .startEnd => [.semicolon]
  | .inheritName => [.symbol "", .semicolon]
  | .inheritNames => [.semicolon]
  | .arrow => [.arrow, .semicolon]
  | .alternatives => [.semicolon]

/-- The first mistake in tokens at a place, where the token before them is in this line. -/
def mistake? (p : Place) (line : Nat) : List Located → Option ParseError
  | [] => if p = .statement then none else some ⟨line, p.expected, none⟩
  | ⟨line', t⟩ :: ts =>
    match p.next? t with
    | some q => q.mistake? line' ts
    | none => some ⟨if p = .statement then line else line', p.expected, some t⟩

variable {p q : Place} {line line' : Nat} {t : Token} {ts us : List Token} {located : List Located}

theorem reach?_append : p.reach? (ts ++ us) = (p.reach? ts).bind fun q => q.reach? us := by
  induction ts generalizing p with
  | nil => rfl
  | cons t ts ih =>
    rw [List.cons_append, reach?, reach?, Option.bind_assoc]
    exact congrArg _ (funext fun q => ih)

theorem reach?_completion (p : Place) : p.reach? p.completion = some .statement := by
  cases p <;> rfl

theorem mistake?_of_next (h : p.next? t = some q) (line line' : Nat) (located : List Located) :
    p.mistake? line (⟨line', t⟩ :: located) = q.mistake? line' located := by
  rw [mistake?, h]

theorem mistake?_of_next_eq_none (h : p.next? t = none) (hp : p ≠ .statement) (line line' : Nat)
    (located : List Located) :
    p.mistake? line (⟨line', t⟩ :: located) = some ⟨line', p.expected, some t⟩ := by
  rw [mistake?, h, if_neg hp]

theorem mistake?_nil (hp : p ≠ .statement) (line : Nat) :
    p.mistake? line [] = some ⟨line, p.expected, none⟩ := if_neg hp

/-- Where only a symbol can stand, every other token is a mistake. -/
theorem next?_eq_none_of_ne_symbol (hp : p.expected = .symbol) (ht : ∀ name, t ≠ .symbol name) :
    p.next? t = none := by
  cases p with
  | startName | inheritName => cases t <;> first | rfl | exact absurd rfl (ht _)
  | _ => cases hp

/-- Where a token is expected, every other one is a mistake, but for a symbol after symbols. -/
theorem next?_eq_none_of_ne {u : Token} (hp : p.expected = .token u) (ht : t ≠ u)
    (hnames : p = .inheritNames → ∀ name, t ≠ .symbol name) : p.next? t = none := by
  cases p with
  | inheritNames =>
    cases hp
    cases t <;> first | rfl | exact absurd rfl ht | exact absurd rfl (hnames rfl _)
  | _ => cases hp <;> cases t <;> first | rfl | exact absurd rfl ht

/-- There is no mistake if the tokens lead to the end of a statement. -/
theorem mistake?_eq_none_iff :
    p.mistake? line located = none ↔ p.reach? (bare located) = some .statement := by
  induction located generalizing p line with
  | nil =>
    rw [mistake?, bare_nil, reach?]
    split <;> simp [*]
  | cons t located ih =>
    rw [mistake?, bare_cons, reach?]
    cases p.next? t.token with
    | none => simp
    | some q => exact ih

end Place

/-! ### The parser -/

/-- What may be the first mistake is the error of a parser, or it is still the first one at the
place where the parser arrives. -/
def Leads {α : Type} (parsed : Parsed α) (mistake : Option ParseError) (q : Place) : Prop :=
  match parsed with
  | .error e => mistake = some e
  | .ok x => mistake = q.mistake? x.2.line x.2.rest

open Place

variable {α β : Type} {parsed : Parsed α} {mistake : Option ParseError} {p q : Place}
  {c c' : Cursor}

theorem Leads.of_error {e : ParseError} (h : Leads parsed mistake q) (hparsed : parsed = .error e) :
    mistake = some e := by
  subst hparsed
  exact h

theorem Leads.of_ok {a : α} (h : Leads parsed mistake q) (hparsed : parsed = .ok (a, c)) :
    mistake = q.mistake? c.line c.rest := by
  subst hparsed
  exact h

/-- What is made of the things that are read does not matter. -/
theorem Leads.map (h : Leads parsed mistake q) {f : α × Cursor → β × Cursor}
    (hf : ∀ x, (f x).2 = x.2) : Leads (parsed.map f) mistake q := by
  cases parsed with
  | error e => exact h
  | ok x =>
    show mistake = q.mistake? (f x).2.line (f x).2.rest
    rw [hf]
    exact h

/-- At a place where only a symbol can stand, a symbol is taken. -/
theorem parseSymbol_leads (hexpected : p.expected = .symbol)
    (hsymbol : ∀ name, p.next? (.symbol name) = some q) (c : Cursor) :
    Leads (parseSymbol c) (p.mistake? c.line c.rest) q := by
  have hp : p ≠ .statement := by
    rintro rfl
    cases hexpected
  unfold parseSymbol
  split
  · exact mistake?_of_next (hsymbol _) ..
  · next hne =>
    have hnone := next?_eq_none_of_ne_symbol hexpected hne
    exact (mistake?_of_next_eq_none hnone hp ..).trans (by rw [hexpected])
  · exact (mistake?_nil hp _).trans (by rw [hexpected])

/-- At a place where this token is expected, it is taken, if no symbol is left after symbols. -/
theorem parseToken_leads {t : Token} (hexpected : p.expected = .token t)
    (htoken : p.next? t = some q)
    (hnames : p = .inheritNames → ∀ name, (bare c.rest).head? ≠ some (.symbol name)) :
    Leads (parseToken t c) (p.mistake? c.line c.rest) q := by
  have hp : p ≠ .statement := by
    rintro rfl
    cases hexpected
  unfold parseToken
  split
  · next line' t' rest =>
    by_cases ht : t' = t
    · rw [if_pos ht, ht]
      exact mistake?_of_next htoken ..
    · have hnone := next?_eq_none_of_ne hexpected ht fun hp name hname =>
        hnames hp name (congrArg some hname)
      rw [if_neg ht]
      exact (mistake?_of_next_eq_none hnone hp ..).trans (by rw [hexpected])
  · exact (mistake?_nil hp _).trans (by rw [hexpected])

/-- All symbols with an inherited attribute are taken, and none is left. -/
theorem takeSymbols_leads (line : Nat) (ts : List Located) :
    inheritNames.mistake? line ts =
        inheritNames.mistake? (takeSymbols line ts).2.line (takeSymbols line ts).2.rest ∧
      ∀ name, (bare (takeSymbols line ts).2.rest).head? ≠ some (.symbol name) := by
  fun_induction takeSymbols line ts with
  | case1 line line' name rest ih => exact ih
  | case2 line rest hne =>
    refine ⟨rfl, fun name hname => ?_⟩
    cases rest with
    | nil => cases hname
    | cons t rest =>
      obtain ⟨line', t⟩ := t
      obtain rfl := Option.some.inj hname
      exact hne line' name rest rfl

theorem parseAlternatives_leads (line : Nat) (ts : List Located) :
    Leads (parseAlternatives line ts) (alternatives.mistake? line ts) .statement := by
  fun_induction parseAlternatives line ts with
  | case1 => rfl
  | case2 => rfl
  | case3 line line' rest ih => exact ih.map fun _ => rfl
  | case4 line line' t rest hsemicolon hbar helement =>
    have hnone : alternatives.next? t = none := by
      cases t with
      | semicolon => exact absurd rfl hsemicolon
      | bar => exact absurd rfl hbar
      | symbol name => cases helement
      | action number => cases helement
      | empty => cases helement
      | _ => rfl
    exact mistake?_of_next_eq_none hnone (by decide) ..
  | case5 line line' t rest _ _ e helement ih =>
    have hnext : alternatives.next? t = some .alternatives := by
      rw [Element.ofToken?_eq_some_iff.1 helement]
      cases e <;> rfl
    rw [mistake?_of_next hnext]
    exact ih.map fun _ => rfl

theorem parseStart_leads (c : Cursor) :
    Leads (parseStart c) (startName.mistake? c.line c.rest) .statement := by
  have hname := parseSymbol_leads (p := startName) (q := .startEnd) rfl (fun _ => rfl) c
  unfold parseStart
  split
  · next hsymbol => exact hname.of_error hsymbol
  · next c' hsymbol =>
    rw [hname.of_ok hsymbol]
    have hend := parseToken_leads (p := startEnd) (c := c') (t := .semicolon) rfl rfl
      fun hp => by cases hp
    split
    · next hsemicolon => exact hend.of_error hsemicolon
    · next hsemicolon => exact hend.of_ok hsemicolon

theorem parseInherit_leads (c : Cursor) :
    Leads (parseInherit c) (inheritName.mistake? c.line c.rest) .statement := by
  have hname := parseSymbol_leads (p := inheritName) (q := .inheritNames) rfl (fun _ => rfl) c
  unfold parseInherit
  split
  · next hsymbol => exact hname.of_error hsymbol
  · next c' hsymbol =>
    obtain ⟨hnames, hlast⟩ := takeSymbols_leads c'.line c'.rest
    rw [hname.of_ok hsymbol, hnames]
    have hend := parseToken_leads (p := inheritNames) (c := (takeSymbols c'.line c'.rest).2)
      (t := .semicolon) rfl rfl fun _ => hlast
    split
    · next hsemicolon => exact hend.of_error hsemicolon
    · next hsemicolon => exact hend.of_ok hsemicolon

theorem parseRule_leads (left : String) (c : Cursor) :
    Leads (parseRule left c) (arrow.mistake? c.line c.rest) .statement := by
  have harrow := parseToken_leads (p := arrow) (c := c) (t := .arrow) rfl rfl fun hp => by cases hp
  unfold parseRule
  split
  · next htoken => exact harrow.of_error htoken
  · next c' htoken =>
    rw [harrow.of_ok htoken]
    have halternatives := parseAlternatives_leads c'.line c'.rest
    split
    · next hparsed => exact halternatives.of_error hparsed
    · next hparsed => exact halternatives.of_ok hparsed

/-- The parser reads a statement up to the first mistake, or up to the next statement. -/
theorem parseStatement_leads (line : Nat) (head : Located) (ts : List Located) :
    Leads (parseStatement line head ts) (statement.mistake? line (head :: ts)) .statement := by
  obtain ⟨line', t⟩ := head
  cases t with
  | start => exact parseStart_leads ⟨line', ts⟩
  | inherit => exact parseInherit_leads ⟨line', ts⟩
  | symbol left => exact parseRule_leads left ⟨line', ts⟩
  | _ => rfl

/-- The error of the parser is the first mistake. -/
theorem parsePrefix_mistake (line : Nat) (ts : List Located) :
    (parsePrefix line ts).2 = statement.mistake? line ts := by
  fun_induction parsePrefix line ts with
  | case1 => rfl
  | case2 line head rest e h => exact ((parseStatement_leads line head rest).of_error h).symm
  | case3 line head rest s c h ih =>
    rw [(parseStatement_leads line head rest).of_ok h]
    exact ih

theorem exists_parse_iff_mistake :
    (∃ ss, parse ts = .ok ss) ↔ statement.mistake? 1 ts = none := by
  rw [← parsePrefix_mistake, parse]
  rcases parsePrefix 1 ts with ⟨ss, _ | e⟩ <;> simp

theorem parse_eq_error_iff {e : ParseError} :
    parse ts = .error e ↔ statement.mistake? 1 ts = some e := by
  rw [← parsePrefix_mistake, parse]
  rcases parsePrefix 1 ts with ⟨ss, _ | e'⟩ <;> simp

/-! ### Texts and their beginnings -/

/-- A grammar text can begin with these tokens. -/
def IsBeginning (ts : List Token) : Prop := ∃ more, IsText (ts ++ more)

/-- The tokens of a grammar text lead to the end of a statement. -/
theorem isText_iff_reach {ts : List Token} :
    IsText ts ↔ statement.reach? ts = some .statement := by
  have hbare : bare (ts.map (⟨1, ·⟩)) = ts := by
    rw [bare, List.map_map]
    exact List.map_id ts
  rw [← hbare, ← exists_parse_iff, exists_parse_iff_mistake, mistake?_eq_none_iff]

/-- The tokens with which a grammar text can begin lead to some place. -/
theorem isBeginning_iff_reach {ts : List Token} :
    IsBeginning ts ↔ ∃ p, statement.reach? ts = some p := by
  simp only [IsBeginning, isText_iff_reach, reach?_append, Option.bind_eq_some_iff]
  constructor
  · rintro ⟨more, p, hp, -⟩
    exact ⟨p, hp⟩
  · rintro ⟨p, hp⟩
    exact ⟨p.completion, p, hp, p.reach?_completion⟩

/-! ### The line of a mistake -/

/-- The line of the last token, or this one if there is no token. -/
def lastLine (line : Nat) (ts : List Located) : Nat := (ts.getLast?.map (·.line)).getD line

theorem lastLine_cons (line : Nat) (t : Located) (ts : List Located) :
    lastLine line (t :: ts) = lastLine t.line ts := by
  rw [lastLine, lastLine, List.getLast?_cons]
  cases ts.getLast? <;> rfl

/-- A mistake is a token that leads nowhere from the place of the tokens before it, or the end of
the tokens within a statement. -/
theorem mistake?_eq_some {line : Nat} {e : ParseError} (h : p.mistake? line ts = some e) :
    (∃ before t after q, ts = before ++ t :: after ∧ p.reach? (bare before) = some q ∧
        q.next? t.token = none ∧
        e = ⟨if q = .statement then lastLine line before else t.line, q.expected,
          some t.token⟩) ∨
      ∃ q, p.reach? (bare ts) = some q ∧ q ≠ .statement ∧
        e = ⟨lastLine line ts, q.expected, none⟩ := by
  induction ts generalizing p line with
  | nil =>
    rw [mistake?] at h
    split at h
    · cases h
    · next hp => exact .inr ⟨p, rfl, hp, (Option.some.inj h).symm⟩
  | cons t ts ih =>
    rw [mistake?] at h
    split at h
    · next q hq =>
      rcases ih h with ⟨before, t', after, r, rfl, hreach, hnone, he⟩ | ⟨r, hreach, hr, he⟩
      · refine .inl ⟨t :: before, t', after, r, rfl, ?_, hnone, ?_⟩
        · rw [bare_cons, reach?, hq]
          exact hreach
        · rw [lastLine_cons]
          exact he
      · refine .inr ⟨r, ?_, hr, ?_⟩
        · rw [bare_cons, reach?, hq]
          exact hreach
        · rw [lastLine_cons]
          exact he
    · next hnone => exact .inl ⟨[], t, ts, p, rfl, rfl, hnone, (Option.some.inj h).symm⟩

/-- What an error reports of tokens that cannot be parsed. -/
structure ParseError.Reports (e : ParseError) (ts : List Located) : Prop where
  /-- The token is the first one with which no grammar text can go on.  The line is its own, but for
  a token that should begin a statement: this is reported in the line of the token before it. -/
  token {t : Token} (h : e.found = some t) : ∃ before line after,
    ts = before ++ ⟨line, t⟩ :: after ∧
      IsBeginning (bare before) ∧ ¬ IsBeginning (bare before ++ [t]) ∧
      (¬ IsText (bare before) → e.line = line) ∧
      (IsText (bare before) → e.line = lastLine 1 before)
  /-- If the tokens end within a statement, the line is that of the last one. -/
  atEnd (h : e.found = none) :
    IsBeginning (bare ts) ∧ ¬ IsText (bare ts) ∧ e.line = lastLine 1 ts

theorem reports_of_parse {e : ParseError} (h : parse ts = .error e) : e.Reports ts := by
  rcases mistake?_eq_some (parse_eq_error_iff.1 h) with
    ⟨before, t, after, q, rfl, hreach, hnone, rfl⟩ | ⟨q, hreach, hq, rfl⟩
  · have hwrong : ¬ IsBeginning (bare before ++ [t.token]) := by
      rw [isBeginning_iff_reach, reach?_append, hreach]
      simp [reach?, hnone]
    have htext : IsText (bare before) ↔ q = .statement := by
      rw [isText_iff_reach, hreach, Option.some.injEq]
    refine ⟨fun ht => ?_, fun hfound => (nomatch hfound)⟩
    obtain rfl := Option.some.inj ht
    exact ⟨before, t.line, after, rfl, isBeginning_iff_reach.2 ⟨q, hreach⟩, hwrong,
      fun hbefore => if_neg (mt htext.2 hbefore), fun hbefore => if_pos (htext.1 hbefore)⟩
  · have htext : ¬ IsText (bare ts) := by
      rw [isText_iff_reach, hreach, Option.some.injEq]
      exact hq
    exact ⟨fun ht => (nomatch ht), fun _ => ⟨isBeginning_iff_reach.2 ⟨q, hreach⟩, htext, rfl⟩⟩

/-- A text that has tokens and cannot be read has an error of the parser, which reports the first
token with which no grammar text can go on, or the end of the tokens. -/
theorem read_error_reports {source : String} {ts : List Located} {error : Error}
    (hscan : scan source = .ok ts) (h : read source = .error error) :
    ∃ e, error = .parse e ∧ e.Reports ts := by
  rw [read, hscan] at h
  dsimp only at h
  cases hparse : parse ts with
  | ok ss =>
    rw [hparse] at h
    cases h
  | error e =>
    rw [hparse] at h
    exact ⟨e, (Except.error.inj h).symm, reports_of_parse hparse⟩

/-- The tokens of a grammar text in which a semicolon stands before the last alternative. -/
def severedAlternative : List Located :=
  [⟨1, .symbol "E"⟩, ⟨1, .arrow⟩, ⟨1, .symbol "T"⟩, ⟨1, .semicolon⟩, ⟨3, .bar⟩, ⟨3, .symbol "F"⟩,
    ⟨3, .semicolon⟩]

/-- A bar that begins a line, where it cannot begin a statement, is reported two lines before. -/
theorem read_error_reports_bar : scan "E -> T;\n\n| F;" = .ok severedAlternative ∧
    read "E -> T;\n\n| F;" = .error (.parse ⟨1, .statement, some .bar⟩) ∧
    (⟨1, .statement, some .bar⟩ : ParseError).Reports severedAlternative := by
  have hscan : scan "E -> T;\n\n| F;" = .ok severedAlternative := by decide +kernel
  have hread : read "E -> T;\n\n| F;" = .error (.parse ⟨1, .statement, some .bar⟩) := by
    decide +kernel
  obtain ⟨e, he, hreports⟩ := read_error_reports hscan hread
  obtain rfl := Error.parse.inj he
  exact ⟨hscan, hread, hreports⟩

/-- A message may name another line than that of the token that it reports. -/
theorem read_error_line_differs : ¬ ∀ source ts e, scan source = .ok ts →
    read source = .error (.parse e) →
    (∀ t, e.found = some t → ∃ before after, ts = before ++ ⟨e.line, t⟩ :: after) ∧
      (e.found = none → e.line = lastLine 1 ts) := by
  intro h
  obtain ⟨hfound, -⟩ := h "E -> T;\n\n| F;" severedAlternative ⟨1, .statement, some .bar⟩
    (by decide +kernel) (by decide +kernel)
  obtain ⟨before, after, hts⟩ := hfound .bar rfl
  have hmem : (⟨1, .bar⟩ : Located) ∈ severedAlternative := by
    rw [hts]
    exact List.mem_append_right _ List.mem_cons_self
  exact absurd hmem (by decide)

end ArithFrontEnd.GrammarText
