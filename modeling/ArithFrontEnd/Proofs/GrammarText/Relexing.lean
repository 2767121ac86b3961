import ArithFrontEnd.Proofs.GrammarText.Parsing

/-!
# Statements that are written are read back

A token that has been read can be written again, and is read from what has been written if no symbol
character follows.  So tokens with blanks between them are read back, and a grammar text can be made
of statements: each on a line, with blanks between its tokens and the semicolon right behind them.

## Main definitions

* `Token.text`, `Statement.line` — a token and a statement as they are written.
* `Scans`, `EndsWord` — characters are read as these tokens, and a word can end before them.

## Main results

* `Scans.written` — a token is read from what is written for it.
* `decimal_toDigits` — decimal digits write their number.
* `read_lines` — **statements that are written on lines are read back.**
-/

namespace ArithFrontEnd.GrammarText

/-- How a token is written. -/
def Token.text : Token → String
  | .arrow => "->"
  | .bar => "|"
  | .semicolon => ";"
  | .start => "@start"
  | .inherit => "@inherit"
  | .empty => "ε"
  | .action number => s!"\x7b{number}\x7d"
  | .symbol name => name

/-- A statement as it is written on a line: its tokens with blanks between them, but for the
semicolon, which stands right behind. -/
def Statement.line (s : Statement) : String :=
  String.intercalate " " (s.tokens.dropLast.map Token.text) ++ ";"

/-- The characters are read as these tokens, in whatever line they start. -/
def Scans (cs : List Char) (ts : List Token) : Prop :=
  ∀ line, ∃ located,
    tokens (Text.withLines line (Text.fragments extent cs)) = .ok located ∧ bare located = ts

variable {c : Char} {cs rest : List Char} {ts : List Token}

/-! ### Fragments -/

theorem scans_nil : Scans [] [] := fun _ => ⟨[], by rw [Text.fragments_nil]; rfl, rfl⟩

/-- A fragment that is a token stands before the tokens of the rest. -/
theorem Scans.token {form : Form} {t : Token} (h : Scans rest ts)
    (hextent : extent c (cs ++ rest) = (form, cs.length))
    (hread : readFragment ⟨form, c :: cs⟩ = .token t) : Scans (c :: cs ++ rest) (t :: ts) := by
  intro line
  rw [Text.fragments_append hextent, Text.withLines, tokens, hread]
  obtain ⟨located, hlocated, rfl⟩ := h (line + Text.Fragment.newlines ⟨form, c :: cs⟩)
  dsimp only
  rw [hlocated]
  exact ⟨_, rfl, rfl⟩

theorem extent_space (hc : isSpace c = true) (cs : List Char) :
    extent c cs = (.blank, (cs.takeWhile isSpace).length) := if_pos hc

/-- A blank before the rest does not matter: it is a run of blanks, or makes one longer. -/
theorem Scans.blank (h : Scans cs ts) (hc : isSpace c = true) : Scans (c :: cs) ts := by
  intro line
  rw [Text.fragments_cons, extent_space hc]
  cases cs with
  | nil => exact h _
  | cons d cs =>
    by_cases hd : isSpace d = true
    · -- the blanks that follow are in the same fragment, and the line ends in them are counted
      obtain ⟨located, hlocated, hbare⟩ := h (line + [c].count '\n')
      rw [Text.fragments_cons, extent_space hd, Text.withLines, tokens] at hlocated
      refine ⟨located, ?_, hbare⟩
      rw [List.takeWhile_cons_of_pos hd, Text.withLines, tokens]
      dsimp only [readFragment] at hlocated ⊢
      rw [← hlocated, Text.Fragment.newlines, Text.Fragment.newlines, Nat.add_assoc,
        ← List.count_append]
      rfl
    · rw [List.takeWhile_cons_of_neg hd]
      exact h _

/-! ### What is written for a token -/

/-- No symbol character stands at the head. -/
def EndsWord (cs : List Char) : Prop := ∀ c ∈ cs.head?, isSymbolChar c = false

theorem endsWord_cons (h : isSymbolChar c = false) (cs : List Char) : EndsWord (c :: cs) := by
  intro d hd
  obtain rfl := Option.some.inj hd
  exact h

theorem EndsWord.takeWhile_append (h : EndsWord rest) (hcs : ∀ c ∈ cs, isSymbolChar c = true) :
    (cs ++ rest).takeWhile isSymbolChar = cs := by
  rw [List.takeWhile_append_of_pos hcs]
  cases rest with
  | nil => simp
  | cons d rest => simp [h d rfl]

theorem isSpace_of_isSymbolChar (h : isSymbolChar c = true) : isSpace c = false := by
  by_contra hspace
  rw [Bool.not_eq_false, isSpace] at hspace
  simp only [Bool.or_eq_true, beq_iff_eq] at hspace
  rcases hspace with (((rfl | rfl) | rfl) | rfl) | rfl <;> contradiction

/-- A word ends where no symbol character follows. -/
theorem extent_append_of_isWord (h : IsWord (c :: cs)) (hrest : EndsWord rest) :
    extent c (cs ++ rest) = (.word, cs.length) := by
  have hc : isSymbolChar c = true := h.isSymbolChar c List.mem_cons_self
  have hne : ∀ d, isSymbolChar d = false → c ≠ d := by
    rintro d hd rfl
    rw [hc] at hd
    contradiction
  have hslashes : ¬ (c = '/' ∧ (cs ++ rest).head? = some '/') := by
    rintro ⟨rfl, hsecond⟩
    cases cs with
    | nil => exact absurd (hrest '/' hsecond) (by decide)
    | cons d cs =>
      obtain rfl := Option.some.inj hsecond
      exact h.not_comment ⟨cs, rfl⟩
  have hcs : ∀ d ∈ cs, isSymbolChar d = true := fun d hd =>
    h.isSymbolChar d (List.mem_cons_of_mem c hd)
  rw [extent, if_neg (by simp [isSpace_of_isSymbolChar hc]), if_neg (hne '|' (by decide)),
    if_neg (hne ';' (by decide)), if_neg (hne '\x7b' (by decide)), if_pos hc, wordExtent,
    if_neg hslashes, hrest.takeWhile_append hcs]

/-- A word is read where no symbol character follows. -/
theorem Scans.word (h : Scans rest ts) (word : String) (hword : IsWord word.toList)
    (hrest : EndsWord rest) : Scans (word.toList ++ rest) (Token.ofWord word :: ts) := by
  cases hcs : word.toList with
  | nil => exact absurd hcs hword.ne_nil
  | cons c cs =>
    rw [hcs] at hword
    refine h.token (extent_append_of_isWord hword hrest) ?_
    rw [← hcs, readFragment, Text.Fragment.string, String.ofList_toList]

/-- Decimal digits write their number. -/
theorem decimal_toDigits (n : Nat) : decimal (Nat.toDigits 10 n) = n :=
  Nat.ofDigitChars_toDigits (by decide) (by decide)

theorem toList_text_action (n : Nat) :
    (Token.action n).text.toList = '\x7b' :: (Nat.toDigits 10 n ++ ['\x7d']) := by
  have hopen : (toString "\x7b").toList = ['\x7b'] := rfl
  have hclose : (toString "\x7d").toList = ['\x7d'] := rfl
  simp [Token.text, String.toList_append, hopen, hclose]

/-- An action is read whatever follows. -/
theorem Scans.action {n : Nat} (h : Scans rest ts) (hn : n ≤ Token.maxAction) :
    Scans ((Token.action n).text.toList ++ rest) (.action n :: ts) := by
  have hdigits : ∀ d ∈ Nat.toDigits 10 n, d.isDigit = true := fun d hd =>
    Nat.isDigit_of_mem_toDigits (by decide) (by decide) hd
  have hextent : extent '\x7b' (Nat.toDigits 10 n ++ ['\x7d'] ++ rest) =
      (.action, (Nat.toDigits 10 n ++ ['\x7d']).length) := by
    have hrun : (Nat.toDigits 10 n ++ ['\x7d'] ++ rest).takeWhile Char.isDigit =
        Nat.toDigits 10 n := by
      rw [List.append_assoc, List.takeWhile_append_of_pos hdigits]
      simp [Char.isDigit]
    have hne : (Nat.toDigits 10 n).length ≠ 0 := mt List.length_eq_zero_iff.1 Nat.toDigits_ne_nil
    change braceExtent _ = _
    rw [braceExtent, hrun]
    simp [hne]
  have hfilter : ('\x7b' :: (Nat.toDigits 10 n ++ ['\x7d'])).filter Char.isDigit =
      Nat.toDigits 10 n := by
    rw [List.filter_cons_of_neg (by decide), List.filter_append, List.filter_eq_self.2 hdigits,
      List.filter_cons_of_neg (by decide), List.filter_nil, List.append_nil]
  rw [toList_text_action]
  refine h.token hextent ?_
  simp only [readFragment, action?, hfilter, decimal_toDigits, if_pos hn, Option.elim_some]

/-- A token is read from what is written for it, where no symbol character follows. -/
theorem Scans.written {t : Token} (h : Scans rest ts) (ht : t.IsWritten) (hrest : EndsWord rest) :
    Scans (t.text.toList ++ rest) (t :: ts) := by
  cases t with
  | arrow => exact h.word "->" ⟨by decide, List.all_eq_true.1 rfl, by decide⟩ hrest
  | bar =>
    have hextent : extent '|' ([] ++ rest) = (.bar, 0) := rfl
    exact h.token hextent rfl
  | semicolon =>
    have hextent : extent ';' ([] ++ rest) = (.semicolon, 0) := rfl
    exact h.token hextent rfl
  | start => exact h.word "@start" ⟨by decide, List.all_eq_true.1 rfl, by decide⟩ hrest
  | inherit => exact h.word "@inherit" ⟨by decide, List.all_eq_true.1 rfl, by decide⟩ hrest
  | empty => exact h.word "ε" ⟨by decide, List.all_eq_true.1 rfl, by decide⟩ hrest
  | action n => exact h.action ht
  | symbol name =>
    obtain ⟨hword, hsymbol⟩ := ht
    have hscans := h.word name hword hrest
    rwa [hsymbol] at hscans

/-! ### Statements on lines -/

/-- Tokens are read from what is written for them with blanks between. -/
theorem Scans.spaced {first : Token} {others : List Token} (h : Scans rest ts)
    (hwritten : ∀ t ∈ first :: others, t.IsWritten) (hrest : EndsWord rest) :
    Scans ([' '].intercalate ((first :: others).map (·.text.toList)) ++ rest)
      (first :: others ++ ts) := by
  induction others generalizing first with
  | nil =>
    rw [List.map_singleton, List.intercalate_singleton]
    exact h.written (hwritten first List.mem_cons_self) hrest
  | cons next others ih =>
    obtain ⟨hfirst, hothers⟩ := List.forall_mem_cons.1 hwritten
    rw [List.map_cons, List.map_cons, List.intercalate_cons_cons, List.append_assoc,
      List.append_assoc]
    exact ((ih hothers).blank (c := ' ') rfl).written hfirst (endsWord_cons (by decide) _)

theorem exists_alternativeTokens_eq (alternative : Alternative) (others : List Alternative) :
    ∃ ts, alternativeTokens alternative others = ts ++ [.semicolon] := by
  induction others generalizing alternative with
  | nil => exact ⟨_, rfl⟩
  | cons next others ih =>
    obtain ⟨ts, hts⟩ := ih next
    exact ⟨alternative.map Element.token ++ .bar :: ts, by simp [alternativeTokens, hts]⟩

/-- The semicolon is the last token of a statement, and not the first. -/
theorem Statement.exists_tokens_eq (s : Statement) :
    ∃ first others, s.tokens = first :: others ++ [.semicolon] := by
  cases s with
  | start name => exact ⟨.start, [.symbol name], rfl⟩
  | inherit name others => exact ⟨.inherit, (name :: others).map Token.symbol, rfl⟩
  | rule left alternative others =>
    obtain ⟨ts, hts⟩ := exists_alternativeTokens_eq alternative others
    exact ⟨.symbol left, .arrow :: ts, by rw [Statement.tokens, hts]; rfl⟩

theorem toList_line (s : Statement) : s.line.toList =
    [' '].intercalate (s.tokens.dropLast.map (·.text.toList)) ++ [';'] := by
  rw [Statement.line, String.toList_append, String.toList_intercalate, List.map_map]
  rfl

/-- A statement is read from its line, before whatever is on the lines that follow. -/
theorem Scans.line {s : Statement} (h : Scans rest ts) (hwritten : ∀ t ∈ s.tokens, t.IsWritten) :
    Scans (s.line.toList ++ '\n' :: rest) (s.tokens ++ ts) := by
  obtain ⟨first, others, htokens⟩ := s.exists_tokens_eq
  have hdropLast : s.tokens.dropLast = first :: others := by rw [htokens, List.dropLast_concat]
  rw [toList_line, hdropLast, htokens, List.append_assoc, List.append_assoc]
  refine ((h.blank rfl).written (t := .semicolon) trivial (endsWord_cons (by decide) _)).spaced
    (fun t ht => hwritten t ?_) (endsWord_cons (by decide) _)
  exact htokens ▸ List.mem_append_left _ ht

theorem scans_lines {ss : List Statement} (h : ∀ t ∈ ss.flatMap Statement.tokens, t.IsWritten) :
    Scans (Text.lines (ss.map Statement.line)).toList (ss.flatMap Statement.tokens) := by
  rw [Text.toList_lines]
  induction ss with
  | nil => exact scans_nil
  | cons s ss ih =>
    rw [List.flatMap_cons, List.forall_mem_append] at h
    rw [List.map_cons, List.flatMap_cons, List.flatMap_cons, List.append_assoc]
    exact (ih h.2).line h.1

/-- Statements that are written on lines are read back. -/
theorem read_lines {ss : List Statement} (h : ∀ t ∈ ss.flatMap Statement.tokens, t.IsWritten) :
    read (Text.lines (ss.map Statement.line)) = .ok ss := by
  obtain ⟨located, hlocated, hbare⟩ := scans_lines h 1
  have hscan : scan (Text.lines (ss.map Statement.line)) = .ok located := hlocated
  rw [read, hscan]
  dsimp only
  rw [parse_eq_ok_iff.2 hbare]

end ArithFrontEnd.GrammarText
