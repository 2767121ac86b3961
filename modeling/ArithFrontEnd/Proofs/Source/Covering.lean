import ArithFrontEnd.Proofs.Source.Recognizing
import Mathlib.Data.List.Infix

/-!
# How tokens cover a source text

A source text consists of lexemes with gaps before, between and after them.  A gap holds blanks and
comments, and the last one may end in a comment that is not closed.  Every lexeme is the longest
piece that any class admits where the gap ends.  It becomes a token by itself: its characters tell
the kind and the text, and only the line depends on what stands before it.

## Main definitions

* `lexemeKind`, `lexemeText`, `lexemeToken` — the token that a lexeme becomes.
* `IsGap`, `IsEnding` — what stands between lexemes, and after the last one.
* `IsLexeme` — a longest piece of a text that becomes a token.
* `Covers` — tokens are those of the lexemes of a text, which has gaps between them.

## Main results

* `token?_eq` — the token of a fragment is the one that its characters tell.
* `tokensIn_gap`, `tokensIn_lexeme` — what is found behind a gap and in a lexeme.
* `scan_covers` — **the tokens that are found are the ones that cover the text.**
-/

namespace ArithFrontEnd.Source

/-! ### Lexemes and gaps -/

/-- The kind of the token that a lexeme becomes. -/
def lexemeKind (cs : List Char) : TokenKind :=
  if isWord cs then
    if Token.keywords.contains (String.ofList (cs.map Char.toLower)) then .keyword else .identifier
  else if isNumber cs then .number
  else if operators.contains (String.ofList cs) then .operator
  else if delimiters.contains (String.ofList cs) then .delimiter
  else .invalid

/-- The text of the token that a lexeme becomes: a word is turned to lower case. -/
def lexemeText (cs : List Char) : String :=
  String.ofList (if isWord cs then cs.map Char.toLower else cs)

/-- The token that a lexeme in this line becomes. -/
def lexemeToken (cs : List Char) (line : Nat) : Token := ⟨lexemeKind cs, lexemeText cs, line⟩

/-- Characters between lexemes: blanks and comments that are closed. -/
inductive IsGap : List Char → Prop
  | nil : IsGap []
  | blank {c : Char} {cs : List Char} (hc : isSpace c = true) (hcs : IsGap cs) : IsGap (c :: cs)
  | comment {body cs : List Char} (hbody : '\x7d' ∉ body) (hcs : IsGap cs) :
      IsGap ('\x7b' :: body ++ '\x7d' :: cs)

/-- Characters after the last lexeme: a gap, perhaps with a comment after it that is not closed. -/
inductive IsEnding : List Char → Prop
  | gap {cs : List Char} (hcs : IsGap cs) : IsEnding cs
  | comment {cs body : List Char} (hcs : IsGap cs) (hbody : '\x7d' ∉ body) :
      IsEnding (cs ++ '\x7b' :: body)

/-- A piece at the head of a text is the longest one of any class, and becomes a token. -/
def IsLexeme (piece rest : List Char) : Prop :=
  ∃ form : Form, form.isLexeme = true ∧ Text.IsLongest Form.admits form piece rest

/-- The tokens cover a text which stands after other characters: they are those of its lexemes, and
there are only gaps between and after these. -/
inductive Covers : List Char → List Char → List Token → Prop
  /-- No lexeme is left. -/
  | nil {before ending : List Char} (hending : IsEnding ending) : Covers before ending []
  /-- The next lexeme stands behind a gap.  Its line is counted from one by the line ends before
  it. -/
  | cons {before gap lexeme rest : List Char} {tokens : List Token} (hgap : IsGap gap)
      (hlexeme : IsLexeme lexeme rest) (hrest : Covers (before ++ gap ++ lexeme) rest tokens) :
      Covers before (gap ++ lexeme ++ rest)
        (lexemeToken lexeme (1 + (before ++ gap).count '\n') :: tokens)

variable {form : Form} {before gap piece rest : List Char} {tokens : List Token} {line : Nat}

/-! ### The token of a lexeme -/

/-- The token of a fragment is the one that its characters tell. -/
theorem token?_eq (h : form.admits piece = true) (line : Nat) :
    token? ⟨form, piece⟩ line = if form.isLexeme then some (lexemeToken piece line) else none := by
  -- what is of this class is of no other
  have hclass : ∀ form' : Form, form'.admits piece = true ↔ form = form' := fun form' =>
    ⟨recognizes.form_unique h, fun heq => heq ▸ h⟩
  have hword : isWord piece = true ↔ form = .word := hclass .word
  have hnumber : isNumber piece = true ↔ form = .number := hclass .number
  have hoperator : operators.contains (String.ofList piece) = true ↔ form = .operator :=
    hclass .operator
  have hdelimiter : delimiters.contains (String.ofList piece) = true ↔ form = .delimiter :=
    hclass .delimiter
  cases form <;>
    simp only [token?, Form.isLexeme, lexemeToken, lexemeKind, lexemeText, wordToken, hword,
      hnumber, hoperator, hdelimiter, Text.Fragment.string, reduceCtorEq, if_true, if_false,
      Bool.false_eq_true]

/-! ### The tokens of a part of a text -/

/-- The tokens that are found in a text that starts in this line. -/
def tokensIn (line : Nat) (cs : List Char) : List Token :=
  (Text.withLines line (Text.fragments extent cs)).filterMap fun (f, line) => token? f line

theorem tokensIn_nil (line : Nat) : tokensIn line [] = [] := by
  rw [tokensIn, Text.fragments_nil]
  rfl

theorem tokensIn_of_isLongest (h : Text.IsLongest Form.admits form piece rest) (line : Nat) :
    tokensIn line (piece ++ rest) =
      (token? ⟨form, piece⟩ line).toList ++ tokensIn (line + piece.count '\n') rest := by
  rw [tokensIn, recognizes.fragments_of_isLongest h, Text.withLines, List.filterMap_cons]
  dsimp only
  cases token? ⟨form, piece⟩ line <;> rfl

theorem tokensIn_lexeme (h : IsLexeme piece rest) (line : Nat) :
    tokensIn line (piece ++ rest) =
      lexemeToken piece line :: tokensIn (line + piece.count '\n') rest := by
  obtain ⟨form, hform, hlongest⟩ := h
  rw [tokensIn_of_isLongest hlongest, token?_eq hlongest.admitted, if_pos hform]
  rfl

/-- Blanks before a rest that does not begin with one are skipped. -/
theorem tokensIn_blanks (hpiece : ∀ c ∈ piece, isSpace c = true)
    (hrest : ∀ c ∈ rest.head?, isSpace c = false) (line : Nat) :
    tokensIn line (piece ++ rest) = tokensIn (line + piece.count '\n') rest := by
  cases piece with
  | nil => rfl
  | cons c cs =>
    obtain ⟨hc, hcs⟩ := List.forall_mem_cons.1 hpiece
    have hrun : (cs ++ rest).takeWhile isSpace = cs := by
      rw [List.takeWhile_append_of_pos hcs]
      cases rest with
      | nil => simp
      | cons d rest => simp [hrest d rfl]
    have hextent : extent c (cs ++ rest) = (.blank, cs.length) := by
      rw [extent, if_pos hc, hrun]
    rw [tokensIn, Text.fragments_append hextent]
    rfl

/-- A blank is skipped, with the others after it or before them. -/
theorem tokensIn_cons_of_isSpace {c : Char} (hc : isSpace c = true) (line : Nat)
    (cs : List Char) : tokensIn line (c :: cs) = tokensIn (line + [c].count '\n') cs := by
  have hsplit := List.takeWhile_append_dropWhile (p := isSpace) (l := cs)
  have hrun : ∀ d ∈ cs.takeWhile isSpace, isSpace d = true := fun d => List.mem_takeWhile_imp
  have hhead : ∀ d ∈ (cs.dropWhile isSpace).head?, isSpace d = false := by
    intro d hd
    have hnot := List.head?_dropWhile_not isSpace cs
    rwa [Option.mem_def.1 hd] at hnot
  calc tokensIn line (c :: cs)
    _ = tokensIn line (c :: cs.takeWhile isSpace ++ cs.dropWhile isSpace) := by
      rw [List.cons_append, hsplit]
    _ = tokensIn (line + [c].count '\n') (cs.takeWhile isSpace ++ cs.dropWhile isSpace) := by
      rw [tokensIn_blanks (List.forall_mem_cons.2 ⟨hc, hrun⟩) hhead, tokensIn_blanks hrun hhead,
        Nat.add_assoc, ← List.count_append]
      rfl
    _ = tokensIn (line + [c].count '\n') cs := by rw [hsplit]

/-- What is found behind a gap starts in a line that its line ends tell. -/
theorem tokensIn_gap (h : IsGap gap) (line : Nat) (rest : List Char) :
    tokensIn line (gap ++ rest) = tokensIn (line + gap.count '\n') rest := by
  induction h generalizing line with
  | nil => rfl
  | @blank c cs hc _ ih =>
    rw [List.cons_append, tokensIn_cons_of_isSpace hc, ih, Nat.add_assoc, ← List.count_append]
    rfl
  | @comment body cs hbody _ ih =>
    have hextent : extent '\x7b' (body ++ ['\x7d'] ++ (cs ++ rest)) =
        (.comment, (body ++ ['\x7d']).length) := by
      rw [List.append_assoc, List.length_append]
      exact congrArg (Prod.mk Form.comment) (commentLength_append_closing hbody _)
    have hsplit : '\x7b' :: body ++ '\x7d' :: cs = ('\x7b' :: (body ++ ['\x7d'])) ++ cs := by simp
    rw [hsplit, List.append_assoc, tokensIn, Text.fragments_append hextent, List.count_append,
      ← Nat.add_assoc, ← ih]
    rfl

/-- Nothing is found after the last lexeme. -/
theorem tokensIn_ending (h : IsEnding piece) (line : Nat) : tokensIn line piece = [] := by
  cases h with
  | gap hcs =>
    have hskip := tokensIn_gap hcs line []
    rwa [List.append_nil, tokensIn_nil] at hskip
  | @comment cs body hcs hbody =>
    have hextent : extent '\x7b' (body ++ []) = (.comment, body.length) := by
      rw [List.append_nil]
      exact congrArg (Prod.mk Form.comment)
        (commentLength_of_not_mem_dropLast (mt List.mem_of_mem_dropLast hbody))
    rw [tokensIn_gap hcs, ← List.append_nil ('\x7b' :: body), tokensIn,
      Text.fragments_append hextent, Text.fragments_nil]
    rfl

/-! ### Gaps -/

theorem IsGap.append (h : IsGap gap) (hpiece : IsGap piece) : IsGap (gap ++ piece) := by
  induction h with
  | nil => exact hpiece
  | blank hc _ ih => exact .blank hc ih
  | @comment body cs hbody _ ih =>
    rw [List.append_assoc]
    exact .comment hbody ih

theorem isGap_of_blanks (h : ∀ c ∈ piece, isSpace c = true) : IsGap piece := by
  induction piece with
  | nil => exact .nil
  | cons c cs ih =>
    obtain ⟨hc, hcs⟩ := List.forall_mem_cons.1 h
    exact .blank hc (ih hcs)

theorem IsEnding.skip (hgap : IsGap gap) (h : IsEnding rest) : IsEnding (gap ++ rest) := by
  cases h with
  | gap hcs => exact .gap (hgap.append hcs)
  | comment hcs hbody =>
    rw [← List.append_assoc]
    exact .comment (hgap.append hcs) hbody

/-- A gap before a text that is covered belongs to the first gap of the text, or to the ending. -/
theorem Covers.skip (hgap : IsGap gap) (h : Covers (before ++ gap) rest tokens) :
    Covers before (gap ++ rest) tokens := by
  cases h with
  | nil hending => exact .nil (.skip hgap hending)
  | @cons _ gap' lexeme rest tokens hgap' hlexeme hrest =>
    rw [List.append_assoc before] at hrest ⊢
    rw [← List.append_assoc, ← List.append_assoc]
    exact .cons (hgap.append hgap') hlexeme hrest

/-- A comment that is a longest match is closed or reaches to the end of the text. -/
theorem isGap_or_isEnding_of_comment (h : Text.IsLongest Form.admits .comment piece rest) :
    IsGap piece ∨ rest = [] ∧ IsEnding piece := by
  have hcomment := h.admitted
  cases piece with
  | nil => cases hcomment
  | cons c body =>
    simp only [Form.admits, isComment, Bool.and_eq_true, beq_iff_eq, Bool.not_eq_true',
      List.contains_eq_mem, decide_eq_false_iff_not] at hcomment
    obtain ⟨rfl, hbody⟩ := hcomment
    by_cases hclosing : '\x7d' ∈ body
    · -- the closing brace is the last character
      obtain ⟨init, d, rfl⟩ := (List.eq_nil_or_concat' body).resolve_left
        (List.ne_nil_of_mem hclosing)
      rw [List.dropLast_concat] at hbody
      have hd : '\x7d' = d :=
        List.mem_singleton.1 ((List.mem_append.1 hclosing).resolve_left hbody)
      rw [← hd]
      exact .inl (.comment hbody .nil)
    · cases rest with
      | nil => exact .inr ⟨rfl, .comment .nil hclosing⟩
      | cons d rest =>
        -- a comment that is not closed would reach over the next character
        have hlonger : Form.comment.admits ('\x7b' :: (body ++ [d])) = false :=
          h.longest ⟨rest, by simp⟩ (by simp)
        simp [Form.admits, isComment, hclosing] at hlonger

/-! ### The tokens of a text -/

/-- The tokens that are found cover the text. -/
theorem covers_tokensIn (before cs : List Char) :
    Covers before cs (tokensIn (1 + before.count '\n') cs) := by
  induction cs using Text.fragments.induct extent generalizing before with
  | case1 =>
    rw [tokensIn_nil]
    exact .nil (.gap .nil)
  | case2 c cs ih =>
    obtain ⟨form, piece, rest, hsplit, hlongest, ih⟩ : ∃ form piece rest,
        c :: cs = piece ++ rest ∧ Text.IsLongest Form.admits form piece rest ∧
          ∀ before, Covers before rest (tokensIn (1 + before.count '\n') rest) :=
      ⟨_, _, _, by rw [List.cons_append, List.take_append_drop],
        recognizes.isLongest_extent c cs, ih⟩
    have hrest := ih (before ++ piece)
    rw [List.count_append, ← Nat.add_assoc] at hrest
    rw [hsplit, tokensIn_of_isLongest hlongest, token?_eq hlongest.admitted]
    cases hform : form.isLexeme with
    | true =>
      have hcovers := Covers.cons .nil ⟨form, hform, hlongest⟩ (by rwa [List.append_nil])
      rwa [List.append_nil] at hcovers
    | false =>
      cases form with
      | blank =>
        have hblanks := hlongest.admitted
        rw [Form.admits, Bool.and_eq_true, List.all_eq_true] at hblanks
        exact hrest.skip (isGap_of_blanks hblanks.2)
      | comment =>
        rcases isGap_or_isEnding_of_comment hlongest with hgap | ⟨rfl, hending⟩
        · exact hrest.skip hgap
        · rw [tokensIn_nil, List.append_nil]
          exact .nil hending
      | _ => cases hform

/-- The tokens that cover a text are found. -/
theorem Covers.eq_tokensIn {cs : List Char} (h : Covers before cs tokens) :
    tokens = tokensIn (1 + before.count '\n') cs := by
  induction h with
  | nil hending => exact (tokensIn_ending hending _).symm
  | @cons before gap lexeme rest tokens hgap hlexeme _ ih =>
    have hcount : 1 + (before ++ gap ++ lexeme).count '\n' =
        1 + before.count '\n' + gap.count '\n' + lexeme.count '\n' := by
      simp only [List.count_append, Nat.add_assoc]
    rw [List.append_assoc gap, tokensIn_gap hgap, tokensIn_lexeme hlexeme, ih, hcount,
      List.count_append, ← Nat.add_assoc]

/-- A source text has gaps and lexemes, each the longest piece of any class where the gap before it
ends.  The tokens that are found in it are those of its lexemes, and no others cover it. -/
theorem scan_covers (source : String) (tokens : List Token) :
    Covers [] source.toList tokens ↔ tokens = Token.scan source :=
  ⟨fun h => h.eq_tokensIn, fun h => h ▸ covers_tokensIn [] source.toList⟩

-- a comment over two lines, digits with letters after them, and a comment that is not closed
example : Token.scan "x\x7b1\n2\x7d:= 12Ab\x7b 3" =
    [⟨.identifier, "x", 1⟩, ⟨.operator, ":=", 2⟩, ⟨.invalid, "12Ab", 2⟩] := by decide +kernel

end ArithFrontEnd.Source
