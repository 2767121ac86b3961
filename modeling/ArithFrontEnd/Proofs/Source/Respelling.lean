import ArithFrontEnd.Proofs.Source.Covering

/-!
# Tokens that are spelled again

What a scan finds does not depend on how the tokens are set apart and how their words are written:
whoever writes their texts in order, words in capital or small letters, with blanks or comments
between them, has a text with the same kinds and texts of tokens.  For no lexeme holds a blank or a
brace, so that one that stands before a gap ends there, whatever it is.

## Main definitions

* `Token.content` — what a token is without the line.
* `Token.IsSpelled` — characters write a token, a word in any case.
* `Ends`, `Spells` — a text writes tokens, and a gap or the longest match sets them apart.

## Main results

* `isLexeme_of_separated` — a lexeme ends where a gap begins.
* `scan_content_iff` — **tokens are found in the texts that write them.**
* `scan_respelled` — **the texts of tokens, with blanks between them, have these tokens.**
-/

namespace ArithFrontEnd

/-- The kind and the text of a token. -/
def Token.content (token : Token) : TokenKind × String := (token.kind, token.text)

/-- The characters write the text of the token, a word in whatever case its letters are. -/
def Token.IsSpelled (token : Token) (cs : List Char) : Prop :=
  (if token.kind = .keyword ∨ token.kind = .identifier then cs.map Char.toLower else cs) =
    token.text.toList

namespace Source

/-- The characters with which a gap can begin. -/
def isSeparator (c : Char) : Bool := isSpace c || c == '\x7b'

/-- A piece ends where it stands: before a gap, at the end of the text, or as the longest lexeme. -/
def Ends (piece rest : List Char) : Prop :=
  (∀ c ∈ rest.head?, isSeparator c = true) ∨ IsLexeme piece rest

/-- A text writes these tokens: their spellings stand in it with gaps before and after them. -/
inductive Spells : List Token → List Char → Prop
  /-- No token is left. -/
  | nil {ending : List Char} (hending : IsEnding ending) : Spells [] ending
  /-- The next token is spelled behind a gap. -/
  | cons {token : Token} {tokens : List Token} {gap piece rest : List Char} (hgap : IsGap gap)
      (hpiece : token.IsSpelled piece) (hends : Ends piece rest) (hrest : Spells tokens rest) :
      Spells (token :: tokens) (gap ++ piece ++ rest)

variable {form : Form} {gap piece rest cs : List Char} {token : Token} {tokens : List Token}

/-! ### Where lexemes end -/

theorem isSeparator_of_isAlphanum {c : Char} (h : c.isAlphanum = true) :
    isSeparator c = false := by
  obtain ⟨hspace, hbrace⟩ := not_isSpace_of_isAlphanum h
  simp [isSeparator, hspace, hbrace]

theorem isAlphanum_of_isWord (h : isWord piece = true) : ∀ c ∈ piece, c.isAlphanum = true := by
  cases piece with
  | nil => cases h
  | cons c cs =>
    rw [isWord, Bool.and_eq_true, List.all_eq_true] at h
    exact List.forall_mem_cons.2 ⟨Bool.or_eq_true_iff.2 (.inl h.1), h.2⟩

theorem isAlphanum_of_isNumber (h : isNumber piece = true) :
    ∀ c ∈ piece, c.isAlphanum = true := by
  rw [isNumber, Bool.and_eq_true, List.all_eq_true] at h
  exact fun c hc => Bool.or_eq_true_iff.2 (.inr (h.2 c hc))

/-- No lexeme holds a character with which a gap begins. -/
theorem isSeparator_of_mem (hform : form.isLexeme = true) (h : form.admits piece = true) :
    ∀ c ∈ piece, isSeparator c = false := by
  have hlisted : ∀ texts : List String,
      (texts.all fun s => s.toList.all fun c => !isSeparator c) = true →
      texts.contains (String.ofList piece) = true → ∀ c ∈ piece, isSeparator c = false := by
    intro texts hall hmem c hc
    have hpiece := List.all_eq_true.1 hall _ (List.contains_iff_mem.1 hmem)
    rw [String.toList_ofList, List.all_eq_true] at hpiece
    simpa using hpiece c hc
  cases form with
  | blank => cases hform
  | comment => cases hform
  | word => exact fun c hc => isSeparator_of_isAlphanum (isAlphanum_of_isWord h c hc)
  | number => exact fun c hc => isSeparator_of_isAlphanum (isAlphanum_of_isNumber h c hc)
  | malformedNumber =>
    rw [Form.admits, isMalformedNumber, Bool.and_eq_true] at h
    intro c hc
    rw [← List.takeWhile_append_dropWhile (p := Char.isDigit) (l := piece), List.mem_append] at hc
    rcases hc with hc | hc
    · exact isSeparator_of_isAlphanum (isAlphanum_of_isNumber h.1 c hc)
    · exact isSeparator_of_isAlphanum (isAlphanum_of_isWord h.2 c hc)
  | operator => exact hlisted operators (by decide) h
  | loneColon =>
    obtain rfl := beq_iff_eq.1 h
    exact List.forall_mem_singleton.2 rfl
  | delimiter => exact hlisted delimiters (by decide) h
  | unknown =>
    rcases piece with - | ⟨c, - | ⟨d, cs⟩⟩
    · cases h
    · simp only [Form.admits, isUnknown, Bool.not_eq_true', Bool.or_eq_false_iff] at h
      exact List.forall_mem_singleton.2 (Bool.or_eq_false_iff.2 h.1.1.1)
    · cases h

/-- A text of a class that begins with no separator becomes a token. -/
theorem isLexeme_of_head {c : Char} (h : form.admits (c :: cs) = true)
    (hc : isSeparator c = false) : form.isLexeme = true := by
  obtain ⟨hspace, hbrace⟩ := Bool.or_eq_false_iff.1 hc
  cases form with
  | blank => simp [Form.admits, hspace] at h
  | comment =>
    rw [Form.admits, isComment, hbrace] at h
    cases h
  | _ => rfl

/-- A lexeme ends where a gap begins. -/
theorem isLexeme_of_separated (hform : form.isLexeme = true) (h : form.admits piece = true)
    (hseparated : ∀ c ∈ rest.head?, isSeparator c = true) : IsLexeme piece rest := by
  refine ⟨form, hform, h, fun {form' longer} hlonger hlength => ?_⟩
  refine Bool.eq_false_iff.2 fun hform' => ?_
  obtain ⟨more, rfl⟩ : piece <+: longer :=
    List.prefix_of_prefix_length_le (List.prefix_append piece rest) hlonger hlength.le
  have hpiece := isSeparator_of_mem hform h
  cases piece with
  | nil => exact Form.admits_ne_nil h rfl
  | cons c cs =>
    cases more with
    | nil => simp at hlength
    | cons d more =>
      -- a longer piece holds the separator, and begins with the lexeme
      obtain ⟨after, hafter⟩ := (List.prefix_append_right_inj (c :: cs)).1 hlonger
      have hd : isSeparator d = true := hseparated d (by rw [← hafter]; rfl)
      have hlexeme := isLexeme_of_head hform' (hpiece c List.mem_cons_self)
      rw [isSeparator_of_mem hlexeme hform' d (by simp)] at hd
      cases hd

/-! ### What is spelled -/

/-- A keyword or an identifier from a source text is a word in lower case, which tells the kind. -/
theorem isWord_of_isLexical (h : token.IsLexical)
    (hkind : token.kind = .keyword ∨ token.kind = .identifier) :
    isWord token.text.toList = true ∧ (∀ c ∈ token.text.toList, c.isUpper = false) ∧
      token.kind = if Token.keywords.contains token.text then .keyword else .identifier := by
  obtain ⟨kind, text, number⟩ := token
  rcases hkind with rfl | rfl
  · have hkeyword : Token.keywords.contains text = true := h
    have hall : (Token.keywords.all fun word =>
        isWord word.toList && word.toList.all fun c => !c.isUpper) = true := by decide
    have htext := List.all_eq_true.1 hall text (List.contains_iff_mem.1 hkeyword)
    rw [Bool.and_eq_true] at htext
    exact ⟨htext.1, by simpa using htext.2, (if_pos hkeyword).symm⟩
  · have hadmits : (isWord text.toList && text.toList.all (fun c => !c.isUpper) &&
        !Token.keywords.contains text) = true := h
    rw [Bool.and_eq_true, Bool.and_eq_true, Bool.not_eq_true'] at hadmits
    obtain ⟨⟨hword, hlower⟩, hkeyword⟩ := hadmits
    exact ⟨hword, by simpa using hlower, (if_neg (Bool.eq_false_iff.1 hkeyword)).symm⟩

/-- What is no word becomes a token with its own text. -/
theorem exists_form_of_token? {kind : TokenKind} {text : String} (form : Form)
    (hform : form.isLexeme = true) (hadmits : form.admits text.toList = true)
    (h : ∀ line, token? ⟨form, text.toList⟩ line =
      some ⟨kind, String.ofList text.toList, line⟩) :
    ∃ form : Form, form.isLexeme = true ∧ form.admits text.toList = true ∧
      ∀ line, (lexemeToken text.toList line).content = (kind, text) := by
  refine ⟨form, hform, hadmits, fun line => ?_⟩
  have htoken := h line
  rw [token?_eq hadmits, if_pos hform, String.ofList_toList] at htoken
  rw [Option.some.inj htoken]
  rfl

/-- The spelling of a token from a source text is a lexeme, and becomes this token. -/
theorem exists_form_of_isSpelled (htoken : token.IsLexical) (h : token.IsSpelled piece) :
    ∃ form : Form, form.isLexeme = true ∧ form.admits piece = true ∧
      ∀ line, (lexemeToken piece line).content = token.content := by
  by_cases hkind : token.kind = .keyword ∨ token.kind = .identifier
  · obtain ⟨hword, -, hkeyword⟩ := isWord_of_isLexical htoken hkind
    rw [Token.IsSpelled, if_pos hkind] at h
    have hpiece : isWord piece = true := by rwa [← isWord_map_toLower, h]
    refine ⟨.word, rfl, hpiece, fun line => ?_⟩
    rw [Token.content, Token.content, hkeyword, lexemeToken, lexemeKind, lexemeText,
      if_pos hpiece, if_pos hpiece, h, String.ofList_toList]
  · rw [Token.IsSpelled, if_neg hkind] at h
    subst h
    obtain ⟨kind, text, number⟩ := token
    cases kind with
    | keyword => exact absurd (.inl rfl) hkind
    | identifier => exact absurd (.inr rfl) hkind
    | number => exact exists_form_of_token? .number rfl htoken fun _ => rfl
    | operator =>
      exact exists_form_of_token? .operator rfl (by rwa [Form.admits, String.ofList_toList])
        fun _ => rfl
    | delimiter =>
      exact exists_form_of_token? .delimiter rfl (by rwa [Form.admits, String.ofList_toList])
        fun _ => rfl
    | invalid =>
      rw [Token.IsLexical, TokenKind.admits, Bool.or_eq_true, Bool.or_eq_true] at htoken
      rcases htoken with (hnumber | hcolon) | hunknown
      · exact exists_form_of_token? .malformedNumber rfl hnumber fun _ => rfl
      · exact exists_form_of_token? .loneColon rfl hcolon fun _ => rfl
      · exact exists_form_of_token? .unknown rfl hunknown fun _ => rfl

theorem lexemeKind_eq_word_iff :
    lexemeKind piece = .keyword ∨ lexemeKind piece = .identifier ↔ isWord piece = true := by
  unfold lexemeKind
  split
  · split <;> simp [*]
  · repeat' split
    all_goals simp [*]

/-- A lexeme spells every token with its kind and its text. -/
theorem isSpelled_of_content {line : Nat}
    (h : (lexemeToken piece line).content = token.content) : token.IsSpelled piece := by
  obtain ⟨hkind, htext⟩ := Prod.mk.inj h
  rw [Token.IsSpelled, ← hkind, ← htext]
  simp only [lexemeToken, lexemeKind_eq_word_iff, lexemeText, String.toList_ofList]

/-! ### Tokens that are found again -/

/-- A text that writes tokens from a source text is covered by such tokens. -/
theorem Spells.exists_covers (h : Spells tokens cs) (htokens : ∀ token ∈ tokens, token.IsLexical)
    (before : List Char) : ∃ found : List Token, Covers before cs found ∧
      found.map Token.content = tokens.map Token.content := by
  induction h generalizing before with
  | nil hending => exact ⟨[], .nil hending, rfl⟩
  | @cons token tokens gap piece rest hgap hpiece hends _ ih =>
    obtain ⟨htoken, htokens⟩ := List.forall_mem_cons.1 htokens
    obtain ⟨form, hform, hadmits, hcontent⟩ := exists_form_of_isSpelled htoken hpiece
    have hlexeme : IsLexeme piece rest := hends.elim (isLexeme_of_separated hform hadmits) id
    obtain ⟨found, hcovers, hfound⟩ := ih htokens (before ++ gap ++ piece)
    refine ⟨_, .cons hgap hlexeme hcovers, ?_⟩
    rw [List.map_cons, List.map_cons, hcontent, hfound]

/-- A text that is covered by such tokens writes them. -/
theorem Covers.spells {before : List Char} {found : List Token} (h : Covers before cs found)
    (hfound : found.map Token.content = tokens.map Token.content) : Spells tokens cs := by
  induction h generalizing tokens with
  | nil hending =>
    obtain rfl := List.map_eq_nil_iff.1 hfound.symm
    exact .nil hending
  | cons hgap hlexeme _ ih =>
    cases tokens with
    | nil => cases hfound
    | cons token tokens =>
      obtain ⟨hcontent, hfound⟩ := List.cons.inj hfound
      exact .cons hgap (isSpelled_of_content hcontent) (.inr hlexeme) (ih hfound)

/-- Tokens from a source text are found in the texts that write them, and in no others. -/
theorem scan_content_iff {text : String} (htokens : ∀ token ∈ tokens, token.IsLexical) :
    (Token.scan text).map Token.content = tokens.map Token.content ↔
      Spells tokens text.toList := by
  constructor
  · exact (covers_tokensIn [] text.toList).spells
  · intro h
    obtain ⟨found, hcovers, hfound⟩ := h.exists_covers htokens []
    have hscan : found = Token.scan text := hcovers.eq_tokensIn
    rw [← hscan, hfound]

/-! ### The texts of tokens with blanks between them -/

/-- The text of a token from a source text spells it. -/
theorem isSpelled_text (h : token.IsLexical) : token.IsSpelled token.text.toList := by
  rw [Token.IsSpelled]
  split
  · next hkind =>
    obtain ⟨-, hlower, -⟩ := isWord_of_isLexical h hkind
    have htext : token.text.toList.map Char.toLower = token.text.toList.map id :=
      List.map_congr_left fun c hc =>
        toLower_eq_self (hlower c hc)
    rw [htext, List.map_id]
  · rfl

theorem Spells.skip (hgap : IsGap gap) (h : Spells tokens cs) : Spells tokens (gap ++ cs) := by
  cases h with
  | nil hending => exact .nil (.skip hgap hending)
  | cons hgap' hpiece hends hrest =>
    rw [← List.append_assoc, ← List.append_assoc]
    exact .cons (hgap.append hgap') hpiece hends hrest

/-- The texts of tokens with blanks between them write the tokens. -/
theorem spells_intercalate (htokens : ∀ token ∈ tokens, token.IsLexical) :
    Spells tokens (String.intercalate " " (tokens.map (·.text))).toList := by
  rw [String.toList_intercalate, List.map_map]
  induction tokens with
  | nil => exact .nil (.gap .nil)
  | cons token tokens ih =>
    obtain ⟨htoken, htokens⟩ := List.forall_mem_cons.1 htokens
    have hpiece := isSpelled_text htoken
    have hrest := ih htokens
    cases tokens with
    | nil =>
      have hspells := Spells.cons .nil hpiece (.inl (by simp)) hrest
      simpa using hspells
    | cons next tokens =>
      have hspells := Spells.cons .nil hpiece (.inl (by simp [isSeparator, isSpace]))
        (hrest.skip (.blank (c := ' ') rfl .nil))
      simpa using hspells

/-- The texts of the tokens that are found, with blanks between them, have these tokens again.  And
a text has the same tokens if, and only if, it writes their texts in order with gaps between them,
words in capital or small letters, so that no two run together. -/
theorem scan_respelled (source : String) :
    (Token.scan (String.intercalate " " ((Token.scan source).map (·.text)))).map Token.content =
      (Token.scan source).map Token.content ∧
    ∀ text : String, (Token.scan text).map Token.content = (Token.scan source).map Token.content ↔
      Spells (Token.scan source) text.toList := by
  have htokens : ∀ token ∈ Token.scan source, token.IsLexical :=
    fun _ => Token.isLexical_of_mem_scan
  exact ⟨(scan_content_iff htokens).2 (spells_intercalate htokens),
    fun text => scan_content_iff htokens⟩

-- a word in another case, and a comment, a line end and no gap at all between lexemes
example : (Token.scan "IF\x7ba\x7dX:=\n1Ab?").map Token.content =
    (Token.scan "if x := 1Ab \x7bb\x7d ? \x7bc").map Token.content := by decide +kernel

/-- A malformed number is no word: it keeps its letters as they are written. -/
theorem scan_malformedNumber_case : "12A".toList.map Char.toLower = "12a".toList ∧
    (Token.scan "12A").map Token.content ≠ (Token.scan "12a").map Token.content := by
  decide +kernel

end Source

end ArithFrontEnd
