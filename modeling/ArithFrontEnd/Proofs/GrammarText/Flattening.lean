import ArithFrontEnd.Grammar.Description
import Mathlib.Data.List.TakeWhile

/-!
# Statements and their tokens

Nothing is lost when statements are read: written out as tokens again, they are the tokens that they
have been read from.  So every name in a statement is that of a token, and a token is a symbol only
if it is a run of symbol characters, which is not empty and holds no blank.

## Main definitions

* `IsWord`, `Token.IsWritten` — characters that are a word, and tokens that can be written.
* `IsName` — a name that can be read from a grammar text.

## Main results

* `parseStatement_tokens` — a statement has been read from its tokens.
* `parse_tokens` — **statements have been read from their tokens.**
* `isWritten_of_read` — the tokens of statements that are read can be written.
* `isName_of_read` — **the names of symbols in rules are such names.**
-/

namespace ArithFrontEnd.GrammarText

/-- The tokens without their lines. -/
def bare (ts : List Located) : List Token := ts.map (·.token)

@[simp] theorem bare_nil : bare [] = [] := rfl

@[simp] theorem bare_cons (t : Located) (ts : List Located) : bare (t :: ts) = t.token :: bare ts :=
  rfl

variable {c c' : Cursor} {line : Nat} {ts : List Located} {name : String}

/-! ### The parts of a statement -/

theorem parseSymbol_tokens (h : parseSymbol c = .ok (name, c')) :
    bare c.rest = .symbol name :: bare c'.rest := by
  unfold parseSymbol at h
  split at h
  · obtain ⟨rfl, rfl⟩ := Prod.mk.inj (Except.ok.inj h)
    rfl
  · cases h
  · cases h

theorem parseToken_tokens {t : Token} {u : Unit} (h : parseToken t c = .ok (u, c')) :
    bare c.rest = t :: bare c'.rest := by
  unfold parseToken at h
  split at h
  · split at h
    · next heq =>
      obtain ⟨-, rfl⟩ := Prod.mk.inj (Except.ok.inj h)
      rw [← heq]
      rfl
    · cases h
  · cases h

theorem takeSymbols_tokens (line : Nat) (ts : List Located) :
    bare ts = (takeSymbols line ts).1.map Token.symbol ++ bare (takeSymbols line ts).2.rest := by
  fun_induction takeSymbols line ts with
  | case1 line line' name rest ih => rw [bare_cons, ih]; rfl
  | case2 line rest => rfl

/-- An element is added to the first of some alternatives. -/
theorem alternativeTokens_cons (e : Element) (alternative : Alternative)
    (others : List Alternative) :
    alternativeTokens (e :: alternative) others =
      e.token :: alternativeTokens alternative others := by
  cases others <;> rfl

theorem parseAlternatives_tokens {alternative : Alternative} {others : List Alternative}
    (h : parseAlternatives line ts = .ok ((alternative, others), c)) :
    bare ts = alternativeTokens alternative others ++ bare c.rest := by
  fun_induction parseAlternatives line ts generalizing alternative others c with
  | case1 => cases h
  | case2 line line' rest =>
    obtain ⟨halternatives, rfl⟩ := Prod.mk.inj (Except.ok.inj h)
    obtain ⟨rfl, rfl⟩ := Prod.mk.inj halternatives
    rfl
  | case3 line line' rest ih =>
    cases hrest : parseAlternatives line' rest with
    | error e => rw [hrest] at h; cases h
    | ok parsed =>
      obtain ⟨⟨next, more⟩, cursor⟩ := parsed
      rw [hrest] at h
      obtain ⟨halternatives, rfl⟩ := Prod.mk.inj (Except.ok.inj h)
      obtain ⟨rfl, rfl⟩ := Prod.mk.inj halternatives
      rw [bare_cons, ih hrest]
      rfl
  | case4 => cases h
  | case5 line line' t rest hsemicolon hbar e he ih =>
    cases hrest : parseAlternatives line' rest with
    | error e => rw [hrest] at h; cases h
    | ok parsed =>
      obtain ⟨⟨next, more⟩, cursor⟩ := parsed
      rw [hrest] at h
      obtain ⟨halternatives, rfl⟩ := Prod.mk.inj (Except.ok.inj h)
      obtain ⟨rfl, rfl⟩ := Prod.mk.inj halternatives
      rw [bare_cons, ih hrest, alternativeTokens_cons, Element.ofToken?_eq_some_iff.1 he]
      rfl

/-! ### Statements -/

variable {s : Statement}

theorem parseStart_tokens (h : parseStart c = .ok (s, c')) :
    Token.start :: bare c.rest = s.tokens ++ bare c'.rest := by
  unfold parseStart at h
  split at h
  · cases h
  · next hname =>
    split at h
    · cases h
    · next hend =>
      obtain ⟨rfl, rfl⟩ := Prod.mk.inj (Except.ok.inj h)
      rw [parseSymbol_tokens hname, parseToken_tokens hend]
      rfl

theorem parseInherit_tokens (h : parseInherit c = .ok (s, c')) :
    Token.inherit :: bare c.rest = s.tokens ++ bare c'.rest := by
  unfold parseInherit at h
  split at h
  · cases h
  · next cursor hname =>
    split at h
    · cases h
    · next hend =>
      obtain ⟨rfl, rfl⟩ := Prod.mk.inj (Except.ok.inj h)
      rw [parseSymbol_tokens hname, takeSymbols_tokens cursor.line cursor.rest,
        parseToken_tokens hend]
      simp [Statement.tokens]

theorem parseRule_tokens (h : parseRule name c = .ok (s, c')) :
    Token.symbol name :: bare c.rest = s.tokens ++ bare c'.rest := by
  unfold parseRule at h
  split at h
  · cases h
  · next cursor harrow =>
    split at h
    · cases h
    · next halternatives =>
      obtain ⟨rfl, rfl⟩ := Prod.mk.inj (Except.ok.inj h)
      rw [parseToken_tokens harrow, parseAlternatives_tokens halternatives]
      rfl

/-- A statement has been read from its tokens. -/
theorem parseStatement_tokens {head : Located} {rest : List Located}
    (h : parseStatement line head rest = .ok (s, c)) :
    bare (head :: rest) = s.tokens ++ bare c.rest := by
  unfold parseStatement at h
  rw [bare_cons]
  split at h
  · next htoken => rw [htoken]; exact parseStart_tokens h
  · next htoken => rw [htoken]; exact parseInherit_tokens h
  · next htoken => rw [htoken]; exact parseRule_tokens h
  · cases h

theorem parsePrefix_tokens (h : (parsePrefix line ts).2 = none) :
    bare ts = (parsePrefix line ts).1.flatMap Statement.tokens := by
  fun_induction parsePrefix line ts with
  | case1 => rfl
  | case2 => cases h
  | case3 line head rest s c hs ih =>
    rw [parseStatement_tokens hs, ih h, List.flatMap_cons]

/-- Statements have been read from their tokens. -/
theorem parse_tokens {ss : List Statement} (h : parse ts = .ok ss) :
    bare ts = ss.flatMap Statement.tokens := by
  unfold parse at h
  split at h
  · next hparsed =>
    obtain rfl := Except.ok.inj h
    have hnone : (parsePrefix 1 ts).2 = none := by rw [hparsed]
    rw [parsePrefix_tokens hnone, hparsed]
  · cases h

/-! ### Tokens that are scanned -/

/-- The characters are one word wherever they stand: they are symbol characters, and do not start a
comment. -/
structure IsWord (cs : List Char) : Prop where
  /-- There is a character. -/
  ne_nil : cs ≠ []
  /-- All characters are those of symbols. -/
  isSymbolChar : ∀ c ∈ cs, isSymbolChar c = true
  /-- No comment starts here. -/
  not_comment : ¬ ['/', '/'] <+: cs

/-- The token can be written: a symbol by a word that is not a fixed one, and an action by a number
that is not too large. -/
def Token.IsWritten : Token → Prop
  | .symbol name => IsWord name.toList ∧ Token.ofWord name = .symbol name
  | .action number => number ≤ Token.maxAction
  | _ => True

/-- The name is not empty and holds no blank. -/
def IsName (name : String) : Prop :=
  name.isEmpty = false ∧ name.toList.any Text.isBlank = false

/-- A fragment is a word if it is the longest run of symbol characters and no comment. -/
theorem extent_word {ch : Char} {cs : List Char} (h : (extent ch cs).1 = .word) :
    isSymbolChar ch = true ∧ ¬ (ch = '/' ∧ cs.head? = some '/') ∧
      (extent ch cs).2 = (cs.takeWhile isSymbolChar).length := by
  unfold extent at h ⊢
  split at h
  · cases h
  split at h
  · cases h
  split at h
  · cases h
  split at h
  · unfold braceExtent at h
    dsimp only at h
    split at h <;> cases h
  split at h
  · next hspace hbar hsemicolon hbrace hsymbol =>
    rw [if_neg hspace, if_neg hbar, if_neg hsemicolon, if_neg hbrace, if_pos hsymbol]
    unfold wordExtent at h ⊢
    split at h
    · cases h
    · next hslashes =>
      rw [if_neg hslashes]
      exact ⟨hsymbol, hslashes, rfl⟩
  · cases h

theorem isBlank_of_isSymbolChar {ch : Char} (h : isSymbolChar ch = true) :
    Text.isBlank ch = false := by
  unfold isSymbolChar at h
  simp only [Bool.not_eq_true', Bool.or_eq_false_iff] at h
  exact h.1.1.1.1

/-- The fragments that are words would be words anywhere. -/
theorem isWord_of_mem_fragments {cs : List Char} {f : Text.Fragment Form}
    (h : f ∈ Text.fragments extent cs) (hword : f.form = .word) : IsWord f.text := by
  obtain ⟨before, ch, after, -, hform, htext⟩ := Text.extent_of_mem_fragments h
  obtain ⟨hch, hslashes, hlength⟩ := extent_word (hform.symm.trans hword)
  have hrun : after.take (extent ch after).2 = after.takeWhile isSymbolChar := by
    rw [hlength]
    exact (List.prefix_iff_eq_take.1 (List.takeWhile_prefix isSymbolChar)).symm
  rw [htext, hrun]
  refine ⟨List.cons_ne_nil _ _, fun d hd => ?_, fun hcomment => hslashes ?_⟩
  · rcases List.mem_cons.1 hd with rfl | hd
    · exact hch
    · exact List.mem_takeWhile_imp hd
  · obtain ⟨hfirst, hsecond⟩ := List.cons_prefix_cons.1 hcomment
    obtain ⟨rest, hrest⟩ := hsecond.trans (List.takeWhile_prefix isSymbolChar)
    exact ⟨hfirst.symm, by rw [← hrest]; rfl⟩

/-- The token of a word can be written. -/
theorem isWritten_ofWord {word : String} (h : IsWord word.toList) :
    (Token.ofWord word).IsWritten := by
  unfold Token.ofWord
  split
  · trivial
  split
  · trivial
  split
  · trivial
  split
  · trivial
  · next harrow hstart hinherit hempty =>
    refine ⟨h, ?_⟩
    rw [Token.ofWord, if_neg harrow, if_neg hstart, if_neg hinherit, if_neg hempty]

/-- The token of a fragment can be written. -/
theorem isWritten_of_readFragment {cs : List Char} {f : Text.Fragment Form} {t : Token}
    (h : f ∈ Text.fragments extent cs) (hread : readFragment f = .token t) : t.IsWritten := by
  unfold readFragment at hread
  split at hread
  · cases hread
  · cases hread
  · obtain rfl := Reading.token.inj hread
    trivial
  · obtain rfl := Reading.token.inj hread
    trivial
  · next hword =>
    obtain rfl := Reading.token.inj hread
    refine isWritten_ofWord ?_
    rw [Text.Fragment.string, String.toList_ofList]
    exact isWord_of_mem_fragments h hword
  · unfold action? at hread
    dsimp only at hread
    split at hread
    · next hle =>
      obtain rfl := Reading.token.inj hread
      exact hle
    · cases hread
  · cases hread

/-- Every token that is scanned is that of a fragment. -/
theorem exists_fragment_of_mem {fs : List (Text.Fragment Form × Nat)} (h : tokens fs = .ok ts)
    {t : Token} (ht : t ∈ bare ts) : ∃ f ∈ fs.map (·.1), readFragment f = .token t := by
  induction fs generalizing ts with
  | nil =>
    obtain rfl := Except.ok.inj h
    cases ht
  | cons p fs ih =>
    obtain ⟨f, line⟩ := p
    have hlater : ∀ {ts}, tokens fs = .ok ts → t ∈ bare ts →
        ∃ g ∈ ((f, line) :: fs).map (·.1), readFragment g = .token t := by
      intro ts hts hmem
      obtain ⟨g, hg, hread⟩ := ih hts hmem
      exact ⟨g, List.mem_cons_of_mem _ hg, hread⟩
    rw [tokens] at h
    split at h
    · exact hlater h ht
    · next first hfirst =>
      cases hothers : tokens fs with
      | error e => rw [hothers] at h; cases h
      | ok others =>
        rw [hothers] at h
        obtain rfl := Except.ok.inj h
        rcases List.mem_cons.1 ht with rfl | ht
        · exact ⟨f, List.mem_cons_self, hfirst⟩
        · exact hlater hothers ht
    · cases h

/-- The tokens that are scanned can be written. -/
theorem isWritten_of_mem_scan {source : String} {t : Token} (h : scan source = .ok ts)
    (ht : t ∈ bare ts) : t.IsWritten := by
  obtain ⟨f, hf, hread⟩ := exists_fragment_of_mem h ht
  rw [Text.located, Text.map_fst_withLines] at hf
  exact isWritten_of_readFragment hf hread

/-- The tokens of statements that are read can be written. -/
theorem isWritten_of_read {source : String} {ss : List Statement} (h : read source = .ok ss) :
    ∀ t ∈ ss.flatMap Statement.tokens, t.IsWritten := by
  unfold read at h
  split at h
  · cases h
  · next ts hscan =>
    split at h
    · cases h
    · next statements hparse =>
      obtain rfl := Except.ok.inj h
      rw [← parse_tokens hparse]
      exact fun t => isWritten_of_mem_scan hscan

/-! ### Names -/

/-- A symbol that can be written has a name. -/
theorem isName_of_isWritten (h : (Token.symbol name).IsWritten) : IsName name := by
  obtain ⟨hword, -⟩ := h
  refine ⟨?_, ?_⟩
  · simpa using hword.ne_nil
  · rw [List.any_eq_false]
    intro c hc
    simp [isBlank_of_isSymbolChar (hword.isSymbolChar c hc)]

/-- The elements of all alternatives of a rule are among its tokens. -/
theorem token_mem_alternativeTokens {e : Element} {alternative : Alternative}
    {others : List Alternative} (h : ∃ elements ∈ alternative :: others, e ∈ elements) :
    e.token ∈ alternativeTokens alternative others := by
  induction others generalizing alternative with
  | nil =>
    obtain ⟨elements, helements, he⟩ := h
    obtain rfl := List.mem_singleton.1 helements
    exact List.mem_append_left _ (List.mem_map_of_mem he)
  | cons next others ih =>
    obtain ⟨elements, helements, he⟩ := h
    rw [alternativeTokens, List.mem_append, List.mem_cons]
    rcases List.mem_cons.1 helements with rfl | helements
    · exact Or.inl (List.mem_map_of_mem he)
    · exact Or.inr (Or.inr (ih ⟨elements, helements, he⟩))

theorem symbol_mem_tokens (h : name ∈ s.symbolNames) : .symbol name ∈ s.tokens := by
  cases s with
  | start name => cases h
  | inherit name others => cases h
  | rule left alternative others =>
    rcases List.mem_cons.1 h with rfl | h
    · exact List.mem_cons_self
    · obtain ⟨elements, helements, hname⟩ := List.mem_flatMap.1 h
      obtain ⟨e, he, hsome⟩ := List.mem_filterMap.1 hname
      cases e with
      | symbol other =>
        obtain rfl := Option.some.inj hsome
        exact List.mem_cons_of_mem _ (List.mem_cons_of_mem _
          (token_mem_alternativeTokens ⟨elements, helements, he⟩))
      | action a => cases hsome
      | empty => cases hsome

/-- The names of symbols in rules are names that can be read. -/
theorem isName_of_read {source : String} {ss : List Statement} (h : read source = .ok ss) :
    ∀ name ∈ ss.flatMap Statement.symbolNames, IsName name := by
  intro name hname
  obtain ⟨s, hs, hname⟩ := List.mem_flatMap.1 hname
  refine isName_of_isWritten (isWritten_of_read h _ ?_)
  exact List.mem_flatMap.2 ⟨s, hs, symbol_mem_tokens hname⟩

end ArithFrontEnd.GrammarText
