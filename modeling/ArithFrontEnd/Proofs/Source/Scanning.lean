import ArithFrontEnd.Source.Lexeme
import Mathlib.Data.List.TakeWhile

/-!
# What a scan finds

The scanner decides by the first character what a fragment is, and how far it reaches.  The texts
that it finds in this way are those that the form of the fragment admits, and the tokens made of
them are as tokens from a source text are said to be.

## Main results

* `admits_extent` — the text of a fragment is of the class that its form names.
* `isLexical_of_mem_scan` — **the kind and the text of every token of a source text fit together.**
-/

namespace ArithFrontEnd.Source

/-! ### Runs of characters -/

variable {c : Char} {cs : List Char}

theorem take_length_takeWhile (p : Char → Bool) (cs : List Char) :
    cs.take (cs.takeWhile p).length = cs.takeWhile p :=
  (List.prefix_iff_eq_take.1 (List.takeWhile_prefix p)).symm

theorem take_one_of_head? (h : cs.head? = some c) : cs.take 1 = [c] := by
  rw [List.take_one, h]
  rfl

/-- A comment has no closing brace but perhaps as its last character. -/
theorem not_mem_dropLast_comment (cs : List Char) :
    '\x7d' ∉ (cs.take (commentLength cs)).dropLast := by
  induction cs with
  | nil => simp [commentLength]
  | cons c cs ih =>
    rw [commentLength]
    split
    · simp
    · next hc =>
      rw [List.take_succ_cons]
      cases htail : cs.take (commentLength cs) with
      | nil => simp
      | cons d ds =>
        rw [htail] at ih
        rw [List.dropLast_cons_cons, List.mem_cons, not_or]
        exact ⟨Ne.symm hc, ih⟩

/-- A letter is no digit. -/
theorem isDigit_of_isAlpha (h : c.isAlpha = true) : c.isDigit = false := by
  unfold Char.isAlpha Char.isUpper Char.isLower at h
  simp [UInt32.le_iff_toNat_le] at h
  simp [Char.isDigit, UInt32.le_iff_toNat_le]
  omega

/-- Digits with a word after them are a malformed number. -/
theorem isMalformedNumber_append {digits w : List Char} (hdigits : isNumber digits = true)
    (hw : isWord w = true) : isMalformedNumber (digits ++ w) = true := by
  have hall : ∀ x ∈ digits, x.isDigit = true := by
    rw [isNumber, Bool.and_eq_true, List.all_eq_true] at hdigits
    exact hdigits.2
  cases w with
  | nil => cases hw
  | cons d ds =>
    have hd : ¬ d.isDigit = true := by
      rw [isWord, Bool.and_eq_true] at hw
      rw [isDigit_of_isAlpha hw.1]
      decide
    rw [isMalformedNumber, List.takeWhile_append_of_pos hall, List.dropWhile_append_of_pos hall,
      List.takeWhile_cons_of_neg hd, List.dropWhile_cons_of_neg hd, List.append_nil, hdigits, hw]
    rfl

/-- Digits are a number, and with a letter after them they are malformed up to the end of the
word. -/
theorem admits_numberExtent (h : c.isDigit = true) (cs : List Char) :
    (numberExtent cs).1.admits (c :: cs.take (numberExtent cs).2) = true := by
  have hcut := take_length_takeWhile Char.isDigit cs
  have hnumber : isNumber (c :: cs.takeWhile Char.isDigit) = true := by
    simp [isNumber, h]
  unfold numberExtent
  dsimp only
  split
  · dsimp only
    rw [hcut]
    exact hnumber
  · next d ds hdrop =>
    have hcs := List.take_append_drop (cs.takeWhile Char.isDigit).length cs
    rw [hcut, hdrop] at hcs
    split
    · next hd =>
      -- the digits end at the letter `d`, where the word starts
      have htake : cs.take ((cs.takeWhile Char.isDigit).length + 1 +
          (ds.takeWhile Char.isAlphanum).length) =
          cs.takeWhile Char.isDigit ++ d :: ds.takeWhile Char.isAlphanum := by
        generalize cs.takeWhile Char.isDigit = digits at hcs
        rw [← hcs, Nat.add_assoc, List.take_length_add_append, Nat.add_comm 1,
          List.take_succ_cons, take_length_takeWhile]
      have hword : isWord (d :: ds.takeWhile Char.isAlphanum) = true := by
        simp [isWord, hd]
      dsimp only
      rw [htake]
      exact isMalformedNumber_append hnumber hword
    · dsimp only
      rw [hcut]
      exact hnumber

/-- A character that is no operator, starts none and is no delimiter is of no class of its own. -/
theorem not_mem_of_singleton (hplain : ¬ isPlainOperator c = true)
    (hcompare : ¬ (c = '<' ∨ c = '>')) (hdelimiter : ¬ isDelimiter c = true) :
    String.ofList [c] ∉ operators ++ delimiters := by
  intro hmem
  have hall : ((operators ++ delimiters).all fun s => s.toList.length != 1 || s.toList.all fun d =>
      isPlainOperator d || (d == '<' || d == '>') || isDelimiter d) = true := by decide
  have hc := List.all_eq_true.1 hall _ hmem
  simp only [String.toList_ofList, List.length_singleton, bne_self_eq_false, Bool.false_or,
    List.all_cons, List.all_nil, Bool.and_true, Bool.or_eq_true, beq_iff_eq] at hc
  rcases hc with (h | h) | h
  · exact hplain h
  · exact hcompare h
  · exact hdelimiter h

/-- A comparison may be two characters long. -/
theorem admits_comparison (h : c = '<' ∨ c = '>') (cs : List Char) :
    Form.operator.admits (c :: cs.take (if cs.head? = some '=' then 1 else 0)) = true := by
  by_cases hequal : cs.head? = some '='
  · rw [if_pos hequal, take_one_of_head? hequal]
    rcases h with rfl | rfl <;> decide
  · rw [if_neg hequal, List.take_zero]
    rcases h with rfl | rfl <;> decide

/-- The text of a fragment is of the class that its form names. -/
theorem admits_extent (c : Char) (cs : List Char) :
    (extent c cs).1.admits (c :: cs.take (extent c cs).2) = true := by
  unfold extent
  split
  · next hspace =>
    dsimp only
    rw [take_length_takeWhile]
    simp [Form.admits, hspace]
  split
  · next hbrace =>
    subst hbrace
    have hcomment := not_mem_dropLast_comment cs
    simp [Form.admits, isComment, hcomment]
  split
  · next halpha =>
    dsimp only
    rw [take_length_takeWhile]
    simp [Form.admits, isWord, halpha]
  split
  · next hdigit => exact admits_numberExtent hdigit cs
  split
  · next hplain =>
    have hall : (['+', '-', '*', '/', '=', '#'].all fun d => Form.operator.admits [d]) = true := by
      decide
    exact List.all_eq_true.1 hall c (List.contains_iff_mem.1 hplain)
  split
  · next hcompare => exact admits_comparison hcompare cs
  split
  · next hcolon =>
    subst hcolon
    by_cases hequal : cs.head? = some '='
    · rw [if_pos hequal, take_one_of_head? hequal]
      decide
    · rw [if_neg hequal]
      rfl
  split
  · next hdelimiter =>
    have hall : (['(', ')', ',', ';', '.'].all fun d => Form.delimiter.admits [d]) = true := by
      decide
    exact List.all_eq_true.1 hall c (List.contains_iff_mem.1 hdelimiter)
  · next hspace hbrace halpha hdigit hplain hcompare hcolon hdelimiter =>
    have hmem := not_mem_of_singleton hplain hcompare hdelimiter
    show isUnknown [c] = true
    simp [isUnknown, hspace, hbrace, halpha, hdigit, hcolon, Char.isAlphanum] at hmem ⊢
    exact hmem

/-- The text of every fragment of a source text is of the class that its form names. -/
theorem admits_of_mem_fragments {f : Text.Fragment Form} (h : f ∈ Text.fragments extent cs) :
    f.form.admits f.text = true := by
  obtain ⟨before, d, after, -, hform, htext⟩ := Text.extent_of_mem_fragments h
  rw [hform, htext]
  exact admits_extent d after

/-! ### Words in lower case -/

theorem isUpper_toLower (c : Char) : c.toLower.isUpper = false := by
  unfold Char.isUpper Char.toLower
  split <;> grind [UInt32.toNat_add, Char.toNat_val]

theorem isAlpha_toLower (c : Char) : c.toLower.isAlpha = c.isAlpha := by
  unfold Char.isAlpha Char.isUpper Char.isLower Char.toLower
  split <;> grind [UInt32.toNat_add, Char.toNat_val]

theorem isDigit_toLower (c : Char) : c.toLower.isDigit = c.isDigit := by
  unfold Char.isDigit Char.toLower
  split <;> grind [UInt32.toNat_add, Char.toNat_val]

theorem isAlphanum_toLower (c : Char) : c.toLower.isAlphanum = c.isAlphanum := by
  rw [Char.isAlphanum, isAlpha_toLower, isDigit_toLower, Char.isAlphanum]

theorem toLower_eq_self (h : c.isUpper = false) : c.toLower = c := by
  unfold Char.toLower
  refine dif_neg fun hc => ?_
  rw [show c.isUpper = true from decide_eq_true hc] at h
  cases h

/-- A text is a word just if it is one in lower case. -/
theorem isWord_map_toLower (cs : List Char) : isWord (cs.map Char.toLower) = isWord cs := by
  cases cs with
  | nil => rfl
  | cons c cs =>
    have hall : Char.isAlphanum ∘ Char.toLower = Char.isAlphanum := funext isAlphanum_toLower
    rw [List.map_cons, isWord, isWord, isAlpha_toLower, List.all_map, hall]

/-! ### Tokens -/

/-- A word in lower case is a keyword or an identifier. -/
theorem isLexical_wordToken (h : isWord cs = true) (line : Nat) :
    (wordToken (String.ofList (cs.map Char.toLower)) line).IsLexical := by
  unfold wordToken Token.IsLexical
  split
  · assumption
  · next hkeyword =>
    have hlower : ∀ c ∈ cs.map Char.toLower, c.isUpper = false := by
      intro c hc
      obtain ⟨d, -, rfl⟩ := List.mem_map.1 hc
      exact isUpper_toLower d
    simp only [TokenKind.admits, String.toList_ofList, isWord_map_toLower, h,
      Bool.true_and, Bool.and_eq_true, Bool.not_eq_true', List.all_eq_true]
    exact ⟨hlower, Bool.eq_false_iff.2 hkeyword⟩

/-- The token of a fragment is as the form of the fragment says. -/
theorem isLexical_of_token? {f : Text.Fragment Form} (hadmits : f.form.admits f.text = true)
    {line : Nat} {token : Token} (h : token? f line = some token) : token.IsLexical := by
  obtain ⟨form, text⟩ := f
  cases form with
  | blank => cases h
  | comment => cases h
  | word =>
    obtain rfl := Option.some.inj h
    exact isLexical_wordToken hadmits line
  | _ =>
    obtain rfl := Option.some.inj h
    simp only [Form.admits] at hadmits
    simp only [Token.IsLexical, TokenKind.admits, Text.Fragment.string, String.toList_ofList,
      hadmits, Bool.or_true, Bool.true_or]

end ArithFrontEnd.Source

namespace ArithFrontEnd.Token

open Source in
/-- The kind and the text of every token of a source text fit together. -/
theorem isLexical_of_mem_scan {source : String} {token : Token} (h : token ∈ scan source) :
    token.IsLexical := by
  obtain ⟨⟨f, line⟩, hmem, htoken⟩ := List.mem_filterMap.1 h
  have hf : f ∈ Text.fragments extent source.toList := by
    rw [← Text.map_fst_withLines 1 (Text.fragments extent source.toList)]
    exact List.mem_map_of_mem hmem
  exact isLexical_of_token? (admits_of_mem_fragments hf) htoken

end ArithFrontEnd.Token
