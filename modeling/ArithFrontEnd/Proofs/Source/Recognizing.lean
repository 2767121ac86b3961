import ArithFrontEnd.Proofs.Source.Scanning
import ArithFrontEnd.Proofs.Text.LongestMatch

/-!
# What the scanner recognizes

The classes of lexemes are told apart by their first character, or by what follows the digits or the
colon that they begin with.  So the scanner takes every text of a class as a whole, and takes no
less of it when more characters follow: its fragments are the longest matches.

## Main results

* `extent_of_admits` — a text of a class is a fragment of this form.
* `extent_le_append` — a fragment gets no shorter when more characters follow.
* `recognizes` — **the scanner finds longest matches.**
-/

namespace ArithFrontEnd.Source

variable {c : Char} {cs : List Char}

/-! ### Comments -/

/-- A comment without a closing brace reaches to the end, and one with a closing brace up to it. -/
theorem commentLength_of_not_mem_dropLast (h : '\x7d' ∉ cs.dropLast) :
    commentLength cs = cs.length := by
  induction cs with
  | nil => rfl
  | cons c cs ih =>
    cases cs with
    | nil =>
      rw [commentLength]
      split <;> rfl
    | cons d cs =>
      rw [List.dropLast_cons_cons, List.mem_cons, not_or] at h
      rw [commentLength, if_neg (Ne.symm h.1), ih h.2]
      rfl

theorem commentLength_append_closing (h : '\x7d' ∉ cs) (rest : List Char) :
    commentLength (cs ++ '\x7d' :: rest) = cs.length + 1 := by
  induction cs with
  | nil => rfl
  | cons c cs ih =>
    rw [List.mem_cons, not_or] at h
    rw [List.cons_append, commentLength, if_neg (Ne.symm h.1), ih h.2]
    rfl

theorem commentLength_le_append (cs more : List Char) :
    commentLength cs ≤ commentLength (cs ++ more) := by
  induction cs with
  | nil => exact Nat.zero_le _
  | cons c cs ih =>
    rw [List.cons_append, commentLength, commentLength]
    split
    · exact Nat.le_refl _
    · exact Nat.succ_le_succ ih

/-! ### Numbers -/

theorem numberExtent_of_isDigit (h : c.isDigit = true) (cs : List Char) :
    numberExtent (c :: cs) = ((numberExtent cs).1, (numberExtent cs).2 + 1) := by
  unfold numberExtent
  rw [List.takeWhile_cons_of_pos h, List.length_cons]
  dsimp only
  rw [List.drop_succ_cons]
  split
  · rfl
  · split
    · rw [Nat.add_right_comm _ 1]
    · rfl

theorem numberExtent_of_not_isDigit (h : ¬ c.isDigit = true) (cs : List Char) :
    numberExtent (c :: cs) =
      if c.isAlpha then (.malformedNumber, 1 + (cs.takeWhile Char.isAlphanum).length)
      else (.number, 0) := by
  unfold numberExtent
  rw [List.takeWhile_cons_of_neg h]
  simp

theorem numberExtent_of_digits (h : ∀ d ∈ cs, d.isDigit = true) :
    numberExtent cs = (.number, cs.length) := by
  induction cs with
  | nil => rfl
  | cons c cs ih =>
    obtain ⟨hc, hcs⟩ := List.forall_mem_cons.1 h
    rw [numberExtent_of_isDigit hc, ih hcs]
    rfl

theorem takeWhile_isAlphanum_of_isWord (h : isWord (c :: cs) = true) :
    c.isAlpha = true ∧ cs.takeWhile Char.isAlphanum = cs := by
  rw [isWord, Bool.and_eq_true, List.all_eq_true] at h
  exact ⟨h.1, List.takeWhile_eq_self_iff.2 h.2⟩

theorem numberExtent_append_word {digits w : List Char} (hdigits : ∀ d ∈ digits, d.isDigit = true)
    (hw : isWord w = true) :
    numberExtent (digits ++ w) = (.malformedNumber, (digits ++ w).length) := by
  induction digits with
  | nil =>
    cases w with
    | nil => cases hw
    | cons d w =>
      obtain ⟨halpha, htake⟩ := takeWhile_isAlphanum_of_isWord hw
      have hdigit : ¬ d.isDigit = true := by
        rw [isDigit_of_isAlpha halpha]
        decide
      rw [List.nil_append, numberExtent_of_not_isDigit hdigit, if_pos halpha, htake, Nat.add_comm,
        List.length_cons]
  | cons d digits ih =>
    obtain ⟨hd, hdigits⟩ := List.forall_mem_cons.1 hdigits
    rw [List.cons_append, numberExtent_of_isDigit hd, ih hdigits]
    rfl

theorem length_takeWhile_le_append (p : Char → Bool) (cs more : List Char) :
    (cs.takeWhile p).length ≤ ((cs ++ more).takeWhile p).length := by
  rw [List.takeWhile_append]
  split
  · rw [List.length_append]
    omega
  · exact Nat.le_refl _

theorem numberExtent_le_append (cs more : List Char) :
    (numberExtent cs).2 ≤ (numberExtent (cs ++ more)).2 := by
  induction cs with
  | nil => exact Nat.zero_le _
  | cons c cs ih =>
    rw [List.cons_append]
    by_cases hdigit : c.isDigit = true
    · rw [numberExtent_of_isDigit hdigit, numberExtent_of_isDigit hdigit]
      exact Nat.succ_le_succ ih
    · rw [numberExtent_of_not_isDigit hdigit, numberExtent_of_not_isDigit hdigit]
      split
      · exact Nat.add_le_add_left (length_takeWhile_le_append _ cs more) 1
      · exact Nat.le_refl _

/-! ### Fragments -/

/-- No letter or digit is a blank or a brace. -/
theorem not_isSpace_of_isAlphanum (h : c.isAlphanum = true) :
    ¬ isSpace c = true ∧ c ≠ '\x7b' := by
  refine ⟨fun hspace => ?_, ?_⟩
  · simp only [isSpace, Bool.or_eq_true, beq_iff_eq] at hspace
    rcases hspace with ((((rfl | rfl) | rfl) | rfl) | rfl) | rfl <;> contradiction
  · rintro rfl
    contradiction

theorem extent_of_isAlpha (h : c.isAlpha = true) (cs : List Char) :
    extent c cs = (.word, (cs.takeWhile Char.isAlphanum).length) := by
  obtain ⟨hspace, hbrace⟩ := not_isSpace_of_isAlphanum (Bool.or_eq_true_iff.2 (.inl h))
  rw [extent, if_neg hspace, if_neg hbrace, if_pos h]

theorem extent_of_isDigit (h : c.isDigit = true) (cs : List Char) :
    extent c cs = numberExtent cs := by
  obtain ⟨hspace, hbrace⟩ := not_isSpace_of_isAlphanum (Bool.or_eq_true_iff.2 (.inr h))
  have halpha : ¬ c.isAlpha = true := by
    intro halpha
    rw [isDigit_of_isAlpha halpha] at h
    contradiction
  rw [extent, if_neg hspace, if_neg hbrace, if_neg halpha, if_pos h]

/-- An operator or a delimiter is a fragment. -/
theorem extent_of_mem {texts : List String} {form : Form}
    (hall : (texts.all fun s => s.toList.head?.all fun c =>
      extent c s.toList.tail == (form, s.toList.tail.length)) = true)
    (h : texts.contains (String.ofList (c :: cs)) = true) : extent c cs = (form, cs.length) := by
  have htext := List.all_eq_true.1 hall _ (List.contains_iff_mem.1 h)
  rw [String.toList_ofList] at htext
  exact beq_iff_eq.1 htext

/-- A character with which no other text begins is a fragment. -/
theorem extent_of_isUnknown (h : isUnknown (c :: cs) = true) :
    extent c cs = (.unknown, cs.length) := by
  cases cs with
  | cons d cs => cases h
  | nil =>
    simp only [isUnknown, Bool.not_eq_true', Bool.or_eq_false_iff, beq_eq_false_iff_ne,
      Char.isAlphanum] at h
    obtain ⟨⟨⟨⟨hspace, hbrace⟩, halpha, hdigit⟩, hcolon⟩, htext⟩ := h
    -- a character that makes an operator or a delimiter is one of these texts
    have hknown : ∀ ds : List Char,
        (ds.all fun d => (operators ++ delimiters).contains (String.ofList [d])) = true →
        ¬ ds.contains c = true := by
      intro ds hall hc
      rw [List.all_eq_true.1 hall c (List.contains_iff_mem.1 hc)] at htext
      cases htext
    have hplain : ¬ isPlainOperator c = true := hknown _ (by decide)
    have hcompare : ¬ (c = '<' ∨ c = '>') := by
      have hcontains := hknown ['<', '>'] (by decide)
      simpa using hcontains
    have hdelimiter : ¬ isDelimiter c = true := hknown _ (by decide)
    rw [extent, if_neg (Bool.eq_false_iff.1 hspace), if_neg hbrace,
      if_neg (Bool.eq_false_iff.1 halpha), if_neg (Bool.eq_false_iff.1 hdigit), if_neg hplain,
      if_neg hcompare, if_neg hcolon, if_neg hdelimiter]
    rfl

/-- A text of a class is a fragment of this form. -/
theorem extent_of_admits {form : Form} (h : form.admits (c :: cs) = true) :
    extent c cs = (form, cs.length) := by
  cases form with
  | blank =>
    simp only [Form.admits, List.isEmpty_cons, Bool.not_false, Bool.true_and, List.all_cons,
      Bool.and_eq_true, List.all_eq_true] at h
    rw [extent, if_pos h.1, List.takeWhile_eq_self_iff.2 h.2]
  | comment =>
    simp only [Form.admits, isComment, Bool.and_eq_true, beq_iff_eq, Bool.not_eq_true',
      List.contains_eq_mem, decide_eq_false_iff_not] at h
    obtain ⟨rfl, hbrace⟩ := h
    exact congrArg (Prod.mk Form.comment) (commentLength_of_not_mem_dropLast hbrace)
  | word =>
    obtain ⟨halpha, htake⟩ := takeWhile_isAlphanum_of_isWord h
    rw [extent_of_isAlpha halpha, htake]
  | number =>
    simp only [Form.admits, isNumber, List.isEmpty_cons, Bool.not_false, Bool.true_and,
      List.all_cons, Bool.and_eq_true, List.all_eq_true] at h
    rw [extent_of_isDigit h.1, numberExtent_of_digits h.2]
  | malformedNumber =>
    rw [Form.admits, isMalformedNumber, Bool.and_eq_true] at h
    obtain ⟨hnumber, hword⟩ := h
    by_cases hdigit : c.isDigit = true
    · rw [List.dropWhile_cons_of_pos hdigit] at hword
      have hsplit := List.takeWhile_append_dropWhile (p := Char.isDigit) (l := cs)
      rw [extent_of_isDigit hdigit, ← hsplit]
      exact numberExtent_append_word (fun d => List.mem_takeWhile_imp) hword
    · rw [List.takeWhile_cons_of_neg hdigit] at hnumber
      cases hnumber
  | operator => exact extent_of_mem (by decide) h
  | loneColon =>
    obtain ⟨rfl, rfl⟩ := List.cons.inj (beq_iff_eq.1 h)
    rfl
  | delimiter => exact extent_of_mem (by decide) h
  | unknown => exact extent_of_isUnknown h

/-- A fragment gets no shorter when more characters follow. -/
theorem extent_le_append (c : Char) (cs more : List Char) :
    (extent c cs).2 ≤ (extent c (cs ++ more)).2 := by
  unfold extent
  by_cases hspace : isSpace c = true
  · rw [if_pos hspace, if_pos hspace]
    exact length_takeWhile_le_append isSpace cs more
  rw [if_neg hspace, if_neg hspace]
  by_cases hbrace : c = '\x7b'
  · rw [if_pos hbrace, if_pos hbrace]
    exact commentLength_le_append cs more
  rw [if_neg hbrace, if_neg hbrace]
  by_cases halpha : c.isAlpha = true
  · rw [if_pos halpha, if_pos halpha]
    exact length_takeWhile_le_append Char.isAlphanum cs more
  rw [if_neg halpha, if_neg halpha]
  by_cases hdigit : c.isDigit = true
  · rw [if_pos hdigit, if_pos hdigit]
    exact numberExtent_le_append cs more
  rw [if_neg hdigit, if_neg hdigit]
  cases cs with
  | nil =>
    -- nothing is taken after the first character
    refine Nat.le_trans (Nat.le_of_eq ?_) (Nat.zero_le _)
    simp [apply_ite Prod.snd]
  | cons d cs => exact Nat.le_refl _

/-- The scanner finds longest matches. -/
theorem recognizes : Text.Extent.Recognizes extent Form.admits where
  ne_nil := Form.admits_ne_nil
  admits_extent := admits_extent
  extent_of_admits := extent_of_admits
  extent_le_append := extent_le_append

end ArithFrontEnd.Source
