import ArithFrontEnd.Quadruple.Listing
import Mathlib.Data.List.Basic

/-!
# Lines that are joined and split again

A text is put together from lines that are followed by a line end, and a rest without one.  If the
lines themselves hold no line feed, splitting the text gives them back, but for a carriage return at
the end of a line, which a line feed takes along.  If they hold no carriage return either, the
layout that is detected tells whether there is a line end, of which kind it is, and whether the text
ends in one.

## Main definitions

* `IsLine` — a text that fits on a line.
* `terminated` — lines that are followed by line ends.
* `HasLineEnds` — a text of such lines, whose line ends are all of one kind.
* `rereadLine` — what is read of a line that is followed by a line end.

## Main results

* `fields_intercalate` — splitting gives back the fields that have been joined.
* `lineTexts_rereadLine`, `lineTexts_terminated` — **splitting gives back the lines that have been
  joined.**
* `detect_crlf`, `detect_finalNewline` — the layout that is detected.
-/

namespace ArithFrontEnd.Text

/-- The text fits on a line: it holds no carriage return and no line feed. -/
def IsLine (cs : List Char) : Prop := '\r' ∉ cs ∧ '\n' ∉ cs

/-- The lines, each followed by the line end. -/
def terminated (layout : Layout) (lines : List (List Char)) : List Char :=
  lines.flatMap (· ++ layout.terminator.toList)

/-- All line ends of the text are of this kind, and it holds no other carriage return or line
feed: the text is made of lines that are followed by such ends, and what comes after the last. -/
def HasLineEnds (layout : Layout) (text : List Char) : Prop :=
  ∃ lines rest, (∀ line ∈ lines, IsLine line) ∧ IsLine rest ∧
    text = terminated layout lines ++ rest

variable {layout : Layout} {line rest : List Char} {lines : List (List Char)}

/-! ### Fields -/

theorem fields_eq_splitOn (separator : Char) (cs : List Char) :
    fields separator cs = cs.splitOn separator := by
  induction cs with
  | nil => rfl
  | cons c cs ih =>
    rw [fields, ih, List.splitOn_cons_eq_if_modifyHead]
    by_cases h : c = separator
    · simp [h]
    · obtain ⟨f, fs, heq⟩ := List.exists_cons_of_ne_nil (List.splitOn_ne_nil separator cs)
      simp [h, heq]

/-- Splitting gives back the fields that have been joined. -/
theorem fields_intercalate {separator : Char} {parts : List (List Char)}
    (h : ∀ part ∈ parts, separator ∉ part) (hne : parts ≠ []) :
    fields separator (List.intercalate [separator] parts) = parts := by
  rw [fields_eq_splitOn, List.splitOn_intercalate separator h hne]

/-! ### Lines -/

theorem toList_terminator (layout : Layout) :
    layout.terminator.toList = if layout.crlf then ['\r', '\n'] else ['\n'] := by
  unfold Layout.terminator
  split <;> rfl

/-- A text ends in a carriage return that is taken away, or nothing is. -/
theorem stripReturn_cases (cs : List Char) :
    (∃ front, cs = front ++ ['\r'] ∧ stripReturn cs = front) ∨
      (¬ ['\r'] <:+ cs ∧ stripReturn cs = cs) := by
  unfold stripReturn
  split
  · next hlast =>
    obtain ⟨front, rfl⟩ := List.getLast?_eq_some_iff.1 hlast
    exact Or.inl ⟨front, rfl, List.dropLast_concat⟩
  · next hlast =>
    refine Or.inr ⟨?_, rfl⟩
    rintro ⟨front, rfl⟩
    exact hlast List.getLast?_concat

theorem stripReturn_concat (cs : List Char) : stripReturn (cs ++ ['\r']) = cs := by
  simp [stripReturn]

theorem stripReturn_of_isLine (h : IsLine line) : stripReturn line = line :=
  if_neg fun hlast => h.1 (List.mem_of_getLast? hlast)

theorem stripReturn_sublist (cs : List Char) : (stripReturn cs).Sublist cs := by
  rcases stripReturn_cases cs with ⟨front, rfl, heq⟩ | ⟨-, heq⟩
  · rw [heq]
    exact List.sublist_append_left front ['\r']
  · rw [heq]

/-- Nothing is left to be taken away if there were not two carriage returns. -/
theorem stripReturn_stripReturn_eq_iff (cs : List Char) :
    stripReturn (stripReturn cs) = stripReturn cs ↔ ¬ ['\r', '\r'] <:+ cs := by
  rcases stripReturn_cases cs with ⟨front, rfl, heq⟩ | ⟨hnot, heq⟩
  · rw [heq]
    have hsuffix : ['\r', '\r'] <:+ front ++ ['\r'] ↔ ['\r'] <:+ front := by
      constructor
      · rintro ⟨front', h⟩
        have hconcat : front' ++ ['\r'] ++ ['\r'] = front ++ ['\r'] := by simpa using h
        exact ⟨front', List.append_cancel_right hconcat⟩
      · rintro ⟨front', rfl⟩
        exact ⟨front', by simp⟩
    rw [hsuffix]
    rcases stripReturn_cases front with ⟨front', rfl, heq'⟩ | ⟨hnot, heq'⟩
    · simp [heq']
    · simp [heq', hnot]
  · have hnot' : ¬ ['\r', '\r'] <:+ cs := fun h => hnot ((List.suffix_cons _ _).trans h)
    simp [heq, hnot']

/-- A carriage return at the end is after the first character, unless it is the first. -/
theorem stripReturn_cons {c : Char} (h : c = '\r' → line ≠ []) :
    stripReturn (c :: line) = c :: stripReturn line := by
  unfold stripReturn
  cases line with
  | nil =>
    have hc : c ≠ '\r' := fun heq => h heq rfl
    simp [hc]
  | cons d line =>
    rw [List.getLast?_cons_cons]
    split <;> rfl

/-- A carriage return at the end is after the last character that is none. -/
theorem stripReturn_append_cons {c : Char} (hc : c ≠ '\r') (front : List Char) :
    stripReturn (front ++ c :: line) = front ++ c :: stripReturn line := by
  induction front with
  | nil => exact stripReturn_cons fun heq => absurd heq hc
  | cons d front ih => rw [List.cons_append, stripReturn_cons (by simp), ih, List.cons_append]

/-- A character that starts no line end belongs to the first line. -/
theorem lineTexts_cons {c : Char} {cs : List Char} (hc : c ≠ '\n')
    (hreturn : c = '\r' → cs.head? ≠ some '\n') :
    lineTexts (c :: cs) =
      match lineTexts cs with
      | [] => [[c]]
      | l :: ls => (c :: l) :: ls := by
  rw [lineTexts.eq_def]
  split
  · next heq => cases heq
  · next heq =>
    obtain ⟨rfl, rfl⟩ := List.cons.inj heq
    exact absurd rfl (hreturn rfl)
  · next heq => exact absurd (List.cons.inj heq).1 hc
  · next heq =>
    obtain ⟨rfl, rfl⟩ := List.cons.inj heq
    rfl

theorem head?_ne_of_not_mem (h : '\n' ∉ line) : line.head? ≠ some '\n' :=
  fun hhead => h (List.mem_of_head? hhead)

/-- A text without line feeds is one line, if it is not empty. -/
theorem lineTexts_of_not_mem (h : '\n' ∉ line) :
    lineTexts line = if line = [] then [] else [line] := by
  induction line with
  | nil => rfl
  | cons c cs ih =>
    obtain ⟨hc, hcs⟩ := not_or.1 (mt List.mem_cons.2 h)
    rw [lineTexts_cons (Ne.symm hc) fun _ => head?_ne_of_not_mem hcs, ih hcs]
    cases cs <;> rfl

/-- What comes before a line feed is a line, without the carriage return at its end. -/
theorem lineTexts_append (h : '\n' ∉ line) (cs : List Char) :
    lineTexts (line ++ '\n' :: cs) = stripReturn line :: lineTexts cs := by
  induction line with
  | nil => rfl
  | cons c line ih =>
    obtain ⟨hc, hline⟩ := not_or.1 (mt List.mem_cons.2 h)
    by_cases hreturn : c = '\r' ∧ line = []
    · obtain ⟨rfl, rfl⟩ := hreturn
      rfl
    · have hne : c = '\r' → line ≠ [] := fun heq hnil => hreturn ⟨heq, hnil⟩
      have hhead : c = '\r' → (line ++ '\n' :: cs).head? ≠ some '\n' := fun heq => by
        rw [List.head?_append_of_ne_nil _ (hne heq)]
        exact head?_ne_of_not_mem hline
      rw [List.cons_append, lineTexts_cons (Ne.symm hc) hhead, ih hline, stripReturn_cons hne]

/-- What is read of a line that is followed by a line end: a line feed takes a carriage return
before it along. -/
def rereadLine (layout : Layout) (line : List Char) : List Char :=
  if layout.crlf then line else stripReturn line

/-- Splitting gives back the lines that have been joined, with the rest if it is not empty, but for
carriage returns before line feeds. -/
theorem lineTexts_rereadLine (layout : Layout) (hlines : ∀ line ∈ lines, '\n' ∉ line)
    (hrest : '\n' ∉ rest) : lineTexts (terminated layout lines ++ rest) =
      lines.map (rereadLine layout) ++ if rest = [] then [] else [rest] := by
  induction lines with
  | nil => exact lineTexts_of_not_mem hrest
  | cons line lines ih =>
    obtain ⟨hline, hlines⟩ := List.forall_mem_cons.1 hlines
    have hfirst : ∀ cs, lineTexts (line ++ (layout.terminator.toList ++ cs)) =
        rereadLine layout line :: lineTexts cs := by
      intro cs
      rw [toList_terminator, rereadLine]
      split
      · -- the carriage return that is read away is that of the line end
        have hreturn : '\n' ∉ line ++ ['\r'] := by simpa using hline
        have hsplit := lineTexts_append hreturn cs
        rwa [stripReturn_concat, List.append_assoc] at hsplit
      · exact lineTexts_append hline cs
    rw [terminated, List.flatMap_cons, List.append_assoc, List.append_assoc, hfirst, ← terminated,
      ih hlines, List.map_cons, List.cons_append]

/-- Splitting gives back the lines that have been joined, with the rest if it is not empty. -/
theorem lineTexts_terminated (layout : Layout) (hlines : ∀ line ∈ lines, IsLine line)
    (hrest : IsLine rest) :
    lineTexts (terminated layout lines ++ rest) = lines ++ if rest = [] then [] else [rest] := by
  have hreread : lines.map (rereadLine layout) = lines := by
    have hline : ∀ line ∈ lines, rereadLine layout line = line := by
      intro line hline
      rw [rereadLine, stripReturn_of_isLine (hlines line hline), ite_self]
    rw [List.map_congr_left hline, List.map_id']
  rw [lineTexts_rereadLine layout (fun line hline => (hlines line hline).2) hrest.2, hreread]

/-- No line holds a line feed. -/
theorem not_mem_of_mem_lineTexts {text : List Char} (h : line ∈ lineTexts text) :
    '\n' ∉ line := by
  induction text using lineTexts.induct generalizing line with
  | case1 => cases h
  | case2 cs ih =>
    rcases List.mem_cons.1 h with rfl | h
    · exact List.not_mem_nil
    · exact ih h
  | case3 cs ih =>
    rcases List.mem_cons.1 h with rfl | h
    · exact List.not_mem_nil
    · exact ih h
  | case4 c cs hcrlf hc hnil ih | case5 c cs hcrlf hc l ls hlines ih =>
    have hreturn : c = '\r' → cs.head? ≠ some '\n' := by
      intro heq hhead
      obtain ⟨cs', hcs⟩ := List.head?_eq_some_iff.1 hhead
      exact hcrlf cs' heq hcs
    rw [lineTexts_cons hc hreturn] at h
    split at h
    · rw [List.mem_singleton.1 h, List.mem_singleton]
      exact fun heq => hc heq.symm
    · next l ls heq =>
      rw [heq] at ih
      rcases List.mem_cons.1 h with rfl | h
      · have hl := ih List.mem_cons_self
        exact fun hmem => (List.mem_cons.1 hmem).elim (fun heq => hc heq.symm) hl
      · exact ih (List.mem_cons_of_mem l h)

/-! ### Layouts -/

theorem getLast?_ne_of_isLine (h : IsLine line) :
    line.getLast? ≠ some '\r' ∧ line.getLast? ≠ some '\n' :=
  ⟨fun hlast => h.1 (List.mem_of_getLast? hlast), fun hlast => h.2 (List.mem_of_getLast? hlast)⟩

/-- A text ends in a line end if nothing comes after the last one. -/
theorem detect_finalNewline (layout : Layout) (lines : List (List Char)) (hrest : IsLine rest) :
    (Layout.detect (terminated layout lines ++ rest)).finalNewline = decide (rest = []) := by
  unfold Layout.detect
  by_cases hnil : rest = []
  · rw [hnil, List.append_nil, decide_eq_true rfl]
    rcases List.eq_nil_or_concat' lines with rfl | ⟨lines, line, rfl⟩
    · rfl
    · have hlast : (terminated layout (lines ++ [line])).getLast? = some '\n' := by
        rw [terminated, List.flatMap_append, List.flatMap_singleton, toList_terminator]
        split <;> simp
      simp [hlast]
  · simp [hnil, (getLast?_ne_of_isLine hrest).2]

/-- The first line tells of which kind line ends are, if there are any. -/
theorem detect_crlf (layout : Layout) (hlines : ∀ line ∈ lines, IsLine line)
    (hrest : IsLine rest) :
    (Layout.detect (terminated layout lines ++ rest)).crlf = (layout.crlf && !lines.isEmpty) := by
  unfold Layout.detect
  cases lines with
  | nil => simp [terminated, hrest.2]
  | cons line lines =>
    have hline := hlines line (by simp)
    have hkeep : ∀ c ∈ line, (c != '\n') = true := fun c hc => by
      have hne : c ≠ '\n' := fun heq => hline.2 (heq ▸ hc)
      simpa using hne
    have htext : terminated layout (line :: lines) ++ rest =
        line ++ (layout.terminator.toList ++ (terminated layout lines ++ rest)) := by
      simp [terminated]
    rw [htext, List.takeWhile_append_of_pos hkeep, toList_terminator]
    cases layout.crlf with
    | true => simp
    | false => simp [(getLast?_ne_of_isLine hline).1]

/-- Lines with line ends between them, of which the last one is left out. -/
theorem intercalate_concat (layout : Layout) (lines : List (List Char)) (rest : List Char) :
    List.intercalate layout.terminator.toList (lines ++ [rest]) =
      terminated layout lines ++ rest := by
  induction lines with
  | nil => simp [terminated]
  | cons line lines ih =>
    rw [List.cons_append, List.intercalate_cons_of_ne_nil (by simp), ih, terminated, terminated,
      List.flatMap_cons, List.append_assoc, List.append_assoc, List.append_assoc]

end ArithFrontEnd.Text
