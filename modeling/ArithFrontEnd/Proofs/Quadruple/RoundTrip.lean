import ArithFrontEnd.Proofs.Text.Lines
import Mathlib.Data.List.Forall2

/-!
# Listings are read and written back

A listing is written as lines of its quadruples, and a text is read line by line, so each direction
undoes the other as far as nothing is lost on the way.  A text loses its blank lines and the kinds
of its line ends, of which only the first is remembered.  A listing loses the bounds of its fields
if they hold commas or line ends, and the kind of line ends that its text does not have.

## Main definitions

* `Quadruple.IsPlain` — the fields of a quadruple fit between the commas of a line.
* `Quadruple.IsWritable`, `Quadruple.trimmed` — a line is read as one quadruple, and as which one.

## Main results

* `line_of_ofLine`, `ofLine_line` — a line is read and written back, and the other way round.
* `toList_text` — a listing is written as lines with its line ends.
* `quadsOfLines_lines`, `lines_of_quadsOfLines` — the same for many lines.
* `listing_round_trip` — **texts and listings are read and written back.**
-/

namespace ArithFrontEnd

open Text

namespace Quadruple

/-- No field holds a comma, a carriage return or a line feed. -/
def IsPlain (q : Quadruple) : Prop :=
  ∀ field ∈ q.fields, ',' ∉ field.toList ∧ IsLine field.toList

variable {q : Quadruple} {cs : List Char} {number : Nat}

theorem toList_line (q : Quadruple) :
    q.line.toList = List.intercalate [','] (q.fields.map String.toList) :=
  String.toList_intercalate

theorem comma_mem_line (q : Quadruple) : ',' ∈ q.line.toList := by
  rw [toList_line, fields, List.map_cons, List.map_cons, List.intercalate_cons_cons]
  simp

/-- The line of a quadruple is not blank. -/
theorem not_blank_line (q : Quadruple) : q.line.toList.all isBlank = false :=
  List.all_eq_false.2 ⟨',', q.comma_mem_line, by decide⟩

/-- The fields of a plain quadruple fit on a line. -/
theorem isLine_line (hq : q.IsPlain) : IsLine q.line.toList := by
  have hmem : ∀ c ∈ q.line.toList, c = ',' ∨ ∃ field ∈ q.fields, c ∈ field.toList := by
    intro c hc
    rw [toList_line, fields] at hc
    simp only [List.map_cons, List.map_nil, List.intercalate_cons_cons,
      List.intercalate_singleton, List.mem_append, List.mem_singleton] at hc
    simp only [fields, List.mem_cons, List.not_mem_nil, or_false, exists_eq_or_imp,
      exists_eq_left]
    tauto
  constructor
  · intro hc
    rcases hmem _ hc with heq | ⟨field, hfield, hc⟩
    · exact absurd heq (by decide)
    · exact (hq field hfield).2.1 hc
  · intro hc
    rcases hmem _ hc with heq | ⟨field, hfield, hc⟩
    · exact absurd heq (by decide)
    · exact (hq field hfield).2.2 hc

/-- The quadruple without the carriage return at the end of its result, if it has one. -/
def trimmed (q : Quadruple) : Quadruple :=
  { q with result := String.ofList (stripReturn q.result.toList) }

/-- The result is at the end of the line, after a comma. -/
theorem exists_toList_line (op operand1 operand2 : String) : ∃ front : List Char,
    ∀ result, (line ⟨op, operand1, operand2, result⟩).toList = front ++ ',' :: result.toList := by
  refine ⟨op.toList ++ ',' :: (operand1.toList ++ ',' :: operand2.toList), fun result => ?_⟩
  rw [toList_line, fields]
  simp [List.intercalate_cons_cons]

/-- A carriage return at the end of the line is one at the end of the result. -/
theorem toList_line_trimmed (q : Quadruple) :
    q.trimmed.line.toList = stripReturn q.line.toList := by
  obtain ⟨op, operand1, operand2, result⟩ := q
  obtain ⟨front, hfront⟩ := exists_toList_line op operand1 operand2
  rw [trimmed, hfront, hfront, String.toList_ofList, stripReturn_append_cons (by decide)]

theorem trimmed_eq_self_iff : q.trimmed = q ↔ stripReturn q.line.toList = q.line.toList := by
  rw [← toList_line_trimmed]
  constructor
  · intro h
    rw [h]
  · intro h
    obtain ⟨op, operand1, operand2, result⟩ := q
    obtain ⟨front, hfront⟩ := exists_toList_line op operand1 operand2
    rw [trimmed, hfront, hfront] at h
    have hresult := (List.cons.inj (List.append_cancel_left h)).2
    rw [trimmed, String.toList_injective hresult]

theorem trimmed_of_isPlain (hq : q.IsPlain) : q.trimmed = q :=
  trimmed_eq_self_iff.2 (stripReturn_of_isLine (isLine_line hq))

/-- No field holds a comma, and there is no line feed: the line can be told from others, and the
fields from each other. -/
structure IsWritable (q : Quadruple) : Prop where
  /-- No field holds a comma. -/
  comma_not_mem {field : String} (h : field ∈ q.fields) : ',' ∉ field.toList
  /-- The line holds no line feed. -/
  newline_not_mem : '\n' ∉ q.line.toList

theorem IsPlain.isWritable (hq : q.IsPlain) : q.IsWritable :=
  ⟨fun hfield => (hq _ hfield).1, (isLine_line hq).2⟩

theorem IsWritable.trimmed (hq : q.IsWritable) : q.trimmed.IsWritable where
  comma_not_mem {field} h := by
    have hmem : q.result ∈ q.fields := by simp [fields]
    have hresult : ',' ∉ stripReturn q.result.toList := fun hcomma =>
      hq.comma_not_mem hmem ((stripReturn_sublist _).subset hcomma)
    simp only [fields, Quadruple.trimmed, List.mem_cons, List.not_mem_nil, or_false] at h
    rcases h with rfl | rfl | rfl | rfl
    · exact hq.comma_not_mem (by simp [fields])
    · exact hq.comma_not_mem (by simp [fields])
    · exact hq.comma_not_mem (by simp [fields])
    · rwa [String.toList_ofList]
  newline_not_mem := by
    rw [toList_line_trimmed]
    exact fun hmem => hq.newline_not_mem ((stripReturn_sublist _).subset hmem)

/-- The line of a quadruple is read as the quadruple, but for a carriage return at the end. -/
theorem ofLine_line (hq : q.IsWritable) (number : Nat) :
    ofLine number q.line.toList = .ok q.trimmed := by
  have hfields : Text.fields ',' (stripReturn q.line.toList) =
      q.trimmed.fields.map String.toList := by
    rw [← toList_line_trimmed, toList_line]
    refine fields_intercalate (fun part hpart => ?_) (by simp [fields])
    obtain ⟨field, hfield, rfl⟩ := List.mem_map.1 hpart
    exact hq.trimmed.comma_not_mem hfield
  unfold ofLine
  simp only [hfields, fields, List.map_cons, List.map_nil, String.ofList_toList]

/-- A line that is read is the line of the quadruple, but for a carriage return at its end. -/
theorem line_of_ofLine (h : ofLine number cs = .ok q) : q.line.toList = stripReturn cs := by
  unfold ofLine at h
  dsimp only at h
  split at h
  · next op operand1 operand2 result hfields =>
    obtain rfl := Except.ok.inj h
    rw [toList_line, ← intercalate_fields ',' (stripReturn cs), hfields]
    simp [fields]
  · cases h

/-- What is read of a line without line feeds can be written. -/
theorem isWritable_of_ofLine (hcs : '\n' ∉ cs) (h : ofLine number cs = .ok q) :
    q.IsWritable where
  comma_not_mem {field} hfield := by
    unfold ofLine at h
    dsimp only at h
    split at h
    · next op operand1 operand2 result hfields =>
      obtain rfl := Except.ok.inj h
      have hsplit : field.toList ∈ Text.fields ',' (stripReturn cs) := by
        rw [hfields]
        simpa [fields, String.ext_iff] using hfield
      exact not_mem_of_mem_fields hsplit
    · cases h
  newline_not_mem := by
    rw [line_of_ofLine h]
    exact fun hmem => hcs ((stripReturn_sublist cs).subset hmem)

end Quadruple

namespace Listing

variable {quads : List Quadruple} {lines : List (List Char)} {rest : List Char} {number : Nat}

/-- The lines of quadruples are read as these quadruples, but for a carriage return at the end of
each. -/
theorem quadsOfLines_lines (hquads : ∀ q ∈ quads, q.IsWritable) (number : Nat) :
    quadsOfLines number (quads.map (·.line.toList)) = .ok (quads.map Quadruple.trimmed) := by
  induction quads generalizing number with
  | nil => rfl
  | cons q quads ih =>
    obtain ⟨hq, hquads⟩ := List.forall_mem_cons.1 hquads
    rw [List.map_cons, quadsOfLines, q.not_blank_line, Quadruple.ofLine_line hq, ih hquads]
    rfl

/-- Lines are read one by one, where blank lines are left out. -/
theorem forall₂_of_quadsOfLines (h : quadsOfLines number lines = .ok quads) :
    List.Forall₂ (fun line q => ∃ number, Quadruple.ofLine number line = .ok q)
      (lines.filter (!·.all isBlank)) quads := by
  induction lines generalizing number quads with
  | nil =>
    obtain rfl := Except.ok.inj h
    exact .nil
  | cons line lines ih =>
    rw [quadsOfLines] at h
    split at h
    · next hblank =>
      rw [List.filter_cons_of_neg (by simp [hblank])]
      exact ih h
    · next hblank =>
      cases hq : Quadruple.ofLine number line with
      | error e => rw [hq] at h; cases h
      | ok q =>
        rw [hq] at h
        cases hothers : quadsOfLines (number + 1) lines with
        | error e => rw [hothers] at h; cases h
        | ok others =>
          rw [hothers] at h
          obtain rfl : q :: others = quads := Except.ok.inj h
          rw [List.filter_cons_of_pos (by simp [hblank])]
          exact .cons ⟨number, hq⟩ (ih hothers)

/-- Lines are read as quadruples with these lines, where blank lines and a carriage return at the
end of each are left out. -/
theorem lines_of_quadsOfLines (h : quadsOfLines number lines = .ok quads) :
    quads.map (·.line.toList) = (lines.filter (!·.all isBlank)).map stripReturn := by
  rw [eq_comm, ← List.forall₂_eq_eq_eq, List.forall₂_map_left_iff, List.forall₂_map_right_iff]
  exact (forall₂_of_quadsOfLines h).imp fun _ _ ⟨_, hq⟩ => (Quadruple.line_of_ofLine hq).symm

/-- Lines that fit and of which none is blank are read as quadruples with these lines. -/
theorem lines_of_isLine (hlines : ∀ line ∈ lines, IsLine line ∧ line.all isBlank = false)
    (h : quadsOfLines number lines = .ok quads) : quads.map (·.line.toList) = lines := by
  have hfilter : lines.filter (!·.all isBlank) = lines :=
    List.filter_eq_self.2 fun line hline => by simp [(hlines line hline).2]
  have hstrip : ∀ line ∈ lines, stripReturn line = line := fun line hline =>
    stripReturn_of_isLine (hlines line hline).1
  rw [lines_of_quadsOfLines h, hfilter, List.map_congr_left hstrip, List.map_id']

/-- A listing is written as lines with its line ends, and a rest without one if the last line has
none. -/
theorem toList_text {l : Listing}
    (hquads : l.quads.map (·.line.toList) = lines ++ if rest = [] then [] else [rest])
    (hfinal : l.layout.finalNewline = decide (rest = [])) :
    l.text.toList = terminated l.layout lines ++ rest := by
  have htext : l.text.toList =
      List.intercalate l.layout.terminator.toList (l.quads.map (·.line.toList)) ++
        if l.layout.finalNewline && !l.quads.isEmpty then l.layout.terminator.toList else [] := by
    rw [text, String.toList_append, String.toList_intercalate, List.map_map]
    congr 1
    split <;> rfl
  rw [htext, hquads, hfinal]
  by_cases hrest : rest = []
  · have hempty : l.quads.isEmpty = lines.isEmpty := by
      rw [← List.isEmpty_map, hquads, if_pos hrest, List.append_nil]
    rw [if_pos hrest, List.append_nil, hempty, hrest, List.append_nil]
    -- the last line end is the one that is not between lines
    rcases List.eq_nil_or_concat' lines with rfl | ⟨lines, line, rfl⟩
    · rfl
    · rw [intercalate_concat]
      simp [terminated]
  · rw [if_neg hrest, intercalate_concat, decide_eq_false hrest]
    simp

/-- The line ends between no lines may be of any kind. -/
theorem terminated_congr {layout layout' : Layout}
    (h : layout'.crlf = (layout.crlf && !lines.isEmpty)) :
    terminated layout' lines = terminated layout lines := by
  cases lines with
  | nil => rfl
  | cons line lines =>
    rw [List.isEmpty_cons, Bool.not_false, Bool.and_true] at h
    simp only [terminated, toList_terminator, h]

/-- A text without blank lines, whose line ends are all of one kind, is written as it was read. -/
theorem text_of_ofText {source : String} {l : Listing} (h : ofText source = .ok l)
    (hblank : ∀ line ∈ lineTexts source.toList, line.all isBlank = false) {layout : Layout}
    (hends : HasLineEnds layout source.toList) : l.text = source := by
  obtain ⟨lines, rest, hlines, hrest, hsource⟩ := hends
  have hsplit := lineTexts_terminated layout hlines hrest
  rw [ofText, hsource, hsplit] at h
  rw [hsource, hsplit] at hblank
  cases hquads : quadsOfLines 1 (lines ++ if rest = [] then [] else [rest]) with
  | error e => rw [hquads] at h; cases h
  | ok quads =>
    rw [hquads] at h
    obtain rfl := Except.ok.inj h
    have hall : ∀ line ∈ lines ++ if rest = [] then [] else [rest], IsLine line := by
      intro line hline
      rcases List.mem_append.1 hline with hmem | hmem
      · exact hlines line hmem
      · split at hmem
        · cases hmem
        · exact List.mem_singleton.1 hmem ▸ hrest
    apply String.toList_injective
    rw [toList_text (lines_of_isLine (fun line hline => ⟨hall line hline, hblank line hline⟩)
      hquads) (detect_finalNewline layout lines hrest), hsource,
      terminated_congr (detect_crlf layout hlines hrest)]

/-- A listing of plain quadruples is read with these quadruples, with the layout that its text
shows. -/
theorem ofText_text {l : Listing} (hplain : ∀ q ∈ l.quads, q.IsPlain)
    (hlines : ∀ line ∈ lines, IsLine line) (hrest : IsLine rest)
    (hquads : l.quads.map (·.line.toList) = lines ++ if rest = [] then [] else [rest])
    (hfinal : l.layout.finalNewline = decide (rest = [])) :
    ofText l.text = .ok ⟨l.quads, ⟨l.layout.crlf && !lines.isEmpty, l.layout.finalNewline⟩⟩ := by
  have htext := toList_text hquads hfinal
  have hread := quadsOfLines_lines (fun q hq => (hplain q hq).isWritable) 1
  rw [List.map_congr_left fun q hq => Quadruple.trimmed_of_isPlain (hplain q hq), List.map_id',
    hquads, ← lineTexts_terminated l.layout hlines hrest, ← htext] at hread
  rw [ofText, hread, ← detect_crlf l.layout hlines hrest, hfinal,
    ← detect_finalNewline l.layout lines hrest, ← htext]
  rfl

/-- A listing of plain quadruples is read as it was written, but perhaps for the kind of line ends
if its text has none, and for the layout if it has no quadruples. -/
theorem exists_ofText_text {l : Listing} (hplain : ∀ q ∈ l.quads, q.IsPlain) :
    ∃ l', ofText l.text = .ok l' ∧ l'.quads = l.quads ∧
      (l.quads ≠ [] →
        2 ≤ l.quads.length ∨ l.layout.finalNewline = true ∨ l.layout.crlf = false → l' = l) := by
  obtain ⟨quads, crlf, finalNewline⟩ := l
  have hlines : ∀ qs : List Quadruple, (∀ q ∈ qs, q.IsPlain) →
      ∀ line ∈ qs.map (·.line.toList), IsLine line := by
    intro qs hqs line hline
    obtain ⟨q, hq, rfl⟩ := List.mem_map.1 hline
    exact Quadruple.isLine_line (hqs q hq)
  cases finalNewline with
  | true =>
    have hnil : IsLine [] := ⟨List.not_mem_nil, List.not_mem_nil⟩
    have hread := ofText_text (l := ⟨quads, ⟨crlf, true⟩⟩) hplain (hlines quads hplain) hnil
      (List.append_nil _).symm rfl
    refine ⟨_, hread, rfl, fun hne _ => ?_⟩
    have hmap : (quads.map (·.line.toList)).isEmpty = false := by simpa using hne
    rw [hmap, Bool.not_false, Bool.and_true]
  | false =>
    rcases List.eq_nil_or_concat' quads with rfl | ⟨quads, q, rfl⟩
    · exact ⟨_, rfl, rfl, fun hne => absurd rfl hne⟩
    · -- the line of the last quadruple is the rest without a line end
      have hq := hplain q (by simp)
      have hne : q.line.toList ≠ [] := List.ne_nil_of_mem q.comma_mem_line
      have hread := ofText_text (l := ⟨quads ++ [q], ⟨crlf, false⟩⟩) hplain
        (hlines quads fun q hq => hplain q (List.mem_append_left _ hq)) (Quadruple.isLine_line hq)
        (by simp [hne]) (by simp [hne])
      refine ⟨_, hread, rfl, fun _ hseen => ?_⟩
      have hcrlf : (crlf && !(quads.map (·.line.toList)).isEmpty) = crlf := by
        rcases hseen with hlength | hfinal | hcrlf
        · have hquads : quads ≠ [] := by
            rintro rfl
            simp at hlength
          simp [hquads]
        · cases hfinal
        · obtain rfl : crlf = false := hcrlf
          rfl
      rw [hcrlf]

end Listing

open Listing in
/-- Texts and listings are read and written back.  A text is written as it was read if it has no
blank line and its line ends are all of one kind.  A listing whose fields hold no commas and no line
ends is read with the quadruples that it was written with, and with its layout if the text shows
it. -/
theorem listing_round_trip :
    (∀ source l, ofText source = .ok l →
      (∀ line ∈ lineTexts source.toList, line.all isBlank = false) →
      (∃ layout, HasLineEnds layout source.toList) → l.text = source) ∧
    ∀ l : Listing, (∀ q ∈ l.quads, q.IsPlain) →
      ∃ l', ofText l.text = .ok l' ∧ l'.quads = l.quads ∧
        (l.quads ≠ [] →
          2 ≤ l.quads.length ∨ l.layout.finalNewline = true ∨ l.layout.crlf = false → l' = l) :=
  ⟨fun _ _ h hblank ⟨_, hends⟩ => text_of_ofText h hblank hends,
    fun _ hplain => exists_ofText_text hplain⟩

/-- Two lines with a carriage return between them, of which the last one has no end. -/
theorem listing_round_trip_returns :
    ∃ l, Listing.ofText "+,a,b,T1\r\n=,T1,,x" = .ok l ∧ l.text = "+,a,b,T1\r\n=,T1,,x" ∧
      l = ⟨[⟨"+", "a", "b", "T1"⟩, .copy "T1" "x"], ⟨true, false⟩⟩ ∧
      Listing.ofText l.text = .ok l := by
  have hread : Listing.ofText "+,a,b,T1\r\n=,T1,,x" =
      .ok ⟨[⟨"+", "a", "b", "T1"⟩, .copy "T1" "x"], ⟨true, false⟩⟩ := by decide +kernel
  have hends : HasLineEnds ⟨true, false⟩ "+,a,b,T1\r\n=,T1,,x".toList := by
    refine ⟨["+,a,b,T1".toList], "=,T1,,x".toList, fun line hline => ?_, ?_, by decide +kernel⟩
    · rw [List.mem_singleton.1 hline]
      exact ⟨by decide +kernel, by decide +kernel⟩
    · exact ⟨by decide +kernel, by decide +kernel⟩
  have hwritten := listing_round_trip.1 _ _ hread (by decide +kernel) ⟨_, hends⟩
  have hplain : ∀ q ∈ [⟨"+", "a", "b", "T1"⟩, .copy "T1" "x"], Quadruple.IsPlain q := by
    have hfields : ∀ q ∈ [⟨"+", "a", "b", "T1"⟩, Quadruple.copy "T1" "x"], ∀ field ∈ q.fields,
        ',' ∉ field.toList ∧ '\r' ∉ field.toList ∧ '\n' ∉ field.toList := by decide +kernel
    exact hfields
  obtain ⟨l', hagain, -, hsame⟩ := listing_round_trip.2
    ⟨[⟨"+", "a", "b", "T1"⟩, .copy "T1" "x"], ⟨true, false⟩⟩ hplain
  rw [hsame (by simp) (Or.inl (by decide))] at hagain
  exact ⟨_, hread, hwritten, rfl, hagain⟩

end ArithFrontEnd
