import ArithFrontEnd.Proofs.Quadruple.RoundTrip

/-!
# Listings that are written and read again

A listing that has been read from a text can be written and read again, whatever blank lines, line
ends and carriage returns the text has.  It comes back with the same quadruples, unless a result
ends in a carriage return: reading takes one carriage return from the end of a line besides that of
the line end, and a line feed that is written after the result makes one of it.  A result ends so if
its line has two carriage returns at its end besides that of the line end.

## Main definitions

* `Listing.rereadQuad` — the quadruple whose line is found in the text of a listing.

## Main results

* `exists_ofText_text_of_isWritable` — what is read of a listing that has been written.
* `rewriting_keeps_quads_iff` — **when a listing comes back with the same quadruples.**
* `rewriting_loses_return` — a text for which it does not.
-/

namespace ArithFrontEnd

open Text

namespace Listing

variable {quads : List Quadruple} {number : Nat}

/-- The quadruple whose line is found where a quadruple has been written before a line end. -/
def rereadQuad (layout : Layout) (q : Quadruple) : Quadruple :=
  if layout.crlf then q else q.trimmed

theorem rereadLine_line (layout : Layout) (q : Quadruple) :
    rereadLine layout q.line.toList = (rereadQuad layout q).line.toList := by
  unfold rereadLine rereadQuad
  split
  · rfl
  · exact (q.toList_line_trimmed).symm

theorem rereadQuad_isWritable (layout : Layout) {q : Quadruple} (hq : q.IsWritable) :
    (rereadQuad layout q).IsWritable := by
  unfold rereadQuad
  split
  · exact hq
  · exact hq.trimmed

/-- What is read of lines without line feeds can be written. -/
theorem isWritable_of_quadsOfLines {lines : List (List Char)} (hlines : ∀ line ∈ lines, '\n' ∉ line)
    (h : quadsOfLines number lines = .ok quads) : ∀ q ∈ quads, q.IsWritable := by
  have hnewline : ∀ line ∈ lines.filter (!·.all isBlank), '\n' ∉ line := fun line hline =>
    hlines line (List.mem_of_mem_filter hline)
  have hread := forall₂_of_quadsOfLines h
  clear h
  generalize lines.filter (!·.all isBlank) = kept at hnewline hread
  induction hread with
  | nil => simp
  | @cons line q kept quads hq _ ih =>
    obtain ⟨hline, hkept⟩ := List.forall_mem_cons.1 hnewline
    obtain ⟨number, hq⟩ := hq
    exact List.forall_mem_cons.2 ⟨Quadruple.isWritable_of_ofLine hline hq, ih hkept⟩

/-- What is read of a listing that has been written.  Its last quadruple stands apart if there is no
line end after it. -/
theorem ofText_text_of_isWritable {l : Listing} {front : List Quadruple} {last : Option Quadruple}
    (hwritable : ∀ q ∈ l.quads, q.IsWritable) (hquads : l.quads = front ++ last.toList)
    (hfinal : l.layout.finalNewline = last.isNone) :
    ofText l.text = .ok ⟨(front.map (rereadQuad l.layout) ++ last.toList).map .trimmed,
      .detect l.text.toList⟩ := by
  obtain ⟨rest, hrest, hnone, hline⟩ : ∃ rest : List Char,
      (if rest = [] then [] else [rest]) = last.toList.map (·.line.toList) ∧
        last.isNone = decide (rest = []) ∧ '\n' ∉ rest := by
    cases last with
    | none => exact ⟨[], rfl, rfl, List.not_mem_nil⟩
    | some q =>
      have hne : q.line.toList ≠ [] := List.ne_nil_of_mem q.comma_mem_line
      exact ⟨q.line.toList, by simp [hne], by simp [hne],
        (hwritable q (by simp [hquads])).newline_not_mem⟩
  have htext : l.text.toList = terminated l.layout (front.map (·.line.toList)) ++ rest :=
    toList_text (by rw [hquads, List.map_append, hrest]) (hfinal.trans hnone)
  have hsplit : lineTexts l.text.toList =
      (front.map (rereadQuad l.layout) ++ last.toList).map (·.line.toList) := by
    have hfront : ∀ line ∈ front.map (·.line.toList), '\n' ∉ line := by
      intro line hmem
      obtain ⟨q, hq, rfl⟩ := List.mem_map.1 hmem
      exact (hwritable q (by simp [hquads, hq])).newline_not_mem
    have hreread : (front.map (·.line.toList)).map (rereadLine l.layout) =
        (front.map (rereadQuad l.layout)).map (·.line.toList) := by
      rw [List.map_map, List.map_map]
      exact List.map_congr_left fun q _ => rereadLine_line l.layout q
    rw [htext, lineTexts_rereadLine l.layout hfront hline, hrest, List.map_append, hreread]
  have hseen : ∀ q ∈ front.map (rereadQuad l.layout) ++ last.toList, q.IsWritable := by
    intro q hq
    rcases List.mem_append.1 hq with hmem | hmem
    · obtain ⟨q', hq', rfl⟩ := List.mem_map.1 hmem
      exact rereadQuad_isWritable l.layout (hwritable q' (by simp [hquads, hq']))
    · exact hwritable q (by simp [hquads, hmem])
  rw [ofText, hsplit, quadsOfLines_lines hseen]
  rfl

/-- What is read of a listing that has been written: each of its quadruples, but for a carriage
return or two at the end. -/
theorem exists_ofText_text_of_isWritable {l : Listing} (hwritable : ∀ q ∈ l.quads, q.IsWritable) :
    ∃ l', ofText l.text = .ok l' ∧
      List.Forall₂ (fun q q' => q' = q.trimmed ∨ q' = q.trimmed.trimmed) l.quads l'.quads := by
  have hread : ∀ (front : List Quadruple) (last : Option Quadruple),
      l.quads = front ++ last.toList → l.layout.finalNewline = last.isNone →
      ∃ l', ofText l.text = .ok l' ∧
        List.Forall₂ (fun q q' => q' = q.trimmed ∨ q' = q.trimmed.trimmed) l.quads l'.quads := by
    intro front last hquads hfinal
    refine ⟨_, ofText_text_of_isWritable hwritable hquads hfinal, ?_⟩
    rw [hquads, List.map_append, List.map_map]
    refine List.rel_append (List.forall₂_map_right_iff.2 ?_) (List.forall₂_map_right_iff.2 ?_)
    · refine List.forall₂_same.2 fun q _ => ?_
      show (rereadQuad l.layout q).trimmed = _ ∨ (rereadQuad l.layout q).trimmed = _
      unfold rereadQuad
      split
      · exact Or.inl rfl
      · exact Or.inr rfl
    · exact List.forall₂_same.2 fun q _ => Or.inl rfl
  cases hfinal : l.layout.finalNewline with
  | true => exact hread l.quads none (List.append_nil _).symm hfinal
  | false =>
    rcases List.eq_nil_or_concat' l.quads with hnil | ⟨front, q, hconcat⟩
    · -- nothing has been written, and nothing is read
      have htext : l.text = "" := by
        rw [text, hnil]
        simp
      refine ⟨⟨[], .detect []⟩, ?_, ?_⟩
      · rw [htext]
        rfl
      · rw [hnil]
        exact .nil
    · exact hread front (some q) hconcat hfinal

end Listing

namespace Quadruple

variable {quads quads' : List Quadruple} {q : Quadruple}

/-- A quadruple that loses nothing when two carriage returns are taken away has none. -/
theorem trimmed_trimmed_eq_self_iff : q.trimmed.trimmed = q ↔ q.trimmed = q := by
  constructor
  · intro h
    have hsub := stripReturn_sublist q.trimmed.line.toList
    rw [← toList_line_trimmed, h, toList_line_trimmed] at hsub
    exact trimmed_eq_self_iff.2 ((stripReturn_sublist _).antisymm hsub)
  · intro h
    rw [h, h]

theorem forall₂_trimmed_eq_iff
    (h : List.Forall₂ (fun q q' : Quadruple => q' = q.trimmed ∨ q' = q.trimmed.trimmed) quads
      quads') : quads' = quads ↔ ∀ q ∈ quads, q.trimmed = q := by
  induction h with
  | nil => simp
  | @cons q q' quads quads' hq _ ih =>
    have hhead : q' = q ↔ q.trimmed = q := by
      rcases hq with rfl | rfl
      · rfl
      · exact trimmed_trimmed_eq_self_iff
    rw [List.cons.injEq, hhead, ih, List.forall_mem_cons]

end Quadruple

open Listing in
/-- What has been read from a text can be written and read again: it comes back with the same
quadruples exactly if no line that is not blank ends in two carriage returns, besides that of its
line end.  A quadruple that changes loses a carriage return or two at the end of its result. -/
theorem rewriting_keeps_quads_iff {source : String} {l : Listing} (h : ofText source = .ok l) :
    ∃ l', ofText l.text = .ok l' ∧
      List.Forall₂ (fun q q' => q' = q.trimmed ∨ q' = q.trimmed.trimmed) l.quads l'.quads ∧
      (l'.quads = l.quads ↔ ∀ line ∈ lineTexts source.toList, line.all isBlank = false →
        ¬ ['\r', '\r'] <:+ line) := by
  obtain ⟨quads, hquads, rfl⟩ : ∃ quads, quadsOfLines 1 (lineTexts source.toList) = .ok quads ∧
      ⟨quads, .detect source.toList⟩ = l := by
    dsimp only [ofText] at h
    cases hquads : quadsOfLines 1 (lineTexts source.toList) with
    | error e => rw [hquads] at h; cases h
    | ok quads =>
      rw [hquads] at h
      exact ⟨quads, rfl, Except.ok.inj h⟩
  have hwritable := isWritable_of_quadsOfLines (fun _ => not_mem_of_mem_lineTexts) hquads
  obtain ⟨l', hread, hforall⟩ := exists_ofText_text_of_isWritable (l := ⟨quads, _⟩) hwritable
  refine ⟨l', hread, hforall, ?_⟩
  rw [Quadruple.forall₂_trimmed_eq_iff hforall]
  -- what the lines of the quadruples lose is what is left at the ends of those of the text
  calc (∀ q ∈ quads, q.trimmed = q)
      ↔ ∀ line ∈ quads.map (·.line.toList), stripReturn line = line := by
        simp only [Quadruple.trimmed_eq_self_iff, List.forall_mem_map]
    _ ↔ ∀ line ∈ (lineTexts source.toList).filter (!·.all isBlank),
          ¬ ['\r', '\r'] <:+ line := by
        rw [lines_of_quadsOfLines hquads]
        simp only [List.forall_mem_map, stripReturn_stripReturn_eq_iff]
    _ ↔ _ := by
        simp only [List.mem_filter, Bool.not_eq_true', and_imp]

/-- Blank lines, line ends of both kinds and carriage returns within and after the fields: none of
them changes the quadruples when the listing is written and read again. -/
theorem rewriting_keeps_quads_iff_mixed : ∃ l l' : Listing,
    Listing.ofText "=,a\rb,,x\r\r\n\r\r\r\n \n+,x,1,y\n=,y,,z\r" = .ok l ∧
      l.quads = [.copy "a\rb" "x", ⟨"+", "x", "1", "y"⟩, .copy "y" "z"] ∧
      Listing.ofText l.text = .ok l' ∧ l'.quads = l.quads := by
  have hread : Listing.ofText "=,a\rb,,x\r\r\n\r\r\r\n \n+,x,1,y\n=,y,,z\r" =
      .ok ⟨[.copy "a\rb" "x", ⟨"+", "x", "1", "y"⟩, .copy "y" "z"], ⟨true, false⟩⟩ := by
    decide +kernel
  obtain ⟨l', hl', -, hkeeps⟩ := rewriting_keeps_quads_iff hread
  exact ⟨_, l', hread, rfl, hl', hkeeps.2 (by decide +kernel)⟩

/-- A listing that is written and read again may change.  Of two carriage returns at the end of a
text one is read as a part of the result, and is lost the second time. -/
theorem rewriting_loses_return :
    ¬ ∀ source l, Listing.ofText source = .ok l →
      ∃ l', Listing.ofText l.text = .ok l' ∧ l'.quads = l.quads := by
  intro h
  have honce : Listing.ofText "+,a,b,T1\r\r" =
      .ok ⟨[⟨"+", "a", "b", "T1\r"⟩], ⟨false, false⟩⟩ := by decide +kernel
  have htwice : Listing.ofText (Listing.text ⟨[⟨"+", "a", "b", "T1\r"⟩], ⟨false, false⟩⟩) =
      .ok ⟨[⟨"+", "a", "b", "T1"⟩], ⟨false, false⟩⟩ := by decide +kernel
  obtain ⟨l', hl', hsame⟩ := h _ _ honce
  obtain rfl := Except.ok.inj (htwice.symm.trans hl')
  simp at hsame

end ArithFrontEnd
