import ArithFrontEnd.Text.Fragments

/-!
# Longest matches

What a scanner should find can be said by classes of texts: where a fragment ends, the next one is
the longest text of any class.  A scanner that decides by the characters from left to right finds
these fragments if it takes every text of a class as a whole and never takes less when more
characters follow.

## Main definitions

* `IsLongest` — a text begins with a piece of a class, and with no longer piece of any class.
* `Extent.Recognizes` — the extent of fragments fits to the classes.

## Main results

* `Extent.Recognizes.form_unique` — no text is of two classes.
* `Extent.Recognizes.isLongest_extent` — **fragments are longest matches.**
* `Extent.Recognizes.fragments_of_isLongest` — **a longest match is a fragment.**
-/

namespace ArithFrontEnd.Text

variable {Form : Type}

/-- A text consists of a piece of a class and a rest, and it begins with no longer piece that is of
any class. -/
structure IsLongest (admits : Form → List Char → Bool) (form : Form) (piece rest : List Char) :
    Prop where
  /-- The piece is of the class. -/
  admitted : admits form piece = true
  /-- No longer piece is of any class. -/
  longest {form' : Form} {longer : List Char} (h : longer <+: piece ++ rest)
    (hlength : piece.length < longer.length) : admits form' longer = false

/-- The extent of fragments fits to the classes of texts. -/
structure Extent.Recognizes (extent : Extent Form) (admits : Form → List Char → Bool) : Prop where
  /-- The empty text is of no class. -/
  ne_nil {form : Form} {cs : List Char} (h : admits form cs = true) : cs ≠ []
  /-- A fragment is of the class that its form names. -/
  admits_extent (c : Char) (cs : List Char) :
    admits (extent c cs).1 (c :: cs.take (extent c cs).2) = true
  /-- A text of a class is taken as a whole. -/
  extent_of_admits {form : Form} {c : Char} {cs : List Char}
    (h : admits form (c :: cs) = true) : extent c cs = (form, cs.length)
  /-- No less is taken when more characters follow. -/
  extent_le_append (c : Char) (cs more : List Char) :
    (extent c cs).2 ≤ (extent c (cs ++ more)).2

namespace Extent.Recognizes

variable {extent : Extent Form} {admits : Form → List Char → Bool}

/-- No text is of two classes. -/
theorem form_unique (h : extent.Recognizes admits) {form form' : Form} {cs : List Char}
    (hform : admits form cs = true) (hform' : admits form' cs = true) : form = form' := by
  cases cs with
  | nil => exact absurd rfl (h.ne_nil hform)
  | cons c cs =>
    have hsame := (h.extent_of_admits hform).symm.trans (h.extent_of_admits hform')
    exact (Prod.mk.inj hsame).1

/-- A piece of a class at the head of a text is no longer than the fragment. -/
theorem length_le_extent (h : extent.Recognizes admits) {form : Form} {c : Char}
    {piece cs : List Char} (hform : admits form piece = true) (hpiece : piece <+: c :: cs) :
    piece.length ≤ (extent c cs).2 + 1 := by
  cases piece with
  | nil => exact absurd rfl (h.ne_nil hform)
  | cons d piece =>
    obtain ⟨more, hmore⟩ := hpiece
    obtain ⟨rfl, rfl⟩ := List.cons.inj hmore
    have hlength := h.extent_le_append d piece more
    rw [h.extent_of_admits hform] at hlength
    exact Nat.succ_le_succ hlength

/-- The fragment at the head of a text is the longest piece of any class. -/
theorem isLongest_extent (h : extent.Recognizes admits) (c : Char) (cs : List Char) :
    IsLongest admits (extent c cs).1 (c :: cs.take (extent c cs).2)
      (cs.drop (extent c cs).2) := by
  refine ⟨h.admits_extent c cs, fun {form' longer} hlonger hlength => ?_⟩
  rw [List.cons_append, List.take_append_drop] at hlonger
  rw [List.length_cons, List.length_take] at hlength
  refine Bool.eq_false_iff.2 fun hform => ?_
  have hfragment := h.length_le_extent hform hlonger
  have htext := hlonger.length_le
  rw [List.length_cons] at htext
  omega

/-- There is only one longest piece at the head of a text. -/
theorem isLongest_unique (h : extent.Recognizes admits) {form form' : Form}
    {piece piece' rest rest' : List Char} (hpiece : IsLongest admits form piece rest)
    (hpiece' : IsLongest admits form' piece' rest') (htext : piece ++ rest = piece' ++ rest') :
    form = form' ∧ piece = piece' := by
  have hprefix : piece <+: piece' ++ rest' := ⟨rest, htext⟩
  have hprefix' : piece' <+: piece ++ rest := ⟨rest', htext.symm⟩
  have hle : piece.length ≤ piece'.length := by
    refine Nat.le_of_not_lt fun hlt => ?_
    exact Bool.eq_false_iff.1 (hpiece'.longest hprefix hlt) hpiece.admitted
  have hle' : piece'.length ≤ piece.length := by
    refine Nat.le_of_not_lt fun hlt => ?_
    exact Bool.eq_false_iff.1 (hpiece.longest hprefix' hlt) hpiece'.admitted
  obtain ⟨rfl, -⟩ := List.append_inj htext (Nat.le_antisymm hle hle')
  exact ⟨h.form_unique hpiece.admitted hpiece'.admitted, rfl⟩

/-- The longest piece of any class is the fragment at the head of a text. -/
theorem fragments_of_isLongest (h : extent.Recognizes admits) {form : Form}
    {piece rest : List Char} (hpiece : IsLongest admits form piece rest) :
    fragments extent (piece ++ rest) = ⟨form, piece⟩ :: fragments extent rest := by
  cases piece with
  | nil => exact absurd rfl (h.ne_nil hpiece.admitted)
  | cons c cs =>
    have hsplit : c :: cs ++ rest = c :: (cs ++ rest).take (extent c (cs ++ rest)).2 ++
        (cs ++ rest).drop (extent c (cs ++ rest)).2 := by
      rw [List.cons_append, List.cons_append, List.take_append_drop]
    obtain ⟨hform, hfragment⟩ :=
      h.isLongest_unique hpiece (h.isLongest_extent c (cs ++ rest)) hsplit
    rw [← hfragment] at hsplit
    rw [List.cons_append, fragments_cons, ← hform, ← hfragment,
      ← List.append_cancel_left hsplit]

end Extent.Recognizes

end ArithFrontEnd.Text
