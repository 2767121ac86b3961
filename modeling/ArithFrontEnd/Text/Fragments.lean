/-!
# Cutting a text into fragments

A scanner cuts a text into fragments from left to right. What it knows is how far a fragment reaches
that starts with a given character, and what it is then. A fragment always takes at least the
character that it starts with, so that the cutting comes to an end and every text can be cut.

## Main definitions

* `Fragment` — a piece of a text and what it is.
* `Extent`, `fragments` — how far fragments reach, and a text cut into them.
* `located` — the fragments with the lines where they start.

## Main results

* `flatMap_text_fragments` — **nothing of a text is lost.**
* `text_ne_nil_of_mem_fragments` — no fragment is empty.
-/

namespace ArithFrontEnd.Text

/-- A piece of a text. -/
structure Fragment (Form : Type) where
  /-- What the fragment is. -/
  form : Form
  /-- The characters of the fragment. -/
  text : List Char
  deriving DecidableEq, Repr

namespace Fragment

variable {Form : Type}

/-- The number of line ends in a fragment. -/
def newlines (f : Fragment Form) : Nat := f.text.count '\n'

/-- The text of a fragment. -/
def string (f : Fragment Form) : String := String.ofList f.text

end Fragment

/-- What the fragment is that starts with a character, and how many of the characters after this one
belong to it. -/
abbrev Extent (Form : Type) := Char → List Char → Form × Nat

variable {Form : Type}

/-- Cut a text into fragments. -/
def fragments (extent : Extent Form) : List Char → List (Fragment Form)
  | [] => []
  | c :: cs =>
    ⟨(extent c cs).1, c :: cs.take (extent c cs).2⟩ ::
      fragments extent (cs.drop (extent c cs).2)
termination_by cs => cs.length
decreasing_by
  rw [List.length_drop, List.length_cons]
  omega

@[simp] theorem fragments_nil (extent : Extent Form) : fragments extent [] = [] := by
  rw [fragments]

theorem fragments_cons (extent : Extent Form) (c : Char) (cs : List Char) :
    fragments extent (c :: cs) =
      ⟨(extent c cs).1, c :: cs.take (extent c cs).2⟩ ::
        fragments extent (cs.drop (extent c cs).2) := by
  rw [fragments]

/-- A text begins with a fragment if the extent ends there. -/
theorem fragments_append {extent : Extent Form} {form : Form} {c : Char} {cs rest : List Char}
    (h : extent c (cs ++ rest) = (form, cs.length)) :
    fragments extent (c :: cs ++ rest) = ⟨form, c :: cs⟩ :: fragments extent rest := by
  rw [List.cons_append, fragments_cons, h]
  simp

/-- Nothing of a text is lost: its fragments put together are the text. -/
theorem flatMap_text_fragments (extent : Extent Form) (cs : List Char) :
    (fragments extent cs).flatMap Fragment.text = cs := by
  fun_induction fragments extent cs with
  | case1 => rfl
  | case2 c cs ih => simp [ih]

/-- A fragment has at least one character. -/
theorem text_ne_nil_of_mem_fragments {extent : Extent Form} {cs : List Char} {f : Fragment Form}
    (h : f ∈ fragments extent cs) : f.text ≠ [] := by
  fun_induction fragments extent cs with
  | case1 => simp at h
  | case2 c cs ih =>
    rcases List.mem_cons.1 h with rfl | h
    · simp
    · exact ih h

/-- A fragment is as long as the extent says of the text that is left where it starts. -/
theorem extent_of_mem_fragments {extent : Extent Form} {cs : List Char} {f : Fragment Form}
    (h : f ∈ fragments extent cs) :
    ∃ before c after, cs = before ++ c :: after ∧ f.form = (extent c after).1 ∧
      f.text = c :: after.take (extent c after).2 := by
  fun_induction fragments extent cs with
  | case1 => simp at h
  | case2 c cs ih =>
    rcases List.mem_cons.1 h with rfl | h
    · exact ⟨[], c, cs, rfl, rfl, rfl⟩
    · -- The fragment is one of a later part of the text.
      obtain ⟨before, d, after, split, form, text⟩ := ih h
      refine ⟨c :: cs.take (extent c cs).2 ++ before, d, after, ?_, form, text⟩
      rw [List.append_assoc, ← split, List.cons_append, List.take_append_drop]

/-- The fragments with the number of the line where each starts. -/
def withLines (line : Nat) : List (Fragment Form) → List (Fragment Form × Nat)
  | [] => []
  | f :: fs => (f, line) :: withLines (line + f.newlines) fs

/-- The fragments of a text with their lines, which are counted from one. -/
def located (extent : Extent Form) (source : String) : List (Fragment Form × Nat) :=
  withLines 1 (fragments extent source.toList)

theorem map_fst_withLines (line : Nat) (fs : List (Fragment Form)) :
    (withLines line fs).map (·.1) = fs := by
  induction fs generalizing line with
  | nil => rfl
  | cons f fs ih => rw [withLines, List.map_cons, ih]

end ArithFrontEnd.Text
