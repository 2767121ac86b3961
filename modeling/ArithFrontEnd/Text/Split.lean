/-!
# Splitting text

A text is split into the fields between commas and into lines. Lines end with a line feed, with or
without a carriage return before it.

## Main definitions

* `fields` — the parts of a text between a separator.
* `lineTexts` — the lines of a text without their ends.

## Main results

* `intercalate_fields` — **the fields with the separator between them are the text.**
* `not_mem_of_mem_fields` — no field holds the separator.
-/

namespace ArithFrontEnd.Text

/-- The parts of a text between the separators, one more than there are separators. -/
def fields (separator : Char) : List Char → List (List Char)
  | [] => [[]]
  | c :: cs =>
    if c = separator then [] :: fields separator cs
    else
      match fields separator cs with
      | [] => [[c]]
      | f :: fs => (c :: f) :: fs

/-- The lines of a text without their ends. There is no line after a line end that ends the text. -/
def lineTexts : List Char → List (List Char)
  | [] => []
  | '\r' :: '\n' :: cs => [] :: lineTexts cs
  | '\n' :: cs => [] :: lineTexts cs
  | c :: cs =>
    match lineTexts cs with
    | [] => [[c]]
    | l :: ls => (c :: l) :: ls

/-- A text without the carriage return at its end, if it has one. -/
def stripReturn (cs : List Char) : List Char :=
  if cs.getLast? = some '\r' then cs.dropLast else cs

theorem fields_ne_nil (separator : Char) (cs : List Char) : fields separator cs ≠ [] := by
  cases cs with
  | nil => simp [fields]
  | cons c cs =>
    unfold fields
    split
    · simp
    · split <;> simp

/-- The fields with the separator between them are the text. -/
theorem intercalate_fields (separator : Char) (cs : List Char) :
    List.intercalate [separator] (fields separator cs) = cs := by
  induction cs with
  | nil => rfl
  | cons c cs ih =>
    unfold fields
    split
    · next h =>
      obtain ⟨f, fs, eq⟩ := List.exists_cons_of_ne_nil (fields_ne_nil separator cs)
      rw [eq] at ih ⊢
      simp [List.intercalate, List.intersperse, h, ← ih]
    · split
      · next h => exact absurd h (fields_ne_nil separator cs)
      · next f fs eq =>
        rw [eq] at ih
        cases fs <;> simp_all [List.intercalate, List.intersperse]

/-- No field holds the separator. -/
theorem not_mem_of_mem_fields {separator : Char} {cs f : List Char}
    (h : f ∈ fields separator cs) : separator ∉ f := by
  induction cs generalizing f with
  | nil => simp_all [fields]
  | cons c cs ih =>
    unfold fields at h
    split at h
    · rcases List.mem_cons.1 h with rfl | h
      · simp
      · exact ih h
    · next ne =>
      split at h
      · next eq => exact absurd eq (fields_ne_nil separator cs)
      · next g gs eq =>
        rcases List.mem_cons.1 h with rfl | h
        · simpa [Ne.symm ne] using ih (eq ▸ List.mem_cons_self)
        · exact ih (eq ▸ List.mem_cons_of_mem _ h)

end ArithFrontEnd.Text
