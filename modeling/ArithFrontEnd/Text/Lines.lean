/-!
# Lines and lists

How a list of texts is shown: one line for each, or between brackets with commas.

## Main definitions

* `lines` — every text on a line of its own.
* `bracketed`, `braced` — the texts between brackets or braces.
* `padded` — a number in a column.
-/

namespace ArithFrontEnd.Text

/-- Every text with a line end after it. -/
def lines (texts : List String) : String := String.join (texts.map (· ++ "\n"))

@[simp] theorem lines_nil : lines [] = "" := rfl

@[simp] theorem lines_cons (text : String) (texts : List String) :
    lines (text :: texts) = text ++ "\n" ++ lines texts := by
  simp [lines, String.join_cons]

/-- The characters of lines are those of the texts, each with a line end after them. -/
theorem toList_lines (texts : List String) :
    (lines texts).toList = texts.flatMap fun text => text.toList ++ ['\n'] := by
  induction texts with
  | nil => rfl
  | cons text texts ih =>
    rw [lines_cons, String.toList_append, String.toList_append, ih]
    rfl

/-- The texts between square brackets, with commas. -/
def bracketed (texts : List String) : String := "[" ++ String.intercalate ", " texts ++ "]"

/-- The texts between braces, with commas. -/
def braced (texts : List String) : String := "\x7b" ++ String.intercalate ", " texts ++ "\x7d"

/-- A number with blanks in front, as wide as is asked for or wider if the number is longer. -/
def padded (width n : Nat) : String :=
  String.ofList (List.replicate (width - (toString n).length) ' ') ++ toString n

end ArithFrontEnd.Text
