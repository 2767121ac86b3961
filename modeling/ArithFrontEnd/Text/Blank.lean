/-!
# White space

A character is blank when it has the Unicode property `White_Space`. Names of grammar symbols hold
no blank, and a line of blanks holds no quadruple. The property is wider than the white space that
core's `Char.isWhitespace` knows (`isBlank_of_isWhitespace`).

## Main definitions

* `isBlank` — the property as a test.
-/

namespace ArithFrontEnd.Text

/-- The characters with the Unicode property `White_Space`: the control characters from tabulation
to carriage return, the next-line control, and every space or separator of lines or paragraphs. -/
def isBlank (c : Char) : Bool :=
  let n := c.toNat
  (9 ≤ n && n ≤ 13) || n == 0x20 || n == 0x85 || n == 0xA0 || n == 0x1680 ||
    (0x2000 ≤ n && n ≤ 0x200A) || n == 0x2028 || n == 0x2029 || n == 0x202F || n == 0x205F ||
    n == 0x3000

/-- Every character that core takes for white space is blank. -/
theorem isBlank_of_isWhitespace {c : Char} (h : c.isWhitespace = true) : isBlank c = true := by
  simp only [Char.isWhitespace, Bool.or_eq_true, decide_eq_true_eq] at h
  rcases h with ((rfl | rfl) | rfl) | rfl <;> decide

end ArithFrontEnd.Text
