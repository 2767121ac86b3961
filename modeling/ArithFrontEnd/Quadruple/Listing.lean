import ArithFrontEnd.Quadruple.Basic
import ArithFrontEnd.Text.Blank

/-!
# Listings of quadruples

A listing is a text of quadruples, one on each line. Blank lines count for the numbers of lines and
for nothing else. A listing remembers how the lines of its text end, so that it is written as it was
read.

## Main definitions

* `Layout`, `Layout.detect` — how the lines of a text end.
* `Listing`, `Listing.text` — quadruples with a layout, and how they are written.
* `Listing.ofText` — the listing that a text holds.
-/

namespace ArithFrontEnd

/-- How the lines of a text end. -/
structure Layout where
  /-- Lines end with a carriage return and a line feed. -/
  crlf : Bool
  /-- The last line has an end. -/
  finalNewline : Bool
  deriving DecidableEq, Repr

namespace Layout

/-- Every line ends with a line feed. -/
def plain : Layout := ⟨false, true⟩

/-- The layout of a text: its first line shows how lines end. -/
def detect (text : List Char) : Layout where
  crlf := text.contains '\n' && (text.takeWhile (· != '\n')).getLast? == some '\r'
  finalNewline := text.isEmpty || text.getLast? == some '\n'

/-- What stands between two lines. -/
def terminator (layout : Layout) : String := if layout.crlf then "\r\n" else "\n"

end Layout

/-- A sequence of quadruples with the layout of its text. -/
structure Listing where
  /-- The quadruples in order. -/
  quads : List Quadruple
  /-- How the lines end. -/
  layout : Layout
  deriving DecidableEq, Repr

namespace Listing

/-- The listing of quadruples that come from no text. -/
def ofQuads (quads : List Quadruple) : Listing := ⟨quads, .plain⟩

/-- How a listing is written. -/
def text (l : Listing) : String :=
  String.intercalate l.layout.terminator (l.quads.map Quadruple.line) ++
    if l.layout.finalNewline && !l.quads.isEmpty then l.layout.terminator else ""

/-- The quadruples of lines that are numbered from `number`. -/
def quadsOfLines (number : Nat) : List (List Char) → Except QuadrupleError (List Quadruple)
  | [] => .ok []
  | line :: lines =>
    if line.all Text.isBlank then
      quadsOfLines (number + 1) lines
    else
      match Quadruple.ofLine number line with
      | .error e => .error e
      | .ok q => (quadsOfLines (number + 1) lines).map (q :: ·)

/-- The listing that a text holds. -/
def ofText (source : String) : Except QuadrupleError Listing :=
  let text := source.toList
  (quadsOfLines 1 (Text.lineTexts text)).map fun quads => ⟨quads, .detect text⟩

end Listing

end ArithFrontEnd
