import ArrayPatch.Text

/-!
# Lines and columns

A position names a place in a text three times: by its byte offset, by the
number of its line and by the number of its column.  Lines and columns count
from one, and a column counts characters.

Every offset has a position: one inside a character stands for the boundary
before it, one past the end for the end.
-/

namespace ArrayPatch

/-- A place in a text. -/
structure Position where
  offset : Nat
  line : Nat
  column : Nat
deriving DecidableEq, Repr

namespace Position

/-- The position right after a piece of text that starts its document. -/
def after (before : Text) : Position where
  offset := before.size
  line := before.count '\n' + 1
  column := before.lastLine.length + 1

/-- The position of a byte offset. -/
def ofOffset (text : Text) (offset : Nat) : Position :=
  after (text.upTo offset)

/-- The line and the column, separated by a colon. -/
def display (position : Position) : String :=
  s!"{position.line}:{position.column}"

end Position

end ArrayPatch
