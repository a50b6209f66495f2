import ArrayPatch.Text.Space

/-!
# Layouts

A layout says how a document indents its lines and how it ends them.  It is
detected from the raw text, without regard to its structure.

A line counts for the indentation unit when a run of indentation stands before
a character that is no white space.  If the indentation of such a line holds a
tab, the unit is a tab; otherwise it is the shortest indentation of such a
line.  A single carriage return before a line feed makes all line ends of
rewritten arrays double.
-/

namespace ArrayPatch

/-- One step of indentation. -/
inductive IndentUnit where
  | tab
  | spaces (count : Nat)
deriving DecidableEq, Repr

/-- What ends a line. -/
inductive LineEnding where
  | lf
  | crlf
deriving DecidableEq, Repr

/-- How a document is laid out. -/
structure Layout where
  indent : IndentUnit := .spaces 2
  ending : LineEnding := .lf
deriving DecidableEq, Repr

namespace IndentUnit

/-- The characters of one step of indentation. -/
def text : IndentUnit → Text
  | tab => ['\t']
  | spaces count => List.replicate count ' '

/-- The name of a unit in reports. -/
def label : IndentUnit → String
  | tab => "Tab"
  | spaces count => s!"Spaces({count})"

end IndentUnit

namespace LineEnding

/-- The characters that end a line. -/
def text : LineEnding → Text
  | lf => ['\n']
  | crlf => ['\r', '\n']

/-- The name of a line ending in reports. -/
def label : LineEnding → String
  | lf => "Lf"
  | crlf => "CrLf"

end LineEnding

namespace Text

/-- The lines of a text.  A line feed ends a line, together with a carriage
return right before it. -/
def lines : Text → List Text
  | [] => [[]]
  | '\n' :: text => [] :: lines text
  | '\r' :: '\n' :: text => [] :: lines text
  | c :: text =>
      match lines text with
      | [] => [[c]]
      | line :: rest => (c :: line) :: rest

/-- The indentation of a line that has something behind it. -/
def indentation? (line : Text) : Option Text :=
  let leading := line.takeWhile isIndent
  match leading, line.dropWhile isIndent with
  | _ :: _, c :: _ => if isWhiteSpace c then none else some leading
  | _, _ => none

/-- The indentation of the line that an offset lies on, as far as the offset. -/
def indentationAt? (text : Text) (offset : Nat) : Option Text :=
  (text.splitAt? offset).map fun (before, _) => before.lastLine.takeWhile isIndent

end Text

namespace Layout

/-- The unit that a list of indentations shows.  `shortest` is the shortest of
the indentations before them. -/
def indentOf (shortest : Option Nat) : List Text → IndentUnit
  | [] => shortest.elim (.spaces 2) .spaces
  | leading :: rest =>
      if '\t' ∈ leading then .tab
      else indentOf (some (shortest.elim leading.length (min leading.length))) rest

/-- The indentation unit of a text, two spaces if no line shows one. -/
def detectIndent (text : Text) : IndentUnit :=
  indentOf none (text.lines.filterMap Text.indentation?)

/-- Whether a carriage return stands before a line feed. -/
def hasCrlf : Text → Bool
  | [] => false
  | c :: text => (c == '\r' && text.head? == some '\n') || hasCrlf text

/-- The line ending of a text. -/
def detectEnding (text : Text) : LineEnding :=
  if hasCrlf text then .crlf else .lf

/-- The layout of a text. -/
def detect (text : Text) : Layout :=
  ⟨detectIndent text, detectEnding text⟩

end Layout

end ArrayPatch
