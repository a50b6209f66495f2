import ArrayPatch.Text
import ArrayPatch.Text.Unprintable
import ArrayPatch.Text.GraphemeExtend

/-!
# Quoted names

Messages quote the names that they mention.  A quoted name shows every
character that prints by itself as it is.  The quotation mark, the backslash
and the common controls have an escape of two characters; all other characters
that do not print by themselves are written as the hexadecimal number of their
code point in braces.

Two groups of letters are told apart from their properties.  The Hangul fillers
count as printable but show nothing.  The halfwidth sound marks of Katakana
count as extending the character before them but fill a cell of their own.
-/

namespace ArrayPatch.Text

/-- The letters that only fill a place in a Hangul syllable. -/
def isHangulFiller (c : Char) : Bool :=
  c.toNat == 0x115F || c.toNat == 0x1160 || c.toNat == 0x3164 || c.toNat == 0xFFA0

/-- The voiced and the semi-voiced sound mark of halfwidth Katakana. -/
def isHalfwidthSoundMark (c : Char) : Bool :=
  c.toNat == 0xFF9E || c.toNat == 0xFF9F

/-- A character that shows something of its own when it is printed. -/
def printsByItself (c : Char) : Bool :=
  !(isUnprintable c || isHangulFiller c) && (!isGraphemeExtend c || isHalfwidthSoundMark c)

/-- A character written as the number of its code point. -/
def escapeCode (c : Char) : Text :=
  ['\\', 'u', '\x7b'] ++ Nat.toDigits 16 c.toNat ++ ['\x7d']

/-- A character as it stands in a quoted name. -/
def quoteChar (c : Char) : Text :=
  if c == '\x00' then ['\\', '0']
  else if c == '\t' then ['\\', 't']
  else if c == '\n' then ['\\', 'n']
  else if c == '\r' then ['\\', 'r']
  else if c == '"' || c == '\\' then ['\\', c]
  else if printsByItself c then [c]
  else escapeCode c

/-- A name between quotation marks. -/
def quote (name : Text) : String :=
  String.ofList ('"' :: name.flatMap quoteChar ++ ['"'])

end ArrayPatch.Text
