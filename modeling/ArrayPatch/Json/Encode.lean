import ArrayPatch.Text

/-!
# Writing JSON

A string is written between quotation marks.  The quotation mark, the backslash
and the control characters below U+0020 are escaped, five of the latter by a
letter and the others by their code unit in lower case.  Every other character
stands for itself.  Nothing is put between the elements of a list but a comma.
-/

namespace ArrayPatch.Json

/-- A character as it stands in a written string. -/
def encodeChar (c : Char) : Text :=
  if c = '"' then ['\\', '"']
  else if c = '\\' then ['\\', '\\']
  else if c = '\x08' then ['\\', 'b']
  else if c = '\t' then ['\\', 't']
  else if c = '\n' then ['\\', 'n']
  else if c = '\x0c' then ['\\', 'f']
  else if c = '\r' then ['\\', 'r']
  else if c.toNat < 0x20 then
    ['\\', 'u', '0', '0', Nat.digitChar (c.toNat / 16), Nat.digitChar (c.toNat % 16)]
  else [c]

/-- A text as a JSON string. -/
def encodeString (text : Text) : Text :=
  '"' :: text.flatMap encodeChar ++ ['"']

/-- Texts as a JSON array of strings. -/
def encodeStrings (texts : List Text) : Text :=
  '[' :: [','].intercalate (texts.map encodeString) ++ [']']

end ArrayPatch.Json
