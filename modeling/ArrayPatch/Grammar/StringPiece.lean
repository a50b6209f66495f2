import ArrayPatch.Text.CodeUnit

/-!
# Pieces of string tokens

A string token is a sequence of pieces between quotation marks.  There are four
forms of pieces: a character that stands for itself, an escape by a letter, an
escape by a code unit, and an escape by a surrogate pair.

A piece is well formed when it stands for a character.  The same character can
have several spellings, so `value?` has no inverse; the text of a piece is
unique.
-/

namespace ArrayPatch.Grammar

/-- A piece of a string token. -/
inductive StringPiece where
  | plain (c : Char)
  | letter (letter : Char)
  | unit (digits : Text)
  | pair (high low : Text)
deriving DecidableEq, Repr

namespace StringPiece

/-- The letters that may follow a backslash, with the characters that the
escapes stand for. -/
def letters : List (Char × Char) :=
  [('"', '"'), ('\\', '\\'), ('/', '/'), ('b', '\x08'), ('f', '\x0c'), ('n', '\n'), ('r', '\r'),
    ('t', '\t')]

/-- The number that four hexadecimal digits name. -/
def unitValue? (digits : Text) : Option Nat :=
  if digits.length = 4 then
    digits.foldlM (fun n c => (Text.hexDigit c).map (n * 16 + ·)) 0
  else
    none

/-- The piece as it is spelled. -/
def text : StringPiece → Text
  | plain c => [c]
  | letter c => ['\\', c]
  | unit digits => '\\' :: 'u' :: digits
  | pair high low => '\\' :: 'u' :: high ++ '\\' :: 'u' :: low

/-- No piece is empty. -/
theorem length_lt_append (piece : StringPiece) (rest : Text) :
    rest.length < (piece.text ++ rest).length := by
  cases piece <;> simp only [text, List.length_append, List.length_cons] <;> omega

/-- The character that a piece stands for. -/
def value? : StringPiece → Option Char
  | plain c => if c = '"' ∨ c = '\\' then none else some c
  | letter c => letters.lookup c
  | unit digits => do
      let code ← unitValue? digits
      if Text.isHighSurrogate code || Text.isLowSurrogate code then none
      else some (Char.ofNat code)
  | pair high low => do
      let high ← unitValue? high
      let low ← unitValue? low
      if Text.isHighSurrogate high && Text.isLowSurrogate low then some (Text.pairChar high low)
      else none

/-- The text between the marks of a token. -/
def bodyText (pieces : List StringPiece) : Text :=
  pieces.flatMap text

/-- A token as it is spelled. -/
def tokenText (pieces : List StringPiece) : Text :=
  '"' :: bodyText pieces ++ ['"']

/-- The text that a token stands for. -/
def meaning? (pieces : List StringPiece) : Option Text :=
  pieces.mapM value?

@[simp]
theorem bodyText_nil : bodyText [] = [] :=
  rfl

@[simp]
theorem bodyText_cons (piece : StringPiece) (pieces : List StringPiece) :
    bodyText (piece :: pieces) = piece.text ++ bodyText pieces :=
  rfl

@[simp]
theorem meaning?_nil : meaning? [] = some [] :=
  rfl

@[simp]
theorem meaning?_cons (piece : StringPiece) (pieces : List StringPiece) :
    meaning? (piece :: pieces) =
      piece.value?.bind fun c => (meaning? pieces).map (c :: ·) := by
  simp only [meaning?, List.mapM_cons, Option.map_eq_bind]
  rfl

end StringPiece

end ArrayPatch.Grammar
