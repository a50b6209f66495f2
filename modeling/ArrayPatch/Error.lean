import ArrayPatch.Settings
import ArrayPatch.Text.Position

/-!
# Errors

A *flaw* says what is wrong with a text and a *fault* also where.  An *error*
is any reason for which an operation is refused: a fault of the text, a name
that occurs twice or not at all, two patches that overlap, unusable settings,
or JSON of the wrong form.

A *failure* is an error or a range that a text does not have.  The latter
answers a caller who asks for a part of a text by offsets that do not fit it.
-/

namespace ArrayPatch

/-- What can be wrong at one place of a text. -/
inductive Flaw where
  | unterminatedString
  | expectedString
  | invalidUnicodeEscape
  | unknownEscape (character : Char)
  | expectedValue
  | expectedKey
  | expectedColon
  | expectedCommaOrBracket
  | expectedCommaOrBrace
  | unterminatedArray
  | unterminatedObject
  | trailingContent
  | nestingTooDeep
deriving DecidableEq, Repr

/-- A flaw and the byte offset that it is reported at. -/
structure Fault where
  flaw : Flaw
  offset : Nat
deriving DecidableEq, Repr

namespace Fault

/-- The flaw in words, with its offset. -/
def message (fault : Fault) : String :=
  let offset := s!"offset {fault.offset}"
  match fault.flaw with
  | .unterminatedString => "Unterminated string starting at " ++ offset
  | .expectedString => "Expected '\"' at " ++ offset
  | .invalidUnicodeEscape =>
      "Invalid unicode escape at " ++ offset ++
        " (expected 4 hex digits forming a valid code point)"
  | .unknownEscape character =>
      "Unknown escape sequence '\\" ++ character.toString ++ "' at " ++ offset
  | .expectedValue => "Expected a value at " ++ offset
  | .expectedKey => "Expected a string key at " ++ offset
  | .expectedColon => "Expected ':' at " ++ offset
  | .expectedCommaOrBracket => "Expected ',' or ']' at " ++ offset
  | .expectedCommaOrBrace => "Expected ',' or '\x7d' at " ++ offset
  | .unterminatedArray => "Unterminated array starting at " ++ offset
  | .unterminatedObject => "Unterminated object starting at " ++ offset
  | .trailingContent => "Unexpected trailing content at " ++ offset
  | .nestingTooDeep => "Maximum nesting depth exceeded at " ++ offset

end Fault

/-- Why an operation is refused. -/
inductive Error where
  | malformed (fault : Fault)
  | duplicateIdentifier (identifier : Text)
  | unknownIdentifier (identifier : Text)
  | overlappingPatches (outer inner : Text)
  | invalidSettings (fault : SettingsFault)
  | unexpectedJson (reason : Text)
deriving DecidableEq, Repr

/-- The kinds of errors. -/
inductive ErrorKind where
  | parse
  | duplicateIdentifier
  | unknownIdentifier
  | overlappingPatches
  | settings
  | json
deriving DecidableEq, Repr

namespace Error

/-- The kind of an error. -/
def kind : Error → ErrorKind
  | malformed _ => .parse
  | duplicateIdentifier _ => .duplicateIdentifier
  | unknownIdentifier _ => .unknownIdentifier
  | overlappingPatches _ _ => .overlappingPatches
  | invalidSettings _ => .settings
  | unexpectedJson _ => .json

/-- The offset of an error that has a place in the text. -/
def offset? : Error → Option Nat
  | malformed fault => some fault.offset
  | _ => none

/-- The position of an error that has a place in the text. -/
def position? (error : Error) (text : Text) : Option Position :=
  error.offset?.map (Position.ofOffset text)

/-- The error in words. -/
def message : Error → String
  | malformed fault => fault.message
  | duplicateIdentifier identifier => "Duplicate identifier: " ++ identifier.quote
  | unknownIdentifier identifier => "No location found for identifier " ++ identifier.quote
  | overlappingPatches outer inner =>
      "Patch for " ++ inner.quote ++ " overlaps the patch for " ++ outer.quote
  | invalidSettings fault => "Invalid configuration: " ++ fault.message
  | unexpectedJson reason => "Serialization error: " ++ String.ofList reason

/-- Exactly the faults of a text have an offset. -/
theorem offset?_eq_some_iff {error : Error} {offset : Nat} :
    error.offset? = some offset ↔ ∃ fault, error = malformed fault ∧ fault.offset = offset := by
  cases error <;> simp [offset?]

end Error

/-- Why an operation has no result. -/
inductive Failure where
  | refused (error : Error)
  | brokenRange (start stop : Nat)
deriving DecidableEq, Repr

end ArrayPatch
