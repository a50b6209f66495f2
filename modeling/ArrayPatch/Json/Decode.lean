import ArrayPatch.Error
import ArrayPatch.Json.Read

/-!
# Decoding texts from JSON

The two readers of strings and of lists of strings, with an error in the place
of a missing result.
-/

namespace ArrayPatch.Json

/-- The text of a JSON string, or the error that there is none. -/
def decodeString (text : Text) : Except Error Text :=
  match readString text with
  | some value => .ok value
  | none => .error (.unexpectedJson "the text is not a JSON string".toList)

/-- The texts of a JSON array of strings, or the error that there are none. -/
def decodeStrings (text : Text) : Except Error (List Text) :=
  match readStrings text with
  | some values => .ok values
  | none => .error (.unexpectedJson "the text is not a JSON array of strings".toList)

end ArrayPatch.Json
