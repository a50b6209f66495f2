import ArrayPatch.Json.Encode
import ArrayPatch.Layout

/-!
# Rendering arrays

A list of texts is rendered as a JSON array in a given layout.  The empty list
is `[]`.  Otherwise every element stands on a line of its own, one unit deeper
than the line of the property that owns the array, and the closing bracket
stands on a last line as deep as the property.
-/

namespace ArrayPatch.Layout

/-- The line break in front of an element or of the closing bracket. -/
def breakTo (layout : Layout) (indentation : Text) : Text :=
  layout.ending.text ++ indentation

/-- The lines of the elements, each one starting with its line break and all but
the last one ending in a comma. -/
def renderElements (layout : Layout) (propertyIndent : Text) (values : List Text) : Text :=
  [','].intercalate <| values.map fun value =>
    layout.breakTo (propertyIndent ++ layout.indent.text) ++ Json.encodeString value

/-- A list of texts as the value of a property with the given indentation. -/
def render (layout : Layout) (propertyIndent : Text) (values : List Text) : Text :=
  if values = [] then
    ['[', ']']
  else
    '[' :: layout.renderElements propertyIndent values ++ layout.breakTo propertyIndent ++ [']']

end ArrayPatch.Layout
