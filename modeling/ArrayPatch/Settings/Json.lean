import ArrayPatch.Error
import ArrayPatch.Json.Encode
import ArrayPatch.Json.Read

/-!
# Settings as JSON

Settings are written as an object with the members `identifierField`,
`targetField` and `maxDepth`, in this order.

They are read from an object, whose other members are ignored, or from an array
of at most three elements that are the members in the same order.  What is
missing has its default.  A member of the wrong type is refused, and so is one
of the three that occurs twice.  Settings that are read must be valid.
-/

namespace ArrayPatch.Settings

/-- The name of the member that holds the identifier field. -/
def identifierKey : Text :=
  ['i', 'd', 'e', 'n', 't', 'i', 'f', 'i', 'e', 'r', 'F', 'i', 'e', 'l', 'd']

/-- The name of the member that holds the target field. -/
def targetKey : Text :=
  ['t', 'a', 'r', 'g', 'e', 't', 'F', 'i', 'e', 'l', 'd']

/-- The name of the member that holds the nesting limit. -/
def depthKey : Text :=
  ['m', 'a', 'x', 'D', 'e', 'p', 't', 'h']

/-- Settings as the text of a JSON object. -/
def encode (settings : Settings) : Text :=
  ['\x7b'] ++ Json.encodeString identifierKey ++ [':'] ++
    Json.encodeString settings.identifierField ++ [','] ++
    Json.encodeString targetKey ++ [':'] ++ Json.encodeString settings.targetField ++ [','] ++
    Json.encodeString depthKey ++ [':'] ++ Nat.toDigits 10 settings.maxDepth ++ ['\x7d']

/-- Read an optional value; a missing one has its default. -/
def orDefault {α : Type} (read? : Json.Value → Option α) (default : α) :
    Option Json.Value → Option α
  | none => some default
  | some value => read? value

/-- Settings from the values of their members, as far as these are given. -/
def ofValues? (identifier target depth : Option Json.Value) : Option Settings := do
  let defaults : Settings := {}
  let identifierField ← orDefault Json.Value.asText? defaults.identifierField identifier
  let targetField ← orDefault Json.Value.asText? defaults.targetField target
  let maxDepth ← orDefault Json.Value.asNatural? defaults.maxDepth depth
  return { identifierField, targetField, maxDepth }

/-- The only member of a name, or that there is none; no result for a name that
occurs twice. -/
def member? (members : List (Option Text × Json.Value)) (key : Text) :
    Option (Option Json.Value) :=
  match members.filter fun entry => entry.1 = some key with
  | [] => some none
  | [entry] => some (some entry.2)
  | _ => none

/-- Settings from a JSON value.  Every member must have a name that is a text. -/
def ofJson? : Json.Value → Option Settings
  | .object members =>
      if members.all fun entry => entry.1.isSome then do
        let identifier ← member? members identifierKey
        let target ← member? members targetKey
        let depth ← member? members depthKey
        ofValues? identifier target depth
      else
        none
  | .array [] => ofValues? none none none
  | .array [identifier] => ofValues? (some identifier) none none
  | .array [identifier, target] => ofValues? (some identifier) (some target) none
  | .array [identifier, target, depth] =>
      ofValues? (some identifier) (some target) (some depth)
  | _ => none

/-- Refuse settings that cannot be used. -/
def validate (settings : Settings) : Except Error Unit :=
  match settings.fault? with
  | none => .ok ()
  | some fault => .error (.invalidSettings fault)

/-- Read valid settings from a JSON text. -/
def decode (text : Text) : Except Error Settings :=
  match Json.read text >>= ofJson? with
  | none => .error (.invalidSettings (.unreadable "the text holds no settings".toList))
  | some settings => do
      settings.validate
      return settings

end ArrayPatch.Settings
