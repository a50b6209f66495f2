import ArrayPatch.Text.CodeUnit

/-!
# JSON values

Numbers are kept as they are spelled, and the members of an object in their
order with repetitions.  A string that is spelled with a broken escape by code
unit or with an unpaired surrogate has an end but stands for no text; it has
`none` in the place of the text.
-/

namespace ArrayPatch.Json

/-- A JSON value. -/
inductive Value where
  | null
  | bool (value : Bool)
  | number (spelling : Text)
  | string (text : Option Text)
  | array (elements : List Value)
  | object (members : List (Option Text × Value))
deriving Repr

namespace Value

/-- The text of a string. -/
def asText? : Value → Option Text
  | string text => text
  | _ => none

/-- The texts of an array of strings. -/
def asTexts? : Value → Option (List Text)
  | array elements => elements.mapM asText?
  | _ => none

/-- The number below 2^64 that is spelled with digits alone. -/
def asNatural? : Value → Option Nat
  | number spelling =>
      if spelling.all Char.isDigit then
        let natural := spelling.foldl (fun n c => n * 10 + (c.toNat - '0'.toNat)) 0
        if natural < UInt64.size then some natural else none
      else
        none
  | _ => none

mutual

/-- Whether every string and every key inside a value stands for a text. -/
def isWhole : Value → Bool
  | string text => text.isSome
  | array elements => elementsAreWhole elements
  | object members => membersAreWhole members
  | _ => true

/-- Whether elements are whole. -/
def elementsAreWhole : List Value → Bool
  | [] => true
  | element :: elements => element.isWhole && elementsAreWhole elements

/-- Whether a member is whole. -/
def memberIsWhole : Option Text × Value → Bool
  | (key, value) => key.isSome && value.isWhole

/-- Whether members are whole. -/
def membersAreWhole : List (Option Text × Value) → Bool
  | [] => true
  | member :: members => memberIsWhole member && membersAreWhole members

end

mutual

/-- How many arrays and objects lie inside each other at most. -/
def depth : Value → Nat
  | array elements => elementsDepth elements + 1
  | object members => membersDepth members + 1
  | _ => 0

/-- The greatest depth of an element. -/
def elementsDepth : List Value → Nat
  | [] => 0
  | element :: elements => max element.depth (elementsDepth elements)

/-- The depth of the value of a member. -/
def memberDepth : Option Text × Value → Nat
  | (_, value) => value.depth

/-- The greatest depth of a member. -/
def membersDepth : List (Option Text × Value) → Nat
  | [] => 0
  | member :: members => max (memberDepth member) (membersDepth members)

end

end Value

end ArrayPatch.Json
