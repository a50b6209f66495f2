import ArrayPatch.Grammar.Tree
import ArrayPatch.Json.Read

/-!
# JSON values of syntax trees

A syntax tree is JSON if its literals are numbers or the three words, and its
tokens hold no raw control characters.  `jsonWith?` gives the JSON value of such
a tree, with some of its arrays exchanged: the argument `texts?` says, for the
offset at which an array starts, which texts stand in the place of its elements.
With nothing exchanged the value is that of the tree itself.
-/

namespace ArrayPatch.Grammar

/-- A piece that may stand in a JSON string: control characters are escaped. -/
def StringPiece.isJson : StringPiece → Bool
  | plain c => 0x20 ≤ c.toNat
  | _ => true

/-- The text of a token without raw control characters. -/
def StringPiece.jsonText? (pieces : List StringPiece) : Option Text :=
  if pieces.all StringPiece.isJson then meaning? pieces else none

/-- An array of texts as a JSON value. -/
def jsonTexts (texts : List Text) : Json.Value :=
  .array (texts.map fun text => .string (some text))

variable (texts? : Nat → Option (List Text))

mutual

/-- The JSON value of a tree that starts at an offset. -/
def Tree.jsonWith? (offset : Nat) : Tree → Option Json.Value
  | .literal text => Json.word text
  | .string pieces => do return .string (some (← StringPiece.jsonText? pieces))
  | .emptyArray _ => some (((texts? offset).map jsonTexts).getD (.array []))
  | .array blanks first more =>
      match texts? offset with
      | some texts => some (jsonTexts texts)
      | none => do
          let start := offset + 1 + blanks.size
          let value ← first.jsonWith? start
          let values ← more.jsonWith? (start + first.text.size)
          return .array (value :: values)
  | .emptyObject _ => some (.object [])
  | .object blanks first more => do
      let start := offset + 1 + blanks.size
      let value ← first.jsonWith? start
      let values ← more.jsonWith? (start + first.text.size)
      return .object (value :: values)

/-- The JSON member that starts at an offset. -/
def Member.jsonWith? (offset : Nat) : Member → Option (Option Text × Json.Value)
  | .mk key beforeColon afterColon value => do
      let text ← StringPiece.jsonText? key
      let value ← value.jsonWith?
        (offset + (StringPiece.tokenText key).size + beforeColon.size + 1 + afterColon.size)
      return (some text, value)

/-- The JSON values of the elements after the first one. -/
def Elements.jsonWith? (offset : Nat) : Elements → Option (List Json.Value)
  | .done _ => some []
  | .more beforeComma afterComma element rest => do
      let start := offset + beforeComma.size + 1 + afterComma.size
      let value ← element.jsonWith? start
      let values ← rest.jsonWith? (start + element.text.size)
      return value :: values

/-- The JSON members after the first one. -/
def Members.jsonWith? (offset : Nat) : Members → Option (List (Option Text × Json.Value))
  | .done _ => some []
  | .more beforeComma afterComma member rest => do
      let start := offset + beforeComma.size + 1 + afterComma.size
      let value ← member.jsonWith? start
      let values ← rest.jsonWith? (start + member.text.size)
      return value :: values

end

/-- The JSON value of a tree. -/
def Tree.json? (tree : Tree) : Option Json.Value :=
  tree.jsonWith? (fun _ => none) 0

end ArrayPatch.Grammar
