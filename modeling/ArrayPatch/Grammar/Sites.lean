import ArrayPatch.Grammar.Tree
import ArrayPatch.Settings
import ArrayPatch.Site

/-!
# The sites of a syntax tree

An object has a site when its last member with the identifier field as its key
holds a string and its last member with the target field as its key holds an
array.  The sites of a tree are listed in the order in which their objects
close, so the sites inside an object come before its own.

Every function takes the offset at which the text of the tree starts.
-/

namespace ArrayPatch.Grammar

/-- A direct member of an object: its key, its value and where they start. -/
structure Entry where
  key : Option Text
  keyStart : Nat
  valueStart : Nat
  value : Tree

namespace Entry

/-- The offset behind the value. -/
def valueEnd (entry : Entry) : Nat :=
  entry.valueStart + entry.value.text.size

end Entry

/-- The value of a tree is an array. -/
def Tree.isArray : Tree → Bool
  | .emptyArray _ => true
  | .array .. => true
  | _ => false

theorem Tree.meaning?_eq_none_of_isArray {tree : Tree} (harray : tree.isArray) :
    tree.meaning? = none := by
  cases tree with
  | emptyArray | array => rfl
  | literal | string | emptyObject | object => cases harray

/-- The offset of the value of a member. -/
def Member.valueStart (offset : Nat) : Member → Nat
  | .mk key beforeColon afterColon _ =>
      offset + (StringPiece.tokenText key).size + beforeColon.size + 1 + afterColon.size

/-- A member as an entry of its object. -/
def Member.entry (offset : Nat) : Member → Entry
  | member@(.mk key _ _ value) =>
      { key := StringPiece.meaning? key
        keyStart := offset
        valueStart := member.valueStart offset
        value }

/-- The members after the first one as entries. -/
def Members.entries (offset : Nat) : Members → List Entry
  | .done _ => []
  | .more beforeComma afterComma member rest =>
      let start := offset + beforeComma.size + 1 + afterComma.size
      member.entry start :: rest.entries (start + member.text.size)

/-- The direct members of an object in their order. -/
def Tree.entries (offset : Nat) : Tree → List Entry
  | .object blanks first more =>
      let start := offset + 1 + blanks.size
      first.entry start :: more.entries (start + first.text.size)
  | _ => []

/-- The last entry of a key. -/
def lastEntry? (key : Text) (entries : List Entry) : Option Entry :=
  entries.reverse.find? fun entry => entry.key = some key

/-- The site of an object with the given entries. -/
def siteOf? (settings : Settings) (entries : List Entry) : Option Site := do
  let identifier ← (← lastEntry? settings.identifierField entries).value.meaning?
  let target ← lastEntry? settings.targetField entries
  if target.value.isArray then
    some {
      identifier
      keyStart := target.keyStart
      valueStart := target.valueStart
      valueEnd := target.valueEnd }
  else
    none

variable (settings : Settings)

mutual

/-- The sites of a value that starts at an offset. -/
def Tree.sites (offset : Nat) : Tree → List Site
  | .array blanks first more =>
      let start := offset + 1 + blanks.size
      first.sites start ++ more.sites (start + first.text.size)
  | .object blanks first more =>
      let start := offset + 1 + blanks.size
      first.sites start ++ more.sites (start + first.text.size) ++
        (siteOf? settings ((Tree.object blanks first more).entries offset)).toList
  | _ => []

/-- The sites inside the value of a member. -/
def Member.sites (offset : Nat) : Member → List Site
  | .mk key beforeColon afterColon value =>
      value.sites
        (offset + (StringPiece.tokenText key).size + beforeColon.size + 1 + afterColon.size)

/-- The sites inside the elements after the first one. -/
def Elements.sites (offset : Nat) : Elements → List Site
  | .done _ => []
  | .more beforeComma afterComma element rest =>
      let start := offset + beforeComma.size + 1 + afterComma.size
      element.sites start ++ rest.sites (start + element.text.size)

/-- The sites inside the members after the first one. -/
def Members.sites (offset : Nat) : Members → List Site
  | .done _ => []
  | .more beforeComma afterComma member rest =>
      let start := offset + beforeComma.size + 1 + afterComma.size
      member.sites start ++ rest.sites (start + member.text.size)

end

end ArrayPatch.Grammar
