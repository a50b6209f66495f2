import ArrayPatch.Scan.Basic
import ArrayPatch.Scan.StringToken

/-!
# Values

A value is an object, an array, a string token or a literal.  A literal is any
other run of characters up to a blank, a comma or a closing bracket, so the
scanner accepts more than numbers and the three words.

`value` reads one value and reports the sites inside it.  Its first argument is
the number of arrays and objects that may still be opened.  The loops over the
elements of an array and over the members of an object take the reader of the
values one level deeper as an argument; they end because every element and
every member leaves less of the text.

Of an object's members the last identifier field and the last target field
decide.  They are kept in `Slots`, which every member updates.
-/

namespace ArrayPatch

namespace Scan

/-- The characters of a literal. -/
def isLiteral (c : Char) : Bool :=
  !(isBlank c || c == ',' || c == ']' || c == '\x7d')

/-- Read a literal. -/
def literal (cursor : Cursor) : Except Fault (After cursor) :=
  match cursor with
  | ⟨offset, []⟩ => .error ⟨.expectedValue, offset⟩
  | ⟨offset, c :: rest⟩ =>
      if isLiteral c then
        let next := Cursor.skip isLiteral ⟨offset + c.utf8Size, rest⟩
        .ok ⟨next, Nat.lt_succ_of_le (Cursor.length_skip_le isLiteral _)⟩
      else
        .error ⟨.expectedValue, offset⟩

/-- What the members read so far say about an object: the value of its last
identifier field, and key and value of its last target field. -/
structure Slots where
  identifier : Option Text := none
  target : Option (Nat × Nat × Nat) := none

namespace Slots

/-- A member whose value has the kind that neither field needs empties the slot
of its key. -/
def pass (slots : Slots) (settings : Settings) (key : Text) : Slots where
  identifier := if key = settings.identifierField then none else slots.identifier
  target := if key = settings.targetField then none else slots.target

/-- The identifier field with a string value. -/
def identify (slots : Slots) (identifier : Text) : Slots :=
  { slots with identifier := some identifier }

/-- The target field with an array value. -/
def aim (slots : Slots) (keyStart valueStart valueEnd : Nat) : Slots :=
  { slots with target := some (keyStart, valueStart, valueEnd) }

/-- The site of an object that has both fields when it closes. -/
def site? (slots : Slots) : Option Site :=
  match slots.identifier, slots.target with
  | some identifier, some (keyStart, valueStart, valueEnd) =>
      some { identifier, keyStart, valueStart, valueEnd }
  | _, _ => none

end Slots

section Nested

variable (element : (cursor : Cursor) → Scan (After cursor)) (opening : Nat)

/-- Read the elements after the first one, and the bracket that closes the
array opened at `opening`. -/
def moreElements (cursor : Cursor) : Scan (After cursor) :=
  match hskip : cursor.skipBlanks with
  | ⟨_, []⟩ => fail .unterminatedArray opening
  | ⟨offset, c :: rest⟩ =>
      have hrest := Cursor.length_lt_of_skipBlanks_eq hskip
      if c = ',' then
        let item := Cursor.skipBlanks ⟨offset + 1, rest⟩
        have hitem : item.rest.length ≤ rest.length := Cursor.length_skipBlanks_le _
        if item.rest = [] then
          fail .unterminatedArray opening
        else do
          let next ← element item
          let last ← moreElements next.1
          return ⟨last.1, by have := next.2; have := last.2; omega⟩
      else if c = ']' then
        return ⟨⟨offset + 1, rest⟩, hrest⟩
      else
        fail .expectedCommaOrBracket offset
termination_by cursor.rest.length
decreasing_by have := next.2; omega

/-- Read an array from behind its opening bracket. -/
def elements (cursor : Cursor) : Scan (After cursor) :=
  match hskip : cursor.skipBlanks with
  | ⟨_, []⟩ => fail .unterminatedArray opening
  | ⟨offset, c :: rest⟩ =>
      have hrest := Cursor.length_lt_of_skipBlanks_eq hskip
      if c = ']' then
        return ⟨⟨offset + 1, rest⟩, hrest⟩
      else do
        let next ← element ⟨offset, c :: rest⟩
        let last ← moreElements element opening next.1
        return ⟨last.1, Cursor.length_after_item_lt last hrest⟩

variable (settings : Settings)

/-- Read the value of a member and enter it into the slots. -/
def memberValue (slots : Slots) (key : Text) (keyStart : Nat) (cursor : Cursor) :
    Scan (Slots × After cursor) :=
  match cursor.rest.head? with
  | none => fail .unterminatedObject opening
  | some c =>
      if c = '"' ∧ key = settings.identifierField then do
        let (identifier, next) ← ofExcept (StringToken.read cursor)
        return (slots.identify identifier, next)
      else do
        let next ← element cursor
        if c = '[' ∧ key = settings.targetField then
          return (slots.aim keyStart cursor.offset next.1.offset, next)
        else
          return (slots.pass settings key, next)

/-- Read a member of the object opened at `opening`. -/
def member (slots : Slots) (cursor : Cursor) : Scan (Slots × After cursor) :=
  match cursor.rest.head? with
  | none => fail .unterminatedObject opening
  | some c =>
      if c = '"' then do
        let (key, behindKey) ← ofExcept (StringToken.read cursor)
        match hskip : behindKey.1.skipBlanks with
        | ⟨_, []⟩ => fail .unterminatedObject opening
        | ⟨offset, c :: rest⟩ =>
            have hrest := Cursor.length_lt_of_skipBlanks_eq hskip
            if c = ':' then do
              let start := Cursor.skipBlanks ⟨offset + 1, rest⟩
              have hstart : start.rest.length ≤ rest.length := Cursor.length_skipBlanks_le _
              let (slots, next) ←
                memberValue element opening settings slots key cursor.offset start
              return ⟨slots, next.1, by have := behindKey.2; have := next.2; omega⟩
            else
              fail .expectedColon offset
      else
        fail .expectedKey cursor.offset

/-- Read the members after the first one, and the brace that closes the object.
The site of the object, if it has one, is reported then. -/
def moreMembers (slots : Slots) (cursor : Cursor) : Scan (After cursor) :=
  match hskip : cursor.skipBlanks with
  | ⟨_, []⟩ => fail .unterminatedObject opening
  | ⟨offset, c :: rest⟩ =>
      have hrest := Cursor.length_lt_of_skipBlanks_eq hskip
      if c = ',' then do
        let start := Cursor.skipBlanks ⟨offset + 1, rest⟩
        have hstart : start.rest.length ≤ rest.length := Cursor.length_skipBlanks_le _
        let (slots, next) ← member element opening settings slots start
        let last ← moreMembers slots next.1
        return ⟨last.1, by have := next.2; have := last.2; omega⟩
      else if c = '\x7d' then do
        report slots.site?
        return ⟨⟨offset + 1, rest⟩, hrest⟩
      else
        fail .expectedCommaOrBrace offset
termination_by cursor.rest.length
decreasing_by have := next.2; omega

/-- Read an object from behind its opening brace. -/
def members (cursor : Cursor) : Scan (After cursor) :=
  match hskip : cursor.skipBlanks with
  | ⟨_, []⟩ => fail .unterminatedObject opening
  | ⟨offset, c :: rest⟩ =>
      have hrest := Cursor.length_lt_of_skipBlanks_eq hskip
      if c = '\x7d' then
        return ⟨⟨offset + 1, rest⟩, hrest⟩
      else do
        let (slots, next) ← member element opening settings {} ⟨offset, c :: rest⟩
        let last ← moreMembers element opening settings slots next.1
        return ⟨last.1, Cursor.length_after_item_lt last hrest⟩

end Nested

/-- Read a value, blanks before it included.  At most `depth` arrays and
objects may be open at once inside it. -/
def value (settings : Settings) : (depth : Nat) → (cursor : Cursor) → Scan (After cursor)
  | depth, cursor =>
    match hskip : cursor.skipBlanks with
    | ⟨offset, []⟩ => fail .expectedValue offset
    | ⟨offset, c :: rest⟩ =>
        have hrest := Cursor.length_lt_of_skipBlanks_eq hskip
        if c = '\x7b' then
          match depth with
          | 0 => fail .nestingTooDeep offset
          | depth + 1 => do
              let next ← members (value settings depth) offset settings ⟨offset + 1, rest⟩
              return ⟨next.1, Cursor.length_after_lt next hrest⟩
        else if c = '[' then
          match depth with
          | 0 => fail .nestingTooDeep offset
          | depth + 1 => do
              let next ← elements (value settings depth) offset ⟨offset + 1, rest⟩
              return ⟨next.1, Cursor.length_after_lt next hrest⟩
        else do
          let token : Cursor := ⟨offset, c :: rest⟩
          let next ← ofExcept (if c = '"' then StringToken.skip token else literal token)
          return ⟨next.1, Nat.lt_of_le_of_lt (Nat.le_of_lt_succ next.2) hrest⟩

end Scan

end ArrayPatch
