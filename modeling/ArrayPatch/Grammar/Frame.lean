import ArrayPatch.Grammar.Tree

/-!
# Open arrays and objects

A frame is an array or object that has been read up to a place where a value is
expected: its bracket, the elements or members that are complete, and the key
of the member under way.  The frames that are open at a bracket, the outermost
first, make up all that stands before the bracket.

`OpensAt` says that a bracket is met while a number of arrays and objects are
open.  It bounds neither the depth of what is complete nor what follows.
-/

namespace ArrayPatch.Grammar

/-- A complete element and the blanks on both sides of the comma behind it. -/
structure ElementBefore where
  element : Tree
  beforeComma : Text
  afterComma : Text

/-- A complete member and the blanks on both sides of the comma behind it. -/
structure MemberBefore where
  member : Member
  beforeComma : Text
  afterComma : Text

/-- An array or object up to a place where a value is expected. -/
inductive Frame where
  | array (blanks : Text) (complete : List ElementBefore)
  | object (blanks : Text) (complete : List MemberBefore)
      (key : List StringPiece) (beforeColon afterColon : Text)

namespace ElementBefore

/-- The text of an element with its comma. -/
def text (before : ElementBefore) : Text :=
  before.element.text ++ before.beforeComma ++ ',' :: before.afterComma

/-- A well-formed element with blanks around its comma. -/
def WellFormed (before : ElementBefore) : Prop :=
  before.element.WellFormed ∧ AllBlank before.beforeComma ∧ AllBlank before.afterComma

end ElementBefore

namespace MemberBefore

/-- The text of a member with its comma. -/
def text (before : MemberBefore) : Text :=
  before.member.text ++ before.beforeComma ++ ',' :: before.afterComma

/-- A well-formed member with blanks around its comma. -/
def WellFormed (before : MemberBefore) : Prop :=
  before.member.WellFormed ∧ AllBlank before.beforeComma ∧ AllBlank before.afterComma

end MemberBefore

namespace Frame

/-- The text of a frame, the opening bracket included. -/
def text : Frame → Text
  | array blanks complete => '[' :: blanks ++ complete.flatMap ElementBefore.text
  | object blanks complete key beforeColon afterColon =>
      '\x7b' :: blanks ++ complete.flatMap MemberBefore.text ++ StringPiece.tokenText key ++
        beforeColon ++ ':' :: afterColon

/-- A frame whose blanks are blank and whose parts are well formed. -/
def WellFormed : Frame → Prop
  | array blanks complete => AllBlank blanks ∧ ∀ before ∈ complete, before.WellFormed
  | object blanks complete key beforeColon afterColon =>
      AllBlank blanks ∧ (∀ before ∈ complete, before.WellFormed) ∧
        (StringPiece.meaning? key).isSome ∧ AllBlank beforeColon ∧ AllBlank afterColon

end Frame

/-- Reading a value from the start of a text meets an opening bracket at an
offset while some arrays and objects are open. -/
def OpensAt (text : Text) (opened offset : Nat) : Prop :=
  ∃ (blanks : Text) (frames : List Frame) (bracket : Char) (rest : Text),
    text = blanks ++ frames.flatMap Frame.text ++ bracket :: rest ∧
      (bracket = '[' ∨ bracket = '\x7b') ∧
      AllBlank blanks ∧ (∀ frame ∈ frames, frame.WellFormed) ∧
      frames.length = opened ∧ (blanks ++ frames.flatMap Frame.text).size = offset

/-- Reading a value from an offset of a text meets an opening bracket at an
offset while some arrays and objects are open. -/
def EntersAt (text : Text) (start opened offset : Nat) : Prop :=
  ∃ (before rest : Text) (inner : Nat), text = before ++ rest ∧ before.size = start ∧
    OpensAt rest opened inner ∧ offset = start + inner

end ArrayPatch.Grammar
