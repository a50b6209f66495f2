import ArrayPatch.Grammar.StringPiece
import ArrayPatch.Text.Space

/-!
# Syntax trees

A syntax tree keeps all characters of the value that it describes, the blanks
between its tokens included, so that a tree *is* a way to read its text.

The trees have four mutually recursive types.  `Elements` and `Members` stand
for what follows the first element or member, up to and including the closing
bracket: either blanks and the bracket, or blanks, a comma, blanks, one more
element or member, and again what follows.
-/

namespace ArrayPatch.Grammar

mutual

/-- A value. -/
inductive Tree where
  | literal (text : Text)
  | string (pieces : List StringPiece)
  | emptyArray (blanks : Text)
  | array (blanks : Text) (first : Tree) (more : Elements)
  | emptyObject (blanks : Text)
  | object (blanks : Text) (first : Member) (more : Members)

/-- A key and its value, with the blanks on both sides of the colon. -/
inductive Member where
  | mk (key : List StringPiece) (beforeColon afterColon : Text) (value : Tree)

/-- What follows the first element of an array. -/
inductive Elements where
  | done (blanks : Text)
  | more (beforeComma afterComma : Text) (element : Tree) (rest : Elements)

/-- What follows the first member of an object. -/
inductive Members where
  | done (blanks : Text)
  | more (beforeComma afterComma : Text) (member : Member) (rest : Members)

end

mutual

/-- The text of a value. -/
def Tree.text : Tree → Text
  | .literal text => text
  | .string pieces => StringPiece.tokenText pieces
  | .emptyArray blanks => '[' :: blanks ++ [']']
  | .array blanks first more => '[' :: blanks ++ first.text ++ more.text
  | .emptyObject blanks => '\x7b' :: blanks ++ ['\x7d']
  | .object blanks first more => '\x7b' :: blanks ++ first.text ++ more.text

/-- The text of a member. -/
def Member.text : Member → Text
  | .mk key beforeColon afterColon value =>
      StringPiece.tokenText key ++ beforeColon ++ ':' :: afterColon ++ value.text

/-- The text of the elements after the first one, closing bracket included. -/
def Elements.text : Elements → Text
  | .done blanks => blanks ++ [']']
  | .more beforeComma afterComma element rest =>
      beforeComma ++ ',' :: afterComma ++ element.text ++ rest.text

/-- The text of the members after the first one, closing brace included. -/
def Members.text : Members → Text
  | .done blanks => blanks ++ ['\x7d']
  | .more beforeComma afterComma member rest =>
      beforeComma ++ ',' :: afterComma ++ member.text ++ rest.text

end

/-- A text of blanks only. -/
def AllBlank (text : Text) : Prop :=
  ∀ c ∈ text, isBlank c

theorem allBlank_nil : AllBlank [] :=
  List.forall_mem_nil _

theorem allBlank_singleton {c : Char} (hc : isBlank c) : AllBlank [c] :=
  List.forall_mem_singleton.mpr hc

theorem AllBlank.append {first second : Text} (hfirst : AllBlank first)
    (hsecond : AllBlank second) : AllBlank (first ++ second) :=
  List.forall_mem_append.mpr ⟨hfirst, hsecond⟩

/-- The characters that end a literal. -/
def IsDelimiter (c : Char) : Prop :=
  isBlank c ∨ c = ',' ∨ c = ']' ∨ c = '\x7d'

/-- A literal is not empty, holds no delimiter and does not start like another
value. -/
def IsLiteral (text : Text) : Prop :=
  (∀ c ∈ text, ¬ IsDelimiter c) ∧
    ∃ c rest, text = c :: rest ∧ c ≠ '\x7b' ∧ c ≠ '[' ∧ c ≠ '"'

mutual

/-- A value whose literals are literals, whose blanks are blank and whose tokens
stand for texts. -/
def Tree.WellFormed : Tree → Prop
  | .literal text => IsLiteral text
  | .string pieces => (StringPiece.meaning? pieces).isSome
  | .emptyArray blanks => AllBlank blanks
  | .array blanks first more => AllBlank blanks ∧ first.WellFormed ∧ more.WellFormed
  | .emptyObject blanks => AllBlank blanks
  | .object blanks first more => AllBlank blanks ∧ first.WellFormed ∧ more.WellFormed

/-- A well-formed member. -/
def Member.WellFormed : Member → Prop
  | .mk key beforeColon afterColon value =>
      (StringPiece.meaning? key).isSome ∧ AllBlank beforeColon ∧ AllBlank afterColon ∧
        value.WellFormed

/-- Well-formed elements. -/
def Elements.WellFormed : Elements → Prop
  | .done blanks => AllBlank blanks
  | .more beforeComma afterComma element rest =>
      AllBlank beforeComma ∧ AllBlank afterComma ∧ element.WellFormed ∧ rest.WellFormed

/-- Well-formed members. -/
def Members.WellFormed : Members → Prop
  | .done blanks => AllBlank blanks
  | .more beforeComma afterComma member rest =>
      AllBlank beforeComma ∧ AllBlank afterComma ∧ member.WellFormed ∧ rest.WellFormed

end

/-- What may follow a value: a literal ends only at a delimiter or at the end. -/
def Tree.CanPrecede : Tree → Text → Prop
  | .literal _, c :: _ => IsDelimiter c
  | _, _ => True

mutual

/-- How many arrays and objects are open at most at once. -/
def Tree.depth : Tree → Nat
  | .literal _ => 0
  | .string _ => 0
  | .emptyArray _ => 1
  | .array _ first more => max first.depth more.depth + 1
  | .emptyObject _ => 1
  | .object _ first more => max first.depth more.depth + 1

/-- The depth of the value of a member. -/
def Member.depth : Member → Nat
  | .mk _ _ _ value => value.depth

/-- The greatest depth of an element. -/
def Elements.depth : Elements → Nat
  | .done _ => 0
  | .more _ _ element rest => max element.depth rest.depth

/-- The greatest depth of a member. -/
def Members.depth : Members → Nat
  | .done _ => 0
  | .more _ _ member rest => max member.depth rest.depth

end

/-- The elements after the first one. -/
def Elements.toList : Elements → List Tree
  | .done _ => []
  | .more _ _ element rest => element :: rest.toList

/-- The text that a string token stands for. -/
def Tree.meaning? : Tree → Option Text
  | .string pieces => StringPiece.meaning? pieces
  | _ => none

/-- The texts that an array of string tokens stands for. -/
def Tree.strings? : Tree → Option (List Text)
  | .emptyArray _ => some []
  | .array _ first more => (first :: more.toList).mapM Tree.meaning?
  | _ => none

end ArrayPatch.Grammar
