import ArrayPatch.Grammar.Tree
import Mathlib.Tactic.Common

/-!
# The sizes of syntax trees

The size of a tree is the sum of the sizes of its parts, where a bracket, comma
or colon counts one byte.  Arithmetic with offsets uses these equations and does
not look at the texts.
-/

namespace ArrayPatch.Grammar

theorem size_cons_ascii {c : Char} (hc : c.utf8Size = 1) (text : Text) :
    Text.size (c :: text) = 1 + text.size := by
  rw [Text.size_cons, hc]

theorem add_size_open {c : Char} (hc : c.utf8Size = 1) (blanks : Text) (offset : Nat) :
    offset + 1 + blanks.size = offset + Text.size (c :: blanks) := by
  rw [size_cons_ascii hc, Nat.add_assoc]

theorem add_size_comma (before after : Text) (offset : Nat) :
    offset + before.size + 1 + after.size = offset + Text.size (before ++ ',' :: after) := by
  rw [Text.size_append, size_cons_ascii rfl]
  omega

theorem add_size_colon (key before after : Text) (offset : Nat) :
    offset + key.size + before.size + 1 + after.size =
      offset + Text.size (key ++ before ++ ':' :: after) := by
  rw [Text.size_append, Text.size_append, size_cons_ascii rfl]
  omega

namespace Tree

variable (blanks : Text)

@[simp]
theorem size_text_emptyArray : (emptyArray blanks).text.size = 1 + blanks.size + 1 := by
  rw [text, Text.size_append, size_cons_ascii rfl]
  rfl

@[simp]
theorem size_text_array (first : Tree) (more : Elements) :
    (array blanks first more).text.size =
      1 + blanks.size + first.text.size + more.text.size := by
  rw [text, Text.size_append, Text.size_append, size_cons_ascii rfl]

@[simp]
theorem size_text_emptyObject : (emptyObject blanks).text.size = 1 + blanks.size + 1 := by
  rw [text, Text.size_append, size_cons_ascii rfl]
  rfl

@[simp]
theorem size_text_object (first : Member) (more : Members) :
    (object blanks first more).text.size =
      1 + blanks.size + first.text.size + more.text.size := by
  rw [text, Text.size_append, Text.size_append, size_cons_ascii rfl]

end Tree

@[simp]
theorem Member.size_text (key : List StringPiece) (beforeColon afterColon : Text) (value : Tree) :
    (Member.mk key beforeColon afterColon value).text.size =
      (StringPiece.tokenText key).size + beforeColon.size + 1 + afterColon.size +
        value.text.size := by
  simp only [Member.text, Text.size_append, size_cons_ascii (c := ':') rfl]
  omega

@[simp]
theorem Elements.size_text_done (blanks : Text) :
    (Elements.done blanks).text.size = blanks.size + 1 := by
  rw [Elements.text, Text.size_append]
  rfl

@[simp]
theorem Elements.size_text_more (before after : Text) (element : Tree) (rest : Elements) :
    (Elements.more before after element rest).text.size =
      before.size + 1 + after.size + element.text.size + rest.text.size := by
  simp only [Elements.text, Text.size_append, size_cons_ascii (c := ',') rfl]
  omega

@[simp]
theorem Members.size_text_done (blanks : Text) :
    (Members.done blanks).text.size = blanks.size + 1 := by
  rw [Members.text, Text.size_append]
  rfl

@[simp]
theorem Members.size_text_more (before after : Text) (item : Member) (rest : Members) :
    (Members.more before after item rest).text.size =
      before.size + 1 + after.size + item.text.size + rest.text.size := by
  simp only [Members.text, Text.size_append, size_cons_ascii (c := ',') rfl]
  omega

theorem Elements.one_le_size_text (more : Elements) : 1 ≤ more.text.size := by
  cases more with
  | done => simp
  | more =>
      rw [size_text_more]
      omega

theorem Members.one_le_size_text (more : Members) : 1 ≤ more.text.size := by
  cases more with
  | done => simp
  | more =>
      rw [size_text_more]
      omega

theorem StringPiece.two_le_size_tokenText (pieces : List StringPiece) :
    2 ≤ (StringPiece.tokenText pieces).size := by
  rw [StringPiece.tokenText, Text.size_append, size_cons_ascii rfl]
  have hmark : Text.size ['"'] = 1 := rfl
  omega

end ArrayPatch.Grammar
