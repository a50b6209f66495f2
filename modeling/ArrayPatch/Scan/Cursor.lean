import ArrayPatch.Text.Space

/-!
# Cursors

A cursor is a boundary of a text: the offset of the boundary and the text to
the right of it.  Moving a cursor forward drops characters from the rest and
adds their bytes to the offset, so the offset never has to be looked up again.

`After cursor` is the type of the cursors with less text left.  Every reader
returns one of these, which is the reason why the loops over readers end.
-/

namespace ArrayPatch

/-- A boundary of a text. -/
structure Cursor where
  offset : Nat
  rest : Text
deriving DecidableEq, Repr

/-- A cursor that has less text left than another one. -/
abbrev After (cursor : Cursor) :=
  { next : Cursor // next.rest.length < cursor.rest.length }

namespace Cursor

/-- The cursor at the start of a text. -/
def start (text : Text) : Cursor :=
  ⟨0, text⟩

/-- Move over the longest run of characters of a class. -/
def skip (p : Char → Bool) (cursor : Cursor) : Cursor :=
  ⟨cursor.offset + Text.size (cursor.rest.takeWhile p), cursor.rest.dropWhile p⟩

/-- Move over blanks. -/
def skipBlanks (cursor : Cursor) : Cursor :=
  cursor.skip isBlank

theorem length_skip_le (p : Char → Bool) (cursor : Cursor) :
    (cursor.skip p).rest.length ≤ cursor.rest.length :=
  (List.dropWhile_sublist p).length_le

theorem length_skipBlanks_le (cursor : Cursor) :
    cursor.skipBlanks.rest.length ≤ cursor.rest.length :=
  cursor.length_skip_le isBlank

/-- What follows a character that is found behind blanks is shorter. -/
theorem length_lt_of_skipBlanks_eq {cursor : Cursor} {offset : Nat} {c : Char} {rest : Text}
    (hskip : cursor.skipBlanks = ⟨offset, c :: rest⟩) :
    rest.length < cursor.rest.length := by
  have hle := cursor.length_skipBlanks_le
  rw [hskip] at hle
  exact Nat.lt_of_succ_le hle

/-- What is left behind an item that is found behind a comma and blanks. -/
theorem length_lt_of_item {cursor mid : Cursor} {offset : Nat} {c : Char} {rest : Text}
    (hskip : cursor.skipBlanks = ⟨offset, c :: rest⟩)
    (hitem : mid.rest.length < (skipBlanks ⟨offset + 1, rest⟩).rest.length) :
    mid.rest.length < cursor.rest.length :=
  calc mid.rest.length < (skipBlanks ⟨offset + 1, rest⟩).rest.length := hitem
    _ ≤ rest.length := length_skipBlanks_le _
    _ < cursor.rest.length := length_lt_of_skipBlanks_eq hskip

/-- What is left behind the body of a bracket that is found behind blanks. -/
theorem length_after_lt {cursor : Cursor} {offset : Nat} {rest : Text}
    (next : After ⟨offset + 1, rest⟩) (hrest : rest.length < cursor.rest.length) :
    next.1.rest.length < cursor.rest.length :=
  Nat.lt_trans next.2 hrest

/-- What is left behind an item that is found behind blanks and behind what
follows the item. -/
theorem length_after_item_lt {cursor : Cursor} {offset : Nat} {c : Char} {rest : Text}
    {next : After ⟨offset, c :: rest⟩} (last : After next.1)
    (hrest : rest.length < cursor.rest.length) :
    last.1.rest.length < cursor.rest.length :=
  Nat.lt_of_lt_of_le (Nat.lt_trans last.2 next.2) hrest

/-- What is left behind an item that is found behind a comma and blanks and behind
what follows the item. -/
theorem length_after_comma_lt {cursor : Cursor} {offset : Nat} {rest : Text}
    {next : After (skipBlanks ⟨offset, rest⟩)} (last : After next.1)
    (hrest : rest.length < cursor.rest.length) : last.1.rest.length < cursor.rest.length :=
  Nat.lt_trans last.2 (Nat.lt_trans next.2 (Nat.lt_of_le_of_lt (length_skipBlanks_le _) hrest))

/-- What is left behind the body of a bracket, from where the bracket is found. -/
theorem length_after_bracket_lt {cursor : Cursor} {offset : Nat} {c : Char} {rest : Text}
    (next : After ⟨offset + 1, rest⟩) (hskip : cursor.skipBlanks = ⟨offset, c :: rest⟩) :
    next.1.rest.length < cursor.rest.length :=
  length_after_lt next (length_lt_of_skipBlanks_eq hskip)

/-- What is left behind an item that is found behind blanks. -/
theorem length_after_blanks_lt {cursor token : Cursor} (next : After token)
    (hskip : cursor.skipBlanks = token) : next.1.rest.length < cursor.rest.length :=
  Nat.lt_of_lt_of_le next.2 (hskip ▸ cursor.length_skipBlanks_le)

/-- The place of a cursor in a text: the text up to its offset lies before it. -/
def IsIn (cursor : Cursor) (text : Text) : Prop :=
  ∃ before : Text, text = before ++ cursor.rest ∧ before.size = cursor.offset

theorem start_isIn (text : Text) : (start text).IsIn text :=
  ⟨[], rfl, rfl⟩

/-- Moving over a run of characters stays in the text. -/
theorem IsIn.skip {cursor : Cursor} {text : Text} (hin : cursor.IsIn text)
    (p : Char → Bool) : (cursor.skip p).IsIn text := by
  obtain ⟨before, rfl, hsize⟩ := hin
  refine ⟨before ++ cursor.rest.takeWhile p, ?_, ?_⟩
  · simp [Cursor.skip, List.takeWhile_append_dropWhile]
  · simp [Cursor.skip, hsize]

end Cursor

end ArrayPatch
