import ArrayPatch.Scan.Value

/-!
# Arrays of strings

`strings` reads a value as `value` does and decodes it on the way if it is an
array whose elements are all strings.  The decoding is given up at the first
other element; the rest of the array is read all the same.
-/

namespace ArrayPatch.Scan

section Nested

variable (element : (cursor : Cursor) → Scan (After cursor)) (opening : Nat)

/-- Read an element and add it to the strings before it, unless one of these or
the element itself is something else. -/
def stringElement (values : Option (List Text)) (cursor : Cursor) :
    Scan (Option (List Text) × After cursor) :=
  match values, cursor.rest.head? with
  | some values, some '"' => do
      let (value, next) ← ofExcept (StringToken.read cursor)
      return (some (values ++ [value]), next)
  | _, _ => do
      let next ← element cursor
      return (none, next)

/-- Read the elements after the first one, and the bracket that closes the
array opened at `opening`. -/
def moreStrings (values : Option (List Text)) (cursor : Cursor) :
    Scan (Option (List Text) × After cursor) :=
  match hskip : cursor.skipBlanks with
  | ⟨_, []⟩ => fail .unterminatedArray opening
  | ⟨offset, c :: rest⟩ =>
      have hrest := Cursor.length_lt_of_skipBlanks_eq hskip
      if c = ',' then
        let item := Cursor.skipBlanks ⟨offset + 1, rest⟩
        have hitem : item.rest.length ≤ rest.length := Cursor.length_skipBlanks_le _
        if item.rest = [] then
          fail .unterminatedArray opening
        else do
          let (values, next) ← stringElement element values item
          let (values, last) ← moreStrings values next.1
          return ⟨values, last.1, by have := next.2; have := last.2; omega⟩
      else if c = ']' then
        return ⟨values, ⟨offset + 1, rest⟩, hrest⟩
      else
        fail .expectedCommaOrBracket offset
termination_by cursor.rest.length
decreasing_by have := next.2; omega

/-- Read an array from behind its opening bracket. -/
def stringElements (cursor : Cursor) : Scan (Option (List Text) × After cursor) :=
  match hskip : cursor.skipBlanks with
  | ⟨_, []⟩ => fail .unterminatedArray opening
  | ⟨offset, c :: rest⟩ =>
      have hrest := Cursor.length_lt_of_skipBlanks_eq hskip
      if c = ']' then
        return ⟨some [], ⟨offset + 1, rest⟩, hrest⟩
      else do
        let (values, next) ← stringElement element (some []) ⟨offset, c :: rest⟩
        let (values, last) ← moreStrings element opening values next.1
        return ⟨values, last.1, Cursor.length_after_item_lt last hrest⟩

end Nested

/-- Read a value, blanks before it included, and decode it if it is an array of
strings.  At most `depth` arrays and objects may be open at once inside it. -/
def strings (settings : Settings) (depth : Nat) (cursor : Cursor) :
    Scan (Option (List Text) × After cursor) :=
  match hskip : cursor.skipBlanks with
  | ⟨offset, '[' :: rest⟩ =>
      have hrest := Cursor.length_lt_of_skipBlanks_eq hskip
      match depth with
      | 0 => fail .nestingTooDeep offset
      | depth + 1 => do
          let (values, next) ← stringElements (value settings depth) offset ⟨offset + 1, rest⟩
          return ⟨values, next.1, Cursor.length_after_lt next hrest⟩
  | token => do
      have htoken := hskip ▸ cursor.length_skipBlanks_le
      let next ← value settings depth token
      return ⟨none, next.1, Nat.lt_of_lt_of_le next.2 htoken⟩

end ArrayPatch.Scan
