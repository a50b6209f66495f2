/-!
# Texts and byte offsets

A text is the list of its characters, while an offset into it counts the bytes
of its UTF-8 form.  An offset is a boundary of the text when a whole number of
characters lies before it.

`splitAt?` cuts a text at a boundary and refuses every other offset; `slice?`
and `splice?` take out and replace a range with the same refusal.  `tailAt` and
`upTo` accept every offset: the first says what an offset leaves to the right
of it, the second keeps the whole characters to the left.
-/

namespace ArrayPatch

/-- A text is the list of its characters. -/
abbrev Text := List Char

namespace Text

/-- The number of bytes of a text in UTF-8. -/
def size (text : Text) : Nat :=
  text.foldr (fun c size => c.utf8Size + size) 0

@[simp]
theorem size_nil : size [] = 0 :=
  rfl

@[simp]
theorem size_cons (c : Char) (text : Text) :
    size (c :: text) = c.utf8Size + size text :=
  rfl

@[simp]
theorem size_append (left right : Text) :
    size (left ++ right) = size left + size right := by
  induction left with
  | nil => simp
  | cons c left ih => simp [ih, Nat.add_assoc]

theorem length_lt_cons (c : Char) (rest : Text) : rest.length < (c :: rest).length :=
  Nat.lt_succ_self rest.length

/-- Every character takes up a byte at least. -/
theorem length_le_size (text : Text) : text.length ≤ text.size := by
  induction text with
  | nil => exact Nat.le_refl 0
  | cons c text ih =>
      have hwidth : 0 < c.utf8Size := c.utf8Size_pos
      rw [List.length_cons, size_cons]
      omega

/-- Cut a text at a boundary.  Offsets inside a character or past the end have
no cut. -/
def splitAt? : Text → Nat → Option (Text × Text)
  | text, 0 => some ([], text)
  | [], _ + 1 => none
  | c :: text, offset + 1 =>
      if c.utf8Size ≤ offset + 1 then
        (splitAt? text (offset + 1 - c.utf8Size)).map fun (left, right) => (c :: left, right)
      else
        none

/-- Cutting where the left part ends gives back both parts. -/
@[simp]
theorem splitAt?_size_append (left right : Text) :
    splitAt? (left ++ right) left.size = some (left, right) := by
  induction left with
  | nil => simp [splitAt?]
  | cons c left ih =>
      have hwidth : 0 < c.utf8Size := c.utf8Size_pos
      obtain ⟨offset, hoffset⟩ : ∃ offset, size (c :: left) = offset + 1 :=
        ⟨size (c :: left) - 1, by simp only [size_cons]; omega⟩
      have hrest : offset + 1 - c.utf8Size = size left := by
        rw [← hoffset, size_cons]; omega
      have hle : c.utf8Size ≤ offset + 1 := by
        rw [← hoffset, size_cons]; omega
      rw [hoffset, List.cons_append, splitAt?, if_pos hle, hrest, ih]
      rfl

/-- A cut puts the two parts side by side, the left one ending at the offset. -/
theorem splitAt?_eq_some_iff {text left right : Text} {offset : Nat} :
    splitAt? text offset = some (left, right) ↔
      text = left ++ right ∧ left.size = offset := by
  constructor
  · intro hcut
    induction text generalizing offset left with
    | nil =>
        cases offset with
        | zero => simp [splitAt?] at hcut; simp [hcut]
        | succ offset => simp [splitAt?] at hcut
    | cons c text ih =>
        cases offset with
        | zero =>
            obtain ⟨rfl, rfl⟩ : left = [] ∧ c :: text = right := by
              simpa [splitAt?] using hcut
            simp
        | succ offset =>
            rw [splitAt?] at hcut
            split at hcut
            · rename_i hwidth
              rcases Option.map_eq_some_iff.mp hcut with ⟨⟨tail, rest⟩, htail, hparts⟩
              obtain ⟨rfl, rfl⟩ : c :: tail = left ∧ rest = right := by
                simpa using hparts
              obtain ⟨rfl, hsize⟩ := ih htail
              exact ⟨rfl, by rw [size_cons, hsize]; omega⟩
            · simp at hcut
  · rintro ⟨rfl, rfl⟩
    exact splitAt?_size_append left right

/-- Cut a text at both ends of a range of boundaries. -/
def parts? (text : Text) (start stop : Nat) : Option (Text × Text × Text) :=
  if start ≤ stop then do
    let (head, after) ← splitAt? text stop
    let (before, middle) ← splitAt? head start
    return (before, middle, after)
  else
    none

/-- The three parts of a range make up the text and end where the range says. -/
theorem parts?_eq_some_iff {text before middle after : Text} {start stop : Nat} :
    parts? text start stop = some (before, middle, after) ↔
      text = before ++ middle ++ after ∧ before.size = start ∧
        before.size + middle.size = stop := by
  constructor
  · intro hparts
    rw [parts?] at hparts
    split at hparts
    · simp only [Option.bind_eq_bind, Option.bind_eq_some_iff, Prod.exists] at hparts
      obtain ⟨head, after', hhead, before', middle', hbefore, hall⟩ := hparts
      obtain ⟨rfl, rfl, rfl⟩ : before' = before ∧ middle' = middle ∧ after' = after := by
        simpa using hall
      obtain ⟨rfl, rfl⟩ := splitAt?_eq_some_iff.mp hhead
      obtain ⟨rfl, rfl⟩ := splitAt?_eq_some_iff.mp hbefore
      simp
    · simp at hparts
  · rintro ⟨rfl, rfl, rfl⟩
    have hhead := splitAt?_size_append (before ++ middle) after
    rw [size_append] at hhead
    rw [parts?, if_pos (Nat.le_add_right _ _), hhead]
    simp

/-- The part of a text between two boundaries. -/
def slice? (text : Text) (start stop : Nat) : Option Text :=
  (parts? text start stop).map fun (_, middle, _) => middle

theorem slice?_eq_some_iff {text middle : Text} {start stop : Nat} :
    slice? text start stop = some middle ↔
      ∃ before after, text = before ++ middle ++ after ∧ before.size = start ∧
        before.size + middle.size = stop := by
  simp only [slice?, Option.map_eq_some_iff, Prod.exists]
  constructor
  · rintro ⟨before, _, after, hparts, rfl⟩
    exact ⟨before, after, parts?_eq_some_iff.mp hparts⟩
  · rintro ⟨before, after, hparts⟩
    exact ⟨before, middle, after, parts?_eq_some_iff.mpr hparts, rfl⟩

/-- Put `new` in place of the part of a text between two boundaries. -/
def splice? (text : Text) (start stop : Nat) (new : Text) : Option Text :=
  (parts? text start stop).map fun (before, _, after) => before ++ new ++ after

theorem splice?_eq_some_iff {text new result : Text} {start stop : Nat} :
    splice? text start stop new = some result ↔
      ∃ before middle after, text = before ++ middle ++ after ∧ before.size = start ∧
        before.size + middle.size = stop ∧ result = before ++ new ++ after := by
  simp only [splice?, Option.map_eq_some_iff, Prod.exists, parts?_eq_some_iff]
  constructor
  · rintro ⟨before, middle, after, ⟨htext, hstart, hstop⟩, rfl⟩
    exact ⟨before, middle, after, htext, hstart, hstop, rfl⟩
  · rintro ⟨before, middle, after, htext, hstart, hstop, rfl⟩
    exact ⟨before, middle, after, ⟨htext, hstart, hstop⟩, rfl⟩

/-! ## Offsets of every kind -/

/-- What an offset leaves of a text: `fragment` bytes of the character that the
offset falls inside, and the whole characters after them. -/
structure Tail where
  fragment : Nat
  rest : Text
deriving DecidableEq, Repr

/-- The part of a text to the right of an offset.  Past the end nothing is left. -/
def tailAt : Text → Nat → Tail
  | text, 0 => ⟨0, text⟩
  | [], _ + 1 => ⟨0, []⟩
  | c :: text, offset + 1 =>
      if c.utf8Size ≤ offset + 1 then tailAt text (offset + 1 - c.utf8Size)
      else ⟨c.utf8Size - (offset + 1), text⟩

/-- At a boundary no fragment is left over. -/
@[simp]
theorem tailAt_size_append (left right : Text) :
    tailAt (left ++ right) left.size = ⟨0, right⟩ := by
  induction left with
  | nil => simp [tailAt]
  | cons c left ih =>
      have hwidth : 0 < c.utf8Size := c.utf8Size_pos
      obtain ⟨offset, hoffset⟩ : ∃ offset, size (c :: left) = offset + 1 :=
        ⟨size (c :: left) - 1, by simp only [size_cons]; omega⟩
      have hrest : offset + 1 - c.utf8Size = size left := by
        rw [← hoffset, size_cons]; omega
      have hle : c.utf8Size ≤ offset + 1 := by
        rw [← hoffset, size_cons]; omega
      rw [hoffset, List.cons_append, tailAt, if_pos hle, hrest, ih]

/-- The whole characters of a text that fit into the bytes before an offset. -/
def upTo : Text → Nat → Text
  | [], _ => []
  | c :: text, offset =>
      if c.utf8Size ≤ offset then c :: upTo text (offset - c.utf8Size) else []

/-- The last line of a text, without the line feed before it. -/
def lastLine (text : Text) : Text :=
  (text.reverse.takeWhile (· ≠ '\n')).reverse

end Text

end ArrayPatch
