import ArrayPatch.Json.Value
import ArrayPatch.Text.Space

/-!
# Reading JSON

Reading is strict: blanks are allowed between tokens and around the value, and
nothing else is.  There are no comments, no trailing commas, no leading zeros
and no raw control characters in strings.

A string is read in two steps.  First it is cut into *pieces*: characters that
stand for themselves or have an escape of their own, and code units.  Then the
code units are paired up, which fails if a surrogate has no partner.

An escape by code unit takes up four bytes behind its letter, whatever they
are; if they are no digits, the piece is broken.  The end of a string is thus
known even if its text is not: a string with a broken piece or an unpaired
surrogate has an end but no text.
-/

namespace ArrayPatch.Json

/-- What a reader returns: a result and the text behind it, which is shorter. -/
abbrev Reading (α : Type) (text : Text) :=
  Option (α × { rest : Text // rest.length < text.length })

/-- A text without the blanks that it starts with. -/
def dropBlanks (text : Text) : Text :=
  text.dropWhile isBlank

theorem length_dropBlanks_le (text : Text) : (dropBlanks text).length ≤ text.length :=
  (List.dropWhile_sublist isBlank).length_le

/-- A part of a string: a character, a code unit that may be half of one, or an
escape that names no code unit. -/
inductive Piece where
  | char (c : Char)
  | unit (code : Nat)
  | broken
deriving DecidableEq, Repr

/-- The character that a letter behind a backslash stands for. -/
def letterEscape (c : Char) : Option Char :=
  [('"', '"'), ('\\', '\\'), ('/', '/'), ('b', '\x08'), ('f', '\x0c'), ('n', '\n'),
    ('r', '\r'), ('t', '\t')].lookup c

/-- The first piece of a text. -/
def piece : (text : Text) → Reading Piece text
  | '\\' :: 'u' :: digits =>
      match Text.codeUnit digits with
      | some (code, rest) =>
          some ⟨.unit code, rest.1, by have := rest.2; simp only [List.length_cons]; omega⟩
      | none =>
          match hrest : Text.passBytes? 4 digits with
          | some rest => some ⟨.broken, rest, by
              have := Text.length_le_of_passBytes? hrest
              simp only [List.length_cons]; omega⟩
          | none => none
  | '\\' :: c :: rest => do
      let decoded ← letterEscape c
      return ⟨.char decoded, rest, by simp only [List.length_cons]; omega⟩
  | c :: rest =>
      if c.toNat < 0x20 ∨ c = '\\' then none
      else some ⟨.char c, rest, Text.length_lt_cons c rest⟩
  | [] => none

/-- The pieces of a string up to and including its closing mark. -/
def pieces (text : Text) : Reading (List Piece) text :=
  match text with
  | '"' :: rest => some ⟨[], rest, by simp⟩
  | text => do
      let (first, behind) ← piece text
      let (more, rest) ← pieces behind.1
      return ⟨first :: more, rest.1, Nat.lt_trans rest.2 behind.2⟩
termination_by text.length
decreasing_by exact behind.2

/-- The text that pieces stand for, unless one is broken or a surrogate has no
partner. -/
def spell : List Piece → Option Text
  | [] => some []
  | .broken :: _ => none
  | .char c :: pieces => (spell pieces).map (c :: ·)
  | .unit high :: .unit low :: pieces =>
      if Text.isHighSurrogate high then
        if Text.isLowSurrogate low then (spell pieces).map (Text.pairChar high low :: ·) else none
      else if Text.isLowSurrogate high then none
      else (spell (.unit low :: pieces)).map (Char.ofNat high :: ·)
  | .unit code :: pieces =>
      if Text.isHighSurrogate code || Text.isLowSurrogate code then none
      else (spell pieces).map (Char.ofNat code :: ·)

/-- The string at the start of a text. -/
def string : (text : Text) → Reading (Option Text) text
  | '"' :: body => do
      let (pieces, rest) ← pieces body
      return ⟨spell pieces, rest.1, by have := rest.2; simp only [List.length_cons]; omega⟩
  | _ => none

/-- The characters that numbers are made of. -/
def isNumberChar (c : Char) : Bool :=
  c.isDigit || c == '-' || c == '+' || c == '.' || c == 'e' || c == 'E'

/-- What follows one or more digits. -/
def afterDigits : Text → Option Text
  | c :: rest => if c.isDigit then some (rest.dropWhile Char.isDigit) else none
  | [] => none

/-- What follows the part of a number before the point. -/
def afterInteger : Text → Option Text
  | '0' :: rest => some rest
  | text => afterDigits text

/-- What follows the fraction of a number, if it has one. -/
def afterFraction : Text → Option Text
  | '.' :: rest => afterDigits rest
  | text => some text

/-- What follows the exponent of a number, if it has one. -/
def afterExponent : Text → Option Text
  | [] => some []
  | c :: rest =>
      if c = 'e' ∨ c = 'E' then
        match rest with
        | [] => none
        | sign :: digits => afterDigits (if sign = '+' ∨ sign = '-' then digits else rest)
      else
        some (c :: rest)

/-- Whether a text is a number from its first character to its last. -/
def isNumber (text : Text) : Bool :=
  let unsigned := if text.head? = some '-' then text.tail else text
  (afterInteger unsigned >>= afterFraction >>= afterExponent) == some []

/-- The value that a bare word stands for. -/
def word (text : Text) : Option Value :=
  if text = ['n', 'u', 'l', 'l'] then some .null
  else if text = ['t', 'r', 'u', 'e'] then some (.bool true)
  else if text = ['f', 'a', 'l', 's', 'e'] then some (.bool false)
  else if isNumber text then some (.number text)
  else none

/-- The characters of a word or a number. -/
def isWordChar (c : Char) : Bool :=
  c.isAlpha || isNumberChar c

/-- The word or number at the start of a text. -/
def scalar : (text : Text) → Reading Value text
  | [] => none
  | c :: rest =>
      if isWordChar c then do
        let value ← word (c :: rest.takeWhile isWordChar)
        return ⟨value, rest.dropWhile isWordChar,
          Nat.lt_succ_of_le (List.dropWhile_sublist isWordChar).length_le⟩
      else
        none

/-! ## Values -/

mutual

/-- The value at the start of a text. -/
def value (text : Text) : Reading Value text :=
  match text with
  | '[' :: body =>
      match hbody : dropBlanks body with
      | ']' :: rest => some ⟨.array [], rest, by
          have := length_dropBlanks_le body
          rw [hbody] at this; simp only [List.length_cons] at this ⊢; omega⟩
      | _ => do
          let (elements, rest) ← elements body
          return ⟨.array elements, rest.1, by
            have := rest.2; simp only [List.length_cons]; omega⟩
  | '\x7b' :: body =>
      match hbody : dropBlanks body with
      | '\x7d' :: rest => some ⟨.object [], rest, by
          have := length_dropBlanks_le body
          rw [hbody] at this; simp only [List.length_cons] at this ⊢; omega⟩
      | _ => do
          let (members, rest) ← members body
          return ⟨.object members, rest.1, by
            have := rest.2; simp only [List.length_cons]; omega⟩
  | '"' :: body => do
      let (text, rest) ← string ('"' :: body)
      return (.string text, rest)
  | text => scalar text
termination_by 2 * text.length

/-- One or more elements, separated by commas, and the closing bracket. -/
def elements (text : Text) : Reading (List Value) text := do
  have htext := length_dropBlanks_le text
  let (first, behind) ← value (dropBlanks text)
  match hbehind : dropBlanks behind.1 with
  | ',' :: body => do
      have hbody : body.length < text.length := by
        have hle := length_dropBlanks_le behind.1
        rw [hbehind, List.length_cons] at hle; have := behind.2; omega
      let (more, rest) ← elements body
      return ⟨first :: more, rest.1, Nat.lt_trans rest.2 hbody⟩
  | ']' :: rest => some ⟨[first], rest, by
      have hle := length_dropBlanks_le behind.1
      rw [hbehind, List.length_cons] at hle; have := behind.2; omega⟩
  | _ => none
termination_by 2 * text.length + 1

/-- One or more members, separated by commas, and the closing brace. -/
def members (text : Text) : Reading (List (Option Text × Value)) text := do
  have htext := length_dropBlanks_le text
  let (key, behindKey) ← string (dropBlanks text)
  match hcolon : dropBlanks behindKey.1 with
  | ':' :: valueText => do
      have hvalue : valueText.length < text.length := by
        have hle := length_dropBlanks_le behindKey.1
        rw [hcolon, List.length_cons] at hle; have := behindKey.2; omega
      have hblanks := length_dropBlanks_le valueText
      let (first, behind) ← value (dropBlanks valueText)
      match hbehind : dropBlanks behind.1 with
      | ',' :: body => do
          have hbody : body.length < text.length := by
            have hle := length_dropBlanks_le behind.1
            rw [hbehind, List.length_cons] at hle; have := behind.2; omega
          let (more, rest) ← members body
          return ⟨(key, first) :: more, rest.1, Nat.lt_trans rest.2 hbody⟩
      | '\x7d' :: rest => some ⟨[(key, first)], rest, by
          have hle := length_dropBlanks_le behind.1
          rw [hbehind, List.length_cons] at hle; have := behind.2; omega⟩
      | _ => none
  | _ => none
termination_by 2 * text.length + 1

end

/-- The value that a whole text spells. -/
def read (text : Text) : Option Value := do
  let (result, rest) ← value (dropBlanks text)
  if dropBlanks rest.1 = [] then some result else none

/-- The value that a whole text spells, if all strings in it stand for texts. -/
def readWhole (text : Text) : Option Value :=
  (read text).filter Value.isWhole

/-- The text of a JSON string. -/
def readString (text : Text) : Option Text :=
  read text >>= Value.asText?

/-- The texts of a JSON array of strings. -/
def readStrings (text : Text) : Option (List Text) :=
  read text >>= Value.asTexts?

end ArrayPatch.Json
