import ArrayPatch.Error
import ArrayPatch.Scan.Cursor
import ArrayPatch.Text.CodeUnit

/-!
# String tokens

A string token is a quotation mark, a sequence of pieces, and a quotation mark.
A piece is a character that stands for itself, an escape of two characters, or
an escape by code unit: four hexadecimal digits that name a character, or two
such escapes side by side that name one character as a surrogate pair.
Control characters stand for themselves.

`read` decodes a token and `skip` only finds its end.  Both report the opening
mark of a token that does not end, and the backslash of a broken escape.  In a
surrogate pair whose second half is broken this is the second backslash.
-/

namespace ArrayPatch

namespace StringToken

/-- The character that an escape of two characters stands for. -/
def shortEscape : Char → Option Char
  | '"' => some '"'
  | '\\' => some '\\'
  | '/' => some '/'
  | 'b' => some '\x08'
  | 'f' => some '\x0c'
  | 'n' => some '\n'
  | 'r' => some '\r'
  | 't' => some '\t'
  | _ => none

/-- What a token reader returns: a decoded value and a cursor behind it. -/
abbrev Reading (α : Type) (rest : Text) :=
  Except Fault (α × { next : Cursor // next.rest.length < rest.length })

/-- Decode an escape by code unit.  The text starts after the letter `u` of the
escape whose backslash is at `offset`. -/
def readUnicode (offset : Nat) (digits : Text) : Reading Char digits :=
  match Text.codeUnit digits with
  | none => .error ⟨.invalidUnicodeEscape, offset⟩
  | some (unit, ⟨rest, hrest⟩) =>
      if Text.isHighSurrogate unit then
        match rest, hrest with
        | '\\' :: 'u' :: more, hmore =>
            match Text.codeUnit more with
            | none => .error ⟨.invalidUnicodeEscape, offset + 6⟩
            | some (low, ⟨last, hlast⟩) =>
                if Text.isLowSurrogate low then
                  .ok ⟨Text.pairChar unit low, ⟨offset + 12, last⟩, by
                    simp only [List.length_cons] at hmore ⊢; omega⟩
                else
                  .error ⟨.invalidUnicodeEscape, offset + 6⟩
        | _, _ => .error ⟨.invalidUnicodeEscape, offset⟩
      else if Text.isLowSurrogate unit then
        .error ⟨.invalidUnicodeEscape, offset⟩
      else
        .ok ⟨Char.ofNat unit, ⟨offset + 6, rest⟩, hrest⟩

/-- Decode an escape.  The text starts after the backslash at `offset`, and
`opening` is the offset of the token. -/
def readEscape (opening offset : Nat) : (text : Text) → Reading Char text
  | [] => .error ⟨.unterminatedString, opening⟩
  | c :: rest =>
      if c = 'u' then do
        let (decoded, next) ← readUnicode offset rest
        return ⟨decoded, next.1, by have := next.2; simp only [List.length_cons]; omega⟩
      else
        match shortEscape c with
        | some decoded => .ok ⟨decoded, ⟨offset + 2, rest⟩, Text.length_lt_cons c rest⟩
        | none => .error ⟨.unknownEscape c, offset⟩

/-! ## Tokens -/

/-- Decode the characters of a token up to and including its closing mark. -/
def readBody (opening offset : Nat) (text : Text) : Reading Text text :=
  match text with
  | [] => .error ⟨.unterminatedString, opening⟩
  | c :: rest =>
      if c = '"' then
        .ok ⟨[], ⟨offset + 1, rest⟩, Text.length_lt_cons c rest⟩
      else if c = '\\' then do
        let (decoded, next) ← readEscape opening offset rest
        let (decodedRest, last) ← readBody opening next.1.offset next.1.rest
        return ⟨decoded :: decodedRest, last.1, by
          have := next.2; have := last.2; simp only [List.length_cons]; omega⟩
      else do
        let (decodedRest, last) ← readBody opening (offset + c.utf8Size) rest
        return ⟨c :: decodedRest, last.1, by
          have := last.2; simp only [List.length_cons]; omega⟩
termination_by text.length
decreasing_by
  · have := next.2; simp only [List.length_cons]; omega
  · simp

/-- Find the end of a token without keeping its characters. -/
def skipBody (opening offset : Nat) (text : Text) :
    Except Fault { next : Cursor // next.rest.length < text.length } :=
  match text with
  | [] => .error ⟨.unterminatedString, opening⟩
  | c :: rest =>
      if c = '"' then
        .ok ⟨⟨offset + 1, rest⟩, Text.length_lt_cons c rest⟩
      else if c = '\\' then do
        let (_, next) ← readEscape opening offset rest
        let last ← skipBody opening next.1.offset next.1.rest
        return ⟨last.1, by
          have := next.2; have := last.2; simp only [List.length_cons]; omega⟩
      else do
        let last ← skipBody opening (offset + c.utf8Size) rest
        return ⟨last.1, by have := last.2; simp only [List.length_cons]; omega⟩
termination_by text.length
decreasing_by
  · have := next.2; simp only [List.length_cons]; omega
  · simp

/-- Decode the token at a cursor. -/
def read (cursor : Cursor) : Reading Text cursor.rest :=
  match cursor with
  | ⟨offset, '"' :: rest⟩ => do
      let (value, next) ← readBody offset (offset + 1) rest
      return ⟨value, next.1, by have := next.2; simp only [List.length_cons]; omega⟩
  | ⟨offset, _⟩ => .error ⟨.expectedString, offset⟩

/-- Find the end of the token at a cursor. -/
def skip (cursor : Cursor) : Except Fault (After cursor) :=
  match cursor with
  | ⟨offset, '"' :: rest⟩ => do
      let next ← skipBody offset (offset + 1) rest
      return ⟨next.1, by have := next.2; simp only [List.length_cons]; omega⟩
  | ⟨offset, _⟩ => .error ⟨.expectedString, offset⟩

end StringToken

end ArrayPatch
