import ArrayPatch.Grammar.Json
import ArrayPatch.Json.Encode
import Mathlib.Tactic.Common

/-!
# Written strings are tokens

Every character of a text is written as one piece of a string token, and the
piece stands for the character.  Hence a written string is a token that stands
for the text that was written, and it is JSON: control characters are escaped,
so there is none in it as it stands.
-/

namespace ArrayPatch

/-- A written string has no raw control character. -/
theorem Json.not_mem_encodeString {control : Char} (hcontrol : control.toNat < 0x20)
    (value : Text) : control ∉ Json.encodeString value := by
  have hdigits : ∀ n < 0x20,
      0x20 ≤ (Nat.digitChar (n / 16)).toNat ∧ 0x20 ≤ (Nat.digitChar (n % 16)).toNat := by
    decide
  have hchar (c : Char) : ∀ d ∈ Json.encodeChar c, 0x20 ≤ d.toNat := by
    unfold Json.encodeChar
    split_ifs with hquote hbackslash hback htab hline hfeed hreturn hlow
    iterate 7 (· simp)
    · obtain ⟨hhigh, hlow⟩ := hdigits c.toNat hlow
      simp [hhigh, hlow]
    · simpa using hlow
  intro hmem
  have hprinted : 0x20 ≤ control.toNat := by
    simp only [Json.encodeString, List.cons_append, List.mem_cons, List.mem_append,
      List.mem_flatMap, List.not_mem_nil, or_false] at hmem
    rcases hmem with rfl | ⟨c, -, hc⟩ | rfl
    · decide
    · exact hchar c control hc
    · decide
  omega

namespace Grammar.StringPiece

/-- The piece that a character is written as. -/
def ofChar (c : Char) : StringPiece :=
  if c = '"' then .letter '"'
  else if c = '\\' then .letter '\\'
  else if c = '\x08' then .letter 'b'
  else if c = '\t' then .letter 't'
  else if c = '\n' then .letter 'n'
  else if c = '\x0c' then .letter 'f'
  else if c = '\r' then .letter 'r'
  else if c.toNat < 0x20 then
    .unit ['0', '0', Nat.digitChar (c.toNat / 16), Nat.digitChar (c.toNat % 16)]
  else .plain c

/-- A text as the pieces of a token. -/
def ofText (text : Text) : List StringPiece :=
  text.map ofChar

theorem unitValue?_of_lt : ∀ n < 0x20,
    unitValue? ['0', '0', Nat.digitChar (n / 16), Nat.digitChar (n % 16)] = some n := by
  decide

theorem text_ofChar (c : Char) : (ofChar c).text = Json.encodeChar c := by
  unfold ofChar Json.encodeChar
  repeat' split
  all_goals rfl

theorem value?_ofChar (c : Char) : (ofChar c).value? = some c := by
  unfold ofChar
  split_ifs with hquote hbackslash hback htab hline hfeed hreturn hcontrol
  · rw [hquote]
    decide
  · rw [hbackslash]
    decide
  · rw [hback]
    decide
  · rw [htab]
    decide
  · rw [hline]
    decide
  · rw [hfeed]
    decide
  · rw [hreturn]
    decide
  · have hhigh : Text.isHighSurrogate c.toNat = false := by
      simp [Text.isHighSurrogate]
      omega
    have hlow : Text.isLowSurrogate c.toNat = false := by
      simp [Text.isLowSurrogate]
      omega
    rw [value?, unitValue?_of_lt c.toNat hcontrol]
    simp [hhigh, hlow]
  · rw [value?, if_neg]
    rintro (hc | hc)
    · exact hquote hc
    · exact hbackslash hc

theorem isJson_ofChar (c : Char) : (ofChar c).isJson := by
  unfold ofChar
  split_ifs with hquote hbackslash hback htab hline hfeed hreturn hcontrol
  all_goals try rfl
  exact decide_eq_true (Nat.le_of_not_lt hcontrol)

/-- A written string is the text of a token. -/
theorem tokenText_ofText (text : Text) : tokenText (ofText text) = Json.encodeString text := by
  rw [tokenText, Json.encodeString, bodyText, ofText, List.flatMap_map]
  simp only [text_ofChar]

theorem meaning?_ofText (text : Text) : meaning? (ofText text) = some text := by
  induction text with
  | nil => rfl
  | cons c text ih =>
      rw [ofText, List.map_cons, meaning?_cons, value?_ofChar]
      change (meaning? (ofText text)).map (c :: ·) = some (c :: text)
      rw [ih]
      rfl

/-- A written string is JSON. -/
theorem jsonText?_ofText (text : Text) : jsonText? (ofText text) = some text := by
  have hall : (ofText text).all isJson := by
    rw [ofText, List.all_map, List.all_eq_true]
    intro c _
    exact isJson_ofChar c
  rw [jsonText?, if_pos hall, meaning?_ofText]

end Grammar.StringPiece

end ArrayPatch
