import ArrayPatch.Proofs.Json.Encode
import ArrayPatch.Proofs.Site.Spans

/-!
# The spellings of a text

A token spells a text, one piece for each character.  The forms of the pieces
are stated here in numbers, without the readers: which four digits name a code
unit, and which character two surrogates name.  The main statement is that
`Scan.stringAt` decodes exactly the tokens that spell a text, from every offset,
so that a text comes back from each of its spellings, wherever the token stands.
Finding the end of a token comes to the same end or the same fault.
-/

namespace ArrayPatch

/-! ## Code units -/

namespace Text

/-- A character is the hexadecimal digit of a number, in either case. -/
def IsHexDigit (c : Char) (n : Nat) : Prop :=
  n < 16 ∧ (c = n.digitChar ∨ c = n.digitChar.toUpper)

instance (c : Char) (n : Nat) : Decidable (IsHexDigit c n) :=
  inferInstanceAs (Decidable (_ ∧ _))

/-- Four hexadecimal digits name a code unit. -/
def NamesUnit (digits : Text) (code : Nat) : Prop :=
  ∃ a b c d, List.Forall₂ IsHexDigit digits [a, b, c, d] ∧
    code = ((a * 16 + b) * 16 + c) * 16 + d

theorem hexDigit_eq_some_iff {c : Char} {n : Nat} : hexDigit c = some n ↔ IsHexDigit c n := by
  constructor
  · intro hdigit
    have hascii : c.toNat < 0x80 := utf8Size_eq_one_iff_lt.mp (utf8Size_of_hexDigit hdigit)
    have htable : ∀ code < 0x80, ∀ n ∈ hexDigit (Char.ofNat code),
        IsHexDigit (Char.ofNat code) n := by
      decide
    have hc := htable c.toNat hascii n
    rw [Char.ofNat_toNat] at hc
    exact hc hdigit
  · rintro ⟨hn, hc⟩
    have htable : ∀ n < 16, hexDigit n.digitChar = some n ∧
        hexDigit n.digitChar.toUpper = some n := by
      decide
    rcases hc with rfl | rfl
    · exact (htable n hn).1
    · exact (htable n hn).2

theorem NamesUnit.lt {digits : Text} {code : Nat} (hnames : digits.NamesUnit code) :
    code < 0x10000 := by
  obtain ⟨a, b, c, d, hdigits, rfl⟩ := hnames
  have hlt : ∀ n ∈ [a, b, c, d], n < 16 := (List.forall₂_and_left _ _ |>.mp hdigits.flip).1
  simp only [List.forall_mem_cons] at hlt
  omega

/-- The number of a character is no surrogate. -/
theorem isSurrogate_toNat (c : Char) :
    isHighSurrogate c.toNat = false ∧ isLowSurrogate c.toNat = false := by
  have hvalid : c.toNat < 0xD800 ∨ 0xDFFF < c.toNat ∧ c.toNat < 0x110000 := c.valid
  simp only [isHighSurrogate, isLowSurrogate, Bool.and_eq_false_iff, decide_eq_false_iff_not]
  omega

/-- A valid number is the number of one character. -/
theorem ofNat_eq_iff {code : Nat} {c : Char} (hvalid : code.isValidChar) :
    Char.ofNat code = c ↔ c.toNat = code := by
  have hcode : (Char.ofNat code).toNat = code := by
    rw [Char.ofNat, dif_pos hvalid]
    rfl
  rw [← Char.toNat_inj, hcode, eq_comm]

end Text

namespace Grammar.StringPiece

/-- The number of four characters is made of four digits. -/
theorem unitValue?_four_eq_some_iff {a b c d : Char} {code : Nat} :
    unitValue? [a, b, c, d] = some code ↔ ∃ i j k l, Text.hexDigit a = some i ∧
      Text.hexDigit b = some j ∧ Text.hexDigit c = some k ∧ Text.hexDigit d = some l ∧
        ((i * 16 + j) * 16 + k) * 16 + l = code := by
  cases ha : Text.hexDigit a <;> cases hb : Text.hexDigit b <;> cases hc : Text.hexDigit c <;>
    cases hd : Text.hexDigit d <;> simp [unitValue?, List.foldlM, ha, hb, hc, hd]

theorem unitValue?_eq_some_iff {digits : Text} {code : Nat} :
    unitValue? digits = some code ↔ digits.NamesUnit code := by
  constructor
  · intro hvalue
    match digits, length_of_unitValue? hvalue with
    | [a, b, c, d], _ =>
        obtain ⟨i, j, k, l, hi, hj, hk, hl, rfl⟩ := unitValue?_four_eq_some_iff.mp hvalue
        rw [Text.hexDigit_eq_some_iff] at hi hj hk hl
        exact ⟨i, j, k, l, .cons hi (.cons hj (.cons hk (.cons hl .nil))), rfl⟩
  · rintro ⟨i, j, k, l, hdigits, rfl⟩
    obtain _ | ⟨hi, _ | ⟨hj, _ | ⟨hk, _ | ⟨hl, _ | _⟩⟩⟩⟩ := hdigits
    rw [← Text.hexDigit_eq_some_iff] at hi hj hk hl
    exact unitValue?_four_eq_some_iff.mpr ⟨i, j, k, l, hi, hj, hk, hl, rfl⟩

/-! ## Pieces -/

/-- The character that a piece spells, in each of its four forms. -/
inductive Spells : StringPiece → Char → Prop
  | plain {c : Char} (hquote : c ≠ '"') (hbackslash : c ≠ '\\') : Spells (.plain c) c
  | letter {letter c : Char} (hletter : (letter, c) ∈ letters) : Spells (.letter letter) c
  | unit {digits : Text} {c : Char} (hdigits : digits.NamesUnit c.toNat) : Spells (.unit digits) c
  | pair {high low : Text} {c : Char} {highCode lowCode : Nat}
      (hhigh : high.NamesUnit highCode) (hlow : low.NamesUnit lowCode)
      (hhighCode : 0xD800 ≤ highCode ∧ highCode < 0xDC00)
      (hlowCode : 0xDC00 ≤ lowCode ∧ lowCode < 0xE000)
      (hc : c.toNat = 0x10000 + (highCode - 0xD800) * 0x400 + (lowCode - 0xDC00)) :
      Spells (.pair high low) c

theorem lookup_letters_eq_some_iff {letter c : Char} :
    letters.lookup letter = some c ↔ (letter, c) ∈ letters := by
  constructor
  · intro hlookup
    obtain ⟨front, back, hletters, -⟩ := List.lookup_eq_some_iff.mp hlookup
    rw [hletters]
    exact List.mem_append_right front List.mem_cons_self
  · have hall : ∀ entry ∈ letters, letters.lookup entry.1 = some entry.2 := by decide
    exact hall (letter, c)

/-- Outside the surrogates a code unit is the number of its character. -/
theorem value?_unit_eq_some_iff_namesUnit {digits : Text} {c : Char} :
    (unit digits).value? = some c ↔ digits.NamesUnit c.toNat := by
  rw [value?_unit_eq_some_iff]
  simp only [unitValue?_eq_some_iff]
  constructor
  · rintro ⟨code, hnames, hhigh, hlow, hc⟩
    have hvalid : code.isValidChar := by
      have hlt := hnames.lt
      simp only [Text.isHighSurrogate, Text.isLowSurrogate, Bool.and_eq_false_iff,
        decide_eq_false_iff_not] at hhigh hlow
      unfold Nat.isValidChar
      omega
    rwa [(Text.ofNat_eq_iff hvalid).mp hc]
  · intro hnames
    obtain ⟨hhigh, hlow⟩ := Text.isSurrogate_toNat c
    exact ⟨c.toNat, hnames, hhigh, hlow, Char.ofNat_toNat c⟩

/-- A piece stands for the character that it spells, and for no other. -/
theorem value?_eq_some_iff_spells {piece : StringPiece} {c : Char} :
    piece.value? = some c ↔ piece.Spells c := by
  cases piece with
  | plain d =>
      rw [value?, Option.ite_none_left_eq_some, not_or]
      constructor
      · rintro ⟨⟨hquote, hbackslash⟩, ⟨⟩⟩
        exact .plain hquote hbackslash
      · intro hspells
        cases hspells with
        | plain hquote hbackslash => exact ⟨⟨hquote, hbackslash⟩, rfl⟩
  | letter letter =>
      rw [value?, lookup_letters_eq_some_iff]
      constructor
      · exact .letter
      · intro hspells
        cases hspells with
        | letter hletter => exact hletter
  | unit digits =>
      rw [value?_unit_eq_some_iff_namesUnit]
      constructor
      · exact .unit
      · intro hspells
        cases hspells with
        | unit hdigits => exact hdigits
  | pair high low =>
      rw [value?_pair_eq_some_iff]
      simp only [unitValue?_eq_some_iff, Text.isHighSurrogate, Text.isLowSurrogate,
        Bool.and_eq_true, decide_eq_true_eq]
      have hvalid {highCode lowCode : Nat} (hhigh : 0xD800 ≤ highCode ∧ highCode ≤ 0xDBFF)
          (hlow : 0xDC00 ≤ lowCode ∧ lowCode ≤ 0xDFFF) :
          (0x10000 + (highCode - 0xD800) * 0x400 + (lowCode - 0xDC00)).isValidChar := by
        unfold Nat.isValidChar
        omega
      constructor
      · rintro ⟨highCode, lowCode, hhigh, hlow, hhighCode, hlowCode, hc⟩
        have hc := (Text.ofNat_eq_iff (hvalid hhighCode hlowCode)).mp hc
        exact .pair hhigh hlow (by omega) (by omega) hc
      · intro hspells
        cases hspells with
        | pair hhigh hlow hhighCode hlowCode hc =>
            have hhighCode := And.imp_right Nat.le_of_lt_succ hhighCode
            have hlowCode := And.imp_right Nat.le_of_lt_succ hlowCode
            exact ⟨_, _, hhigh, hlow, hhighCode, hlowCode,
              (Text.ofNat_eq_iff (hvalid hhighCode hlowCode)).mpr hc⟩

/-- Pieces stand for the text that they spell. -/
theorem meaning?_eq_some_iff_spells {pieces : List StringPiece} {value : Text} :
    meaning? pieces = some value ↔ List.Forall₂ Spells pieces value := by
  induction pieces generalizing value with
  | nil => simp [eq_comm]
  | cons piece pieces ih =>
      simp only [meaning?_cons, Option.bind_eq_some_iff, Option.map_eq_some_iff,
        value?_eq_some_iff_spells, ih, List.forall₂_cons_left_iff]
      constructor
      · rintro ⟨c, hc, rest, hrest, rfl⟩
        exact ⟨c, rest, hc, hrest, rfl⟩
      · rintro ⟨c, rest, hc, hrest, rfl⟩
        exact ⟨c, hc, rest, hrest, rfl⟩

end Grammar.StringPiece

/-! ## Decoding from any offset -/

namespace Scan

open Grammar

/-- A token is decoded from an offset exactly if it stands there and spells the
text. -/
theorem stringAt_eq_ok_iff {text value : Text} {start stop : Nat} :
    stringAt text start = .ok (value, stop) ↔
      ∃ before pieces after, text = before ++ (StringPiece.tokenText pieces ++ after) ∧
        before.size = start ∧ stop = start + (StringPiece.tokenText pieces).size ∧
          List.Forall₂ StringPiece.Spells pieces value := by
  constructor
  · intro hstring
    rw [stringAt] at hstring
    by_cases hfragment : (text.tailAt start).fragment = 0
    · rw [if_pos hfragment] at hstring
      cases hread : StringToken.read ⟨start, (text.tailAt start).rest⟩ with
      | error fault =>
          rw [hread] at hstring
          cases hstring
      | ok read =>
          obtain ⟨decoded, next, hnext⟩ := read
          rw [hread] at hstring
          obtain ⟨rfl, rfl⟩ : decoded = value ∧ next.offset = stop :=
            Prod.mk.inj (Except.ok.inj hstring)
          obtain ⟨pieces, hrest, hmeaning, hstop⟩ := StringToken.reads_read_iff.mp ⟨hnext, hread⟩
          have hstart : start ≤ text.size := by
            by_contra hpast
            rw [Text.tailAt_of_size_lt (Nat.lt_of_not_le hpast)] at hrest
            cases hrest
          obtain ⟨before, htext, hbefore⟩ := Text.exists_eq_append_tailAt hstart hfragment
          dsimp only at hrest
          rw [hrest] at htext
          exact ⟨before, pieces, next.rest, htext, hbefore, hstop,
            StringPiece.meaning?_eq_some_iff_spells.mp hmeaning⟩
    · rw [if_neg hfragment] at hstring
      cases hstring
  · rintro ⟨before, pieces, after, rfl, rfl, rfl, hspells⟩
    have hat : (before ++ (StringPiece.tokenText pieces ++ after)).HasAt 0
        (StringPiece.tokenText pieces) before.size :=
      ⟨before, after, (List.append_assoc ..).symm, Nat.zero_add _⟩
    exact hat.stringAt_eq_ok (StringPiece.meaning?_eq_some_iff_spells.mpr hspells)

/-- The end of a token is found where decoding ends, or with the same fault. -/
theorem stringEnd_eq_map_stringAt (text : Text) (start : Nat) :
    stringEnd text start = (stringAt text start).map (·.2) := by
  rw [stringEnd, stringAt]
  by_cases hfragment : (text.tailAt start).fragment = 0
  · rw [if_pos hfragment, if_pos hfragment, StringToken.skip_eq_map_read]
    cases StringToken.read ⟨start, (text.tailAt start).rest⟩ <;> rfl
  · rw [if_neg hfragment, if_neg hfragment]
    rfl

/-- From every offset of a text exactly the tokens that spell a text are decoded,
and to this text.  So every text comes back from each of its spellings, and it
has one.  The end of a token is found exactly if the token is decoded, and else
the fault is the same. -/
theorem stringAt_decodes_spellings :
    (∀ text start value stop, stringAt text start = .ok (value, stop) ↔
      ∃ before pieces after, text = before ++ (StringPiece.tokenText pieces ++ after) ∧
        before.size = start ∧ stop = start + (StringPiece.tokenText pieces).size ∧
          List.Forall₂ StringPiece.Spells pieces value) ∧
    (∀ value : Text, (∃ pieces, List.Forall₂ StringPiece.Spells pieces value) ∧
      ∀ pieces, List.Forall₂ StringPiece.Spells pieces value → ∀ before after : Text,
        stringAt (before ++ (StringPiece.tokenText pieces ++ after)) before.size =
          .ok (value, before.size + (StringPiece.tokenText pieces).size)) ∧
    ∀ text start, stringEnd text start = (stringAt text start).map (·.2) := by
  refine ⟨fun text start value stop => stringAt_eq_ok_iff, fun value => ⟨?_, ?_⟩,
    stringEnd_eq_map_stringAt⟩
  · exact ⟨StringPiece.ofText value,
      StringPiece.meaning?_eq_some_iff_spells.mp (StringPiece.meaning?_ofText value)⟩
  · intro pieces hspells before after
    exact stringAt_eq_ok_iff.mpr ⟨before, pieces, after, rfl, rfl, rfl, hspells⟩

/-- A token in the middle of a text, with a letter, code units in both cases, a
surrogate pair in both cases at once, and the same characters as they are. -/
theorem stringAt_decodes_spellings_of_mixture :
    let pieces : List StringPiece := [.plain 'a', .letter 'n', .letter '/', .unit "00E9".toList,
      .unit "00e9".toList, .plain 'é', .pair "D83d".toList "dE00".toList, .plain '😀']
    let value : Text := "a\n/ééé😀😀".toList
    let text : Text := "é:\"a\\n\\/\\u00E9\\u00e9é\\uD83d\\udE00😀\" ".toList
    List.Forall₂ StringPiece.Spells pieces value ∧
      text = "é:".toList ++ (StringPiece.tokenText pieces ++ " ".toList) ∧
      stringAt text 3 = .ok (value, 40) ∧ stringEnd text 3 = .ok 40 := by
  intro pieces value text
  have hspells : List.Forall₂ StringPiece.Spells pieces value :=
    StringPiece.meaning?_eq_some_iff_spells.mp (by decide)
  obtain ⟨-, hdecode, hend⟩ := stringAt_decodes_spellings
  have hread := (hdecode _).2 pieces hspells "é:".toList " ".toList
  refine ⟨hspells, by decide, hread, ?_⟩
  exact (hend _ 3).trans (congrArg (Except.map (·.2)) hread)

end Scan

end ArrayPatch
