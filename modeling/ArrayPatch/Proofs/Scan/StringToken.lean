import ArrayPatch.Grammar.StringPiece
import ArrayPatch.Scan.StringToken
import Mathlib.Data.Nat.Init
import Mathlib.Tactic.Common

/-!
# String tokens and their pieces

The reader of string tokens accepts exactly the tokens that are spelled by a
sequence of pieces standing for a text, and decodes them to this text.  The
module goes from four digits to escapes, bodies and tokens; for each reader
there is one equivalence with the pieces that it consumes.
-/

namespace ArrayPatch

open Grammar

namespace Text

theorem utf8Size_of_hexDigit {c : Char} {n : Nat} (hdigit : hexDigit c = some n) :
    c.utf8Size = 1 := by
  have hnine : ('9' : Char).val.toNat = 57 := rfl
  have hlower : ('f' : Char).val.toNat = 102 := rfl
  have hupper : ('F' : Char).val.toNat = 70 := rfl
  have hascii : c.val.toNat ≤ 127 := by
    simp only [hexDigit, Char.le_def, UInt32.le_iff_toNat_le] at hdigit
    grind
  rw [Char.utf8Size, if_pos]
  exact UInt32.le_iff_toNat_le.mpr hascii

theorem codeUnit_cons (a b c d : Char) (rest : Text) :
    (codeUnit (a :: b :: c :: d :: rest)).map (fun read => (read.1, read.2.1)) =
      (StringPiece.unitValue? [a, b, c, d]).map fun unit => (unit, rest) := by
  cases ha : hexDigit a <;> cases hb : hexDigit b <;> cases hc : hexDigit c <;>
    cases hd : hexDigit d <;>
    simp [codeUnit, StringPiece.unitValue?, List.foldlM, ha, hb, hc, hd]

end Text

namespace Grammar.StringPiece

theorem length_of_unitValue? {digits : Text} {unit : Nat}
    (hvalue : unitValue? digits = some unit) : digits.length = 4 := by
  by_contra hlength
  simp [unitValue?, hlength] at hvalue

/-- A code unit is read exactly if its four digits come first. -/
theorem codeUnit_eq_some_iff {text rest : Text} {unit : Nat} :
    (∃ hrest, Text.codeUnit text = some (unit, ⟨rest, hrest⟩)) ↔
      ∃ digits, text = digits ++ rest ∧ unitValue? digits = some unit := by
  constructor
  · rintro ⟨hrest, hread⟩
    match text with
    | a :: b :: c :: d :: behind =>
        have hbare := Text.codeUnit_cons a b c d behind
        rw [hread, Option.map_some, eq_comm, Option.map_eq_some_iff] at hbare
        obtain ⟨_, hvalue, hparts⟩ := hbare
        obtain ⟨rfl, rfl⟩ := Prod.mk.inj hparts
        exact ⟨[a, b, c, d], rfl, hvalue⟩
    | [] | [_] | [_, _] | [_, _, _] => simp [Text.codeUnit] at hread
  · rintro ⟨digits, rfl, hvalue⟩
    match digits, length_of_unitValue? hvalue with
    | [a, b, c, d], _ =>
        have hbare := Text.codeUnit_cons a b c d rest
        rw [hvalue, Option.map_some, Option.map_eq_some_iff] at hbare
        obtain ⟨⟨_, behind, hbehind⟩, hread, hparts⟩ := hbare
        obtain ⟨rfl, rfl⟩ : _ = unit ∧ behind = rest := Prod.mk.inj hparts
        exact ⟨hbehind, hread⟩

theorem size_of_unitValue? {digits : Text} {unit : Nat}
    (hvalue : unitValue? digits = some unit) : Text.size digits = 4 := by
  match digits, length_of_unitValue? hvalue with
  | [a, b, c, d], _ =>
      have hdigit : ∀ x ∈ [a, b, c, d], ∃ n, Text.hexDigit x = some n := by
        cases ha : Text.hexDigit a <;> cases hb : Text.hexDigit b <;>
          cases hc : Text.hexDigit c <;> cases hd : Text.hexDigit d <;>
          simp_all [unitValue?, List.foldlM]
      have hsize : ∀ x ∈ [a, b, c, d], x.utf8Size = 1 := by
        intro x hx
        obtain ⟨n, hn⟩ := hdigit x hx
        exact Text.utf8Size_of_hexDigit hn
      simp_all

/-- The letters of short escapes take one byte, and `u` is none of them. -/
theorem utf8Size_of_lookup_letters {c decoded : Char} (hletter : letters.lookup c = some decoded) :
    c.utf8Size = 1 ∧ c ≠ 'u' := by
  have hmem : c ∈ letters.map Prod.fst := by
    by_contra hmem
    rw [List.lookup_eq_none_iff.mpr] at hletter
    · cases hletter
    · intro entry hentry
      simpa using fun heq : c = entry.1 => hmem (heq ▸ List.mem_map_of_mem hentry)
  revert hmem
  simp only [letters, List.map_cons, List.map_nil, List.mem_cons, List.not_mem_nil, or_false]
  rintro (rfl | rfl | rfl | rfl | rfl | rfl | rfl | rfl) <;> decide

/-- A code unit outside the surrogates stands for the character of that number. -/
theorem value?_unit_eq_some_iff {digits : Text} {c : Char} :
    (unit digits).value? = some c ↔ ∃ code, unitValue? digits = some code ∧
      Text.isHighSurrogate code = false ∧ Text.isLowSurrogate code = false ∧
        Char.ofNat code = c := by
  cases hdigits : unitValue? digits with
  | none => simp [value?, hdigits]
  | some code => simp [value?, hdigits, and_assoc]

/-- A high and a low surrogate stand for one character. -/
theorem value?_pair_eq_some_iff {high low : Text} {c : Char} :
    (pair high low).value? = some c ↔ ∃ highCode lowCode, unitValue? high = some highCode ∧
      unitValue? low = some lowCode ∧ Text.isHighSurrogate highCode = true ∧
        Text.isLowSurrogate lowCode = true ∧ Text.pairChar highCode lowCode = c := by
  cases hhigh : unitValue? high with
  | none => simp [value?, hhigh]
  | some highCode =>
      cases hlow : unitValue? low with
      | none => simp [value?, hhigh, hlow]
      | some lowCode => simp [value?, hhigh, hlow, and_assoc]

theorem size_text_unit {digits : Text} {code : Nat} (hvalue : unitValue? digits = some code) :
    Text.size (unit digits).text = 6 := by
  rw [text, Text.size_cons, Text.size_cons, size_of_unitValue? hvalue]
  rfl

theorem size_text_pair {high low : Text} {highCode lowCode : Nat}
    (hhigh : unitValue? high = some highCode) (hlow : unitValue? low = some lowCode) :
    Text.size (pair high low).text = 12 := by
  rw [text, List.cons_append, List.cons_append, Text.size_cons, Text.size_cons, Text.size_append,
    Text.size_cons, Text.size_cons, size_of_unitValue? hhigh, size_of_unitValue? hlow]
  rfl

theorem size_text_letter {c decoded : Char} (hletter : letters.lookup c = some decoded) :
    Text.size (letter c).text = 2 := by
  rw [text, Text.size_cons, Text.size_cons, (utf8Size_of_lookup_letters hletter).1]
  rfl

end Grammar.StringPiece

namespace StringToken

variable {α : Type} {rest text : Text}

/-- A reading yields a value and ends at a cursor. -/
def Reads (reading : Reading α rest) (value : α) (next : Cursor) : Prop :=
  ∃ hnext, reading = .ok (value, ⟨next, hnext⟩)

@[simp]
theorem reads_ok {read value : α} {behind : { next : Cursor // next.rest.length < rest.length }}
    {next : Cursor} :
    Reads (.ok (read, behind) : Reading α rest) value next ↔ read = value ∧ behind.1 = next := by
  rcases behind with ⟨cursor, hcursor⟩
  constructor
  · rintro ⟨hnext, heq⟩
    cases heq
    exact ⟨rfl, rfl⟩
  · rintro ⟨rfl, rfl⟩
    exact ⟨hcursor, rfl⟩

@[simp]
theorem not_reads_error {fault : Fault} {value : α} {next : Cursor} :
    ¬ Reads (.error fault : Reading α rest) value next := by
  rintro ⟨_, heq⟩
  cases heq

@[simp]
theorem reads_pure {read value : α} {behind : { next : Cursor // next.rest.length < rest.length }}
    {next : Cursor} :
    Reads (pure (read, behind) : Reading α rest) value next ↔ read = value ∧ behind.1 = next :=
  reads_ok

theorem reads_bind_iff {β : Type} {reading : Reading β text}
    {then_ : β × { next : Cursor // next.rest.length < text.length } → Reading α rest}
    {value : α} {next : Cursor} :
    Reads (reading >>= then_) value next ↔
      ∃ b mid hmid, reading = .ok (b, ⟨mid, hmid⟩) ∧ Reads (then_ (b, ⟨mid, hmid⟩)) value next := by
  cases reading with
  | error fault =>
      constructor
      · intro hread
        exact absurd hread not_reads_error
      · rintro ⟨_, _, _, heq, _⟩
        cases heq
  | ok read =>
      rcases read with ⟨b, mid, hmid⟩
      constructor
      · intro hread
        exact ⟨b, mid, hmid, rfl, hread⟩
      · rintro ⟨_, _, _, heq, hread⟩
        cases heq
        exact hread

theorem reads_readUnicode_unit {digits : Text} {code offset : Nat}
    (hdigits : StringPiece.unitValue? digits = some code)
    (hhigh : Text.isHighSurrogate code = false) (hlow : Text.isLowSurrogate code = false) :
    Reads (readUnicode offset (digits ++ rest)) (Char.ofNat code) ⟨offset + 6, rest⟩ := by
  obtain ⟨hrest, hunit⟩ := StringPiece.codeUnit_eq_some_iff.mpr ⟨digits, rfl, hdigits⟩
  rw [readUnicode, hunit]
  simp [hhigh, hlow]

theorem reads_readUnicode_pair {high low : Text} {highCode lowCode offset : Nat}
    (hhigh : StringPiece.unitValue? high = some highCode)
    (hlow : StringPiece.unitValue? low = some lowCode)
    (hisHigh : Text.isHighSurrogate highCode = true)
    (hisLow : Text.isLowSurrogate lowCode = true) :
    Reads (readUnicode offset (high ++ '\\' :: 'u' :: (low ++ rest)))
      (Text.pairChar highCode lowCode) ⟨offset + 12, rest⟩ := by
  obtain ⟨hlast, hlowUnit⟩ :=
    StringPiece.codeUnit_eq_some_iff.mpr ⟨low, rfl, hlow⟩
  obtain ⟨hrest, hhighUnit⟩ :=
    StringPiece.codeUnit_eq_some_iff.mpr ⟨high, rfl, hhigh⟩
  rw [readUnicode, hhighUnit]
  simp only [hisHigh, if_true]
  rw [hlowUnit]
  simp [hisLow]

/-- An escape by code unit is read exactly if it is the text of a piece. -/
theorem reads_readUnicode_iff {offset : Nat} {c : Char} {next : Cursor} :
    Reads (readUnicode offset text) c next ↔
      ∃ piece : StringPiece, '\\' :: 'u' :: text = piece.text ++ next.rest ∧
        piece.value? = some c ∧ next.offset = offset + Text.size piece.text := by
  constructor
  · intro hread
    rw [readUnicode] at hread
    split at hread
    · exact absurd hread not_reads_error
    · rename_i unit rest hrest hunit
      obtain ⟨digits, rfl, hdigits⟩ := StringPiece.codeUnit_eq_some_iff.mp ⟨hrest, hunit⟩
      split at hread
      · rename_i hhigh
        split at hread
        · rename_i more hmore
          split at hread
          · exact absurd hread not_reads_error
          · rename_i low last hlast hlow
            obtain ⟨lowDigits, rfl, hlowDigits⟩ :=
              StringPiece.codeUnit_eq_some_iff.mp ⟨hlast, hlow⟩
            split at hread
            · rename_i hisLow
              obtain ⟨rfl, rfl⟩ := reads_ok.mp hread
              refine ⟨.pair digits lowDigits, by simp [StringPiece.text], ?_, ?_⟩
              · simp [StringPiece.value?, hdigits, hlowDigits, hhigh, hisLow]
              · rw [StringPiece.size_text_pair hdigits hlowDigits]
            · exact absurd hread not_reads_error
        · exact absurd hread not_reads_error
      · rename_i hhigh
        split at hread
        · exact absurd hread not_reads_error
        · rename_i hlow
          obtain ⟨rfl, rfl⟩ := reads_ok.mp hread
          refine ⟨.unit digits, by simp [StringPiece.text], ?_, ?_⟩
          · simp [StringPiece.value?, hdigits, hhigh, hlow]
          · rw [StringPiece.size_text_unit hdigits]
  · rintro ⟨piece, htext, hvalue, hoffset⟩
    rcases next with ⟨behind, rest⟩
    cases piece with
    | plain plain =>
        obtain rfl : '\\' = plain := (List.cons.inj htext).1
        simp [StringPiece.value?] at hvalue
    | letter letter =>
        obtain rfl : 'u' = letter := (List.cons.inj (List.cons.inj htext).2).1
        have hlookup : StringPiece.letters.lookup 'u' = some c := hvalue
        exact absurd rfl (StringPiece.utf8Size_of_lookup_letters hlookup).2
    | unit digits =>
        obtain rfl : text = digits ++ rest := by simpa [StringPiece.text] using htext
        obtain ⟨code, hdigits, hhigh, hlow, rfl⟩ := StringPiece.value?_unit_eq_some_iff.mp hvalue
        obtain rfl : behind = offset + 6 := by
          rwa [StringPiece.size_text_unit hdigits] at hoffset
        exact reads_readUnicode_unit hdigits hhigh hlow
    | pair high low =>
        obtain rfl : text = high ++ '\\' :: 'u' :: (low ++ rest) := by
          simpa [StringPiece.text] using htext
        obtain ⟨highCode, lowCode, hhigh, hlow, hisHigh, hisLow, rfl⟩ :=
          StringPiece.value?_pair_eq_some_iff.mp hvalue
        obtain rfl : behind = offset + 12 := by
          rwa [StringPiece.size_text_pair hhigh hlow] at hoffset
        exact reads_readUnicode_pair hhigh hlow hisHigh hisLow

/-- The table of short escapes is the one of the letters. -/
theorem shortEscape_eq_lookup (c : Char) : shortEscape c = StringPiece.letters.lookup c := by
  simp only [StringPiece.letters, List.lookup_cons, List.lookup_nil]
  unfold shortEscape
  split <;> grind

/-- An escape is read exactly if it is the text of a piece. -/
theorem reads_readEscape_iff {opening offset : Nat} {c : Char} {next : Cursor} :
    Reads (readEscape opening offset text) c next ↔
      ∃ piece : StringPiece, '\\' :: text = piece.text ++ next.rest ∧
        piece.value? = some c ∧ next.offset = offset + Text.size piece.text := by
  cases text with
  | nil =>
      constructor
      · intro hread
        exact absurd hread not_reads_error
      · rintro ⟨piece, htext, hvalue, -⟩
        cases piece with
        | plain plain =>
            obtain rfl : '\\' = plain := (List.cons.inj htext).1
            simp [StringPiece.value?] at hvalue
        | letter | unit | pair => simp [StringPiece.text] at htext
  | cons letter rest =>
      rw [readEscape]
      split
      · rename_i hletter
        subst hletter
        simp only [reads_bind_iff, reads_pure]
        rw [← reads_readUnicode_iff]
        constructor
        · rintro ⟨_, mid, hmid, hread, rfl, rfl⟩
          exact ⟨hmid, hread⟩
        · rintro ⟨hmid, hread⟩
          exact ⟨c, next, hmid, hread, rfl, rfl⟩
      · rename_i hletter
        rw [shortEscape_eq_lookup]
        constructor
        · intro hread
          split at hread
          · rename_i decoded hlookup
            obtain ⟨rfl, rfl⟩ := reads_ok.mp hread
            exact ⟨.letter letter, rfl, hlookup, by rw [StringPiece.size_text_letter hlookup]⟩
          · exact absurd hread not_reads_error
        · rintro ⟨piece, htext, hvalue, hoffset⟩
          cases piece with
          | plain plain =>
              obtain rfl : '\\' = plain := (List.cons.inj htext).1
              simp [StringPiece.value?] at hvalue
          | letter other =>
              obtain ⟨rfl, rfl⟩ : letter = other ∧ rest = next.rest := by
                simpa [StringPiece.text] using htext
              have hlookup : StringPiece.letters.lookup letter = some c := hvalue
              rw [StringPiece.size_text_letter hlookup] at hoffset
              rw [hlookup]
              simp [← hoffset]
          | unit | pair => simp_all [StringPiece.text]

/-! ## Bodies -/

/-- A piece adds its character to what is read behind it. -/
theorem reads_readBody_append {piece : StringPiece} {opening offset : Nat} {c : Char}
    {value : Text} {next : Cursor} (hvalue : piece.value? = some c)
    (hread : Reads (readBody opening (offset + Text.size piece.text) rest) value next) :
    Reads (readBody opening offset (piece.text ++ rest)) (c :: value) next := by
  obtain ⟨hnext, hbody⟩ := hread
  by_cases hescape : ∃ text, piece.text = '\\' :: text
  · obtain ⟨text, htext⟩ := hescape
    have hread : Reads (readEscape opening offset (text ++ rest)) c
        ⟨offset + Text.size piece.text, rest⟩ :=
      reads_readEscape_iff.mpr ⟨piece, by rw [htext, List.cons_append], hvalue, rfl⟩
    obtain ⟨hmid, hescape⟩ := hread
    rw [htext, List.cons_append, readBody]
    simp only [hescape, if_false, if_true, Char.reduceEq]
    exact reads_bind_iff.mpr ⟨_, _, _, rfl, reads_bind_iff.mpr ⟨_, _, _, hbody, by simp⟩⟩
  · cases piece with
    | plain plain =>
        obtain ⟨⟨hquote, hbackslash⟩, rfl⟩ : (plain ≠ '"' ∧ plain ≠ '\\') ∧ plain = c := by
          simpa [StringPiece.value?] using hvalue
        rw [StringPiece.text, List.singleton_append, readBody, if_neg hquote, if_neg hbackslash]
        exact reads_bind_iff.mpr ⟨_, _, _, hbody, by simp⟩
    | letter | unit | pair => exact absurd ⟨_, rfl⟩ hescape

/-- The body of a token is read exactly if it is spelled by pieces. -/
theorem reads_readBody_iff {opening offset : Nat} {value : Text} {next : Cursor} :
    Reads (readBody opening offset text) value next ↔
      ∃ pieces, text = StringPiece.bodyText pieces ++ '"' :: next.rest ∧
        StringPiece.meaning? pieces = some value ∧
        next.offset = offset + Text.size (StringPiece.bodyText pieces) + 1 := by
  constructor
  · intro hread
    induction hlength : text.length using Nat.strongRecOn generalizing text offset value with
    | ind length ih =>
      rw [readBody.eq_def] at hread
      split at hread
      · exact absurd hread not_reads_error
      · rename_i c rest
        split at hread
        · rename_i hquote
          obtain ⟨rfl, rfl⟩ := reads_ok.mp hread
          exact ⟨[], by simp [hquote], rfl, rfl⟩
        · split at hread
          · rename_i hbackslash
            obtain ⟨decoded, mid, hmid, hescape, hread⟩ := reads_bind_iff.mp hread
            obtain ⟨more, last, hlast, hbody, hread⟩ := reads_bind_iff.mp hread
            obtain ⟨rfl, rfl⟩ : decoded :: more = value ∧ last = next := reads_pure.mp hread
            obtain ⟨piece, hpiece, hvalue, hoffset⟩ :=
              reads_readEscape_iff.mp ⟨hmid, hescape⟩
            obtain ⟨pieces, hpieces, hmeaning, hend⟩ :=
              ih mid.rest.length (by simp at hlength; omega) ⟨hlast, hbody⟩ rfl
            refine ⟨piece :: pieces, ?_, by simp [hvalue, hmeaning], ?_⟩
            · rw [hbackslash, hpiece, hpieces]
              simp
            · rw [hend, hoffset]
              simp [Nat.add_assoc]
          · rename_i hquote hbackslash
            obtain ⟨more, last, hlast, hbody, hread⟩ := reads_bind_iff.mp hread
            obtain ⟨rfl, rfl⟩ : c :: more = value ∧ last = next := reads_pure.mp hread
            obtain ⟨pieces, hpieces, hmeaning, hend⟩ :=
              ih rest.length (by simp at hlength; omega) ⟨hlast, hbody⟩ rfl
            refine ⟨.plain c :: pieces, ?_, ?_, ?_⟩
            · rw [hpieces]
              rfl
            · simp [StringPiece.value?, hquote, hbackslash, hmeaning]
            · rw [hend]
              simp [StringPiece.text, Nat.add_assoc]
  · rintro ⟨pieces, rfl, hmeaning, hend⟩
    rcases next with ⟨behind, rest⟩
    simp only at hend
    induction pieces generalizing offset value with
    | nil =>
        obtain rfl : [] = value := Option.some.inj hmeaning
        rw [StringPiece.bodyText_nil, List.nil_append, readBody]
        simp [hend]
    | cons piece pieces ih =>
        rw [StringPiece.meaning?_cons, Option.bind_eq_some_iff] at hmeaning
        obtain ⟨c, hvalue, hmeaning⟩ := hmeaning
        obtain ⟨more, hmore, rfl⟩ := Option.map_eq_some_iff.mp hmeaning
        rw [StringPiece.bodyText_cons, List.append_assoc]
        refine reads_readBody_append hvalue (ih hmore ?_)
        rw [hend, StringPiece.bodyText_cons, Text.size_append, ← Nat.add_assoc offset]

/-- Finding the end of a body is reading it without its characters. -/
theorem skipBody_eq_map_readBody (opening offset : Nat) (text : Text) :
    skipBody opening offset text = (readBody opening offset text).map (·.2) := by
  cases text with
  | nil => rw [skipBody, readBody]; rfl
  | cons c rest =>
      rw [skipBody, readBody]
      split
      · rfl
      · split
        · cases readEscape opening offset rest with
          | error => rfl
          | ok read =>
              rcases read with ⟨decoded, mid, hmid⟩
              have hmore := skipBody_eq_map_readBody opening mid.offset mid.rest
              simp only [bind, Except.bind, hmore]
              cases readBody opening mid.offset mid.rest <;> rfl
        · have hmore := skipBody_eq_map_readBody opening (offset + c.utf8Size) rest
          simp only [bind, Except.bind, hmore]
          cases readBody opening (offset + c.utf8Size) rest <;> rfl
termination_by text.length

/-! ## Tokens -/

/-- A token is read exactly if it is spelled by pieces that stand for a text. -/
theorem reads_read_iff {cursor next : Cursor} {value : Text} :
    Reads (read cursor) value next ↔
      ∃ pieces, cursor.rest = StringPiece.tokenText pieces ++ next.rest ∧
        StringPiece.meaning? pieces = some value ∧
        next.offset = cursor.offset + Text.size (StringPiece.tokenText pieces) := by
  rcases cursor with ⟨offset, text⟩
  have hmark : Char.utf8Size '"' = 1 := rfl
  by_cases hquote : ∃ rest, text = '"' :: rest
  · obtain ⟨rest, rfl⟩ := hquote
    simp only [read, reads_bind_iff, reads_pure]
    constructor
    · rintro ⟨_, _, hmid, hread, rfl, rfl⟩
      obtain ⟨pieces, hpieces, hmeaning, hend⟩ := reads_readBody_iff.mp ⟨hmid, hread⟩
      refine ⟨pieces, ?_, hmeaning, ?_⟩
      · simp [StringPiece.tokenText, hpieces]
      · simp only [StringPiece.tokenText, List.cons_append, Text.size_cons, Text.size_append,
          Text.size_nil, hmark]
        omega
    · rintro ⟨pieces, hpieces, hmeaning, hend⟩
      have hrest : rest = StringPiece.bodyText pieces ++ '"' :: next.rest := by
        simpa [StringPiece.tokenText] using hpieces
      simp only [StringPiece.tokenText, List.cons_append, Text.size_cons, Text.size_append,
        Text.size_nil, hmark] at hend
      obtain ⟨hnext, hread⟩ : Reads (readBody offset (offset + 1) rest) value next :=
        reads_readBody_iff.mpr ⟨pieces, hrest, hmeaning, by omega⟩
      exact ⟨value, next, hnext, hread, rfl, rfl⟩
  · rw [read.eq_2 offset text fun rest heq => hquote ⟨rest, heq⟩]
    constructor
    · intro hread
      exact absurd hread not_reads_error
    · rintro ⟨pieces, hpieces, -, -⟩
      exact absurd ⟨_, hpieces⟩ hquote

/-- The end of a token is found exactly if the token can be read. -/
theorem skip_eq_map_read (cursor : Cursor) : skip cursor = (read cursor).map (·.2) := by
  rcases cursor with ⟨offset, text⟩
  by_cases hquote : ∃ rest, text = '"' :: rest
  · obtain ⟨rest, rfl⟩ := hquote
    simp only [skip, read, skipBody_eq_map_readBody, bind, Except.bind]
    cases readBody offset (offset + 1) rest <;> rfl
  · have hother : ∀ rest, text = '"' :: rest → False := fun rest heq => hquote ⟨rest, heq⟩
    rw [read.eq_2 offset text hother, skip.eq_2 offset text hother]
    rfl

theorem skip_eq_ok_iff {cursor next : Cursor} :
    (∃ hnext, skip cursor = .ok ⟨next, hnext⟩) ↔ ∃ value, Reads (read cursor) value next := by
  rw [skip_eq_map_read]
  cases read cursor with
  | error => simp [Except.map]
  | ok reading =>
      rcases reading with ⟨value, behind, hbehind⟩
      simp only [Except.map, Except.ok.injEq, Subtype.mk.injEq, exists_prop, reads_ok,
        exists_and_right, exists_eq', true_and, and_iff_right_iff_imp]
      rintro rfl
      exact hbehind

end StringToken

end ArrayPatch
