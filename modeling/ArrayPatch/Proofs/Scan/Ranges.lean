import ArrayPatch.Layout
import ArrayPatch.Proofs.Scan.Passing
import ArrayPatch.Proofs.Text.Bytes
import ArrayPatch.Scan.Anywhere
import Mathlib.Data.List.DropRight

/-!
# Reading a text by ranges

The readers of this library go from character to character.  The readers of
this module go from byte to byte instead and take what they need out of the text
by ranges of offsets: the runs of plain characters of a string token, the digits
of a code unit, the rest behind an unknown escape, and the line in front of a
key.  They fail if a range does not end at boundaries of the text.

Both give the same results from every offset of every text.  So the ranges of a
string token always fit: whatever ends one is an ASCII byte, and these are no
bytes of longer characters.
-/

namespace ArrayPatch.Ranges

open Grammar StringToken

/-- The offsets behind an offset. -/
abbrev Ahead (offset : Nat) :=
  { next : Nat // offset < next }

/-- Refuse a text for a flaw at an offset. -/
def refuse {α : Type} (flaw : Flaw) (offset : Nat) : Except Failure α :=
  .error (.refused (.malformed ⟨flaw, offset⟩))

/-- Take a range out of a text. -/
def cut (text : Text) (start stop : Nat) : Except Failure Text :=
  match text.slice? start stop with
  | some part => .ok part
  | none => .error (.brokenRange start stop)

/-- Characters that end a run of plain characters. -/
def endsRun (c : Char) : Bool :=
  c = '"' || c = '\\'

/-- Characters that are hexadecimal digits. -/
def isDigit (c : Char) : Bool :=
  (Text.hexDigit c).isSome

/-- The code unit whose four digits start at an offset. -/
def unitAt (text : Text) (offset : Nat) : Except Failure (Option Nat) :=
  let digits := (text.bytes.drop offset).take 4
  if digits.length = 4 ∧ digits.all fun b => isDigit (Char.ofUInt8 b) then do
    let digits ← cut text offset (offset + 4)
    return StringPiece.unitValue? digits
  else
    return none

/-- Decode the escape by code unit whose backslash is at an offset. -/
def unicodeAt (text : Text) (offset : Nat) : Except Failure (Char × Ahead offset) := do
  let some unit ← unitAt text (offset + 2) | refuse .invalidUnicodeEscape offset
  if Text.isHighSurrogate unit then
    if (text.bytes.drop (offset + 6)).take 2 = Text.bytes ['\\', 'u'] then
      let some low ← unitAt text (offset + 8) | refuse .invalidUnicodeEscape (offset + 6)
      if Text.isLowSurrogate low then
        return (Text.pairChar unit low, ⟨offset + 12, by omega⟩)
      else
        refuse .invalidUnicodeEscape (offset + 6)
    else
      refuse .invalidUnicodeEscape offset
  else if Text.isLowSurrogate unit then
    refuse .invalidUnicodeEscape offset
  else
    return (Char.ofNat unit, ⟨offset + 6, by omega⟩)

/-- Decode the escape whose backslash is at an offset.  An unknown escape is
reported with the first character of the rest of the text. -/
def escapeAt (text : Text) (opening offset : Nat) : Except Failure (Char × Ahead offset) :=
  match text.bytes[offset + 1]? with
  | none => refuse .unterminatedString opening
  | some b =>
      if b = Char.toUInt8 'u' then
        unicodeAt text offset
      else
        match shortEscape (Char.ofUInt8 b) with
        | some decoded => .ok (decoded, ⟨offset + 2, by omega⟩)
        | none => do
            let rest ← cut text (offset + 1) text.size
            refuse (.unknownEscape (rest.head?.getD '\uFFFD')) offset

/-- Decode a token from the start of a run of plain characters on. -/
def bodyAt (text : Text) (opening start : Nat) : Except Failure (Text × Nat) :=
  let run := (text.bytes.drop start).takeWhile fun b => !endsRun (Char.ofUInt8 b)
  if hend : start + run.length < text.bytes.length then do
    let plain ← cut text start (start + run.length)
    if text.bytes[start + run.length] = Char.toUInt8 '"' then
      return (plain, start + run.length + 1)
    else
      let (c, next) ← escapeAt text opening (start + run.length)
      let (rest, stop) ← bodyAt text opening next.1
      return (plain ++ c :: rest, stop)
  else
    refuse .unterminatedString opening
termination_by text.bytes.length - start
decreasing_by
  exact Nat.sub_lt_sub_left (Nat.lt_of_le_of_lt (Nat.le_add_right _ _) hend)
    (Nat.lt_of_le_of_lt (Nat.le_add_right _ _) next.2)

/-- Decode the token at an offset. -/
def tokenAt (text : Text) (start : Nat) : Except Failure (Text × Nat) :=
  if text.bytes[start]? = some (Char.toUInt8 '"') then
    bodyAt text start (start + 1)
  else
    refuse .expectedString start

/-- The indentation of the line that an offset lies on, as far as the offset. -/
def indentationAt (text : Text) (offset : Nat) : Except Failure Text := do
  let head ← cut text 0 offset
  let lineStart := (head.bytes.rdropWhile (· ≠ Char.toUInt8 '\n')).length
  let line ← cut text lineStart offset
  let content := line.dropWhile isIndent
  cut line 0 (line.size - Text.size content)

variable {text : Text} {cursor next : Cursor} {opening offset : Nat}

theorem drop_bytes_of_isIn (hin : cursor.IsIn text) :
    text.bytes.drop cursor.offset = cursor.rest.bytes := by
  obtain ⟨before, rfl, hoffset⟩ := hin
  rw [← hoffset, Text.drop_size_bytes]

theorem getElem?_bytes_of_isIn (hin : cursor.IsIn text) :
    text.bytes[cursor.offset]? = cursor.rest.bytes.head? := by
  rw [← drop_bytes_of_isIn hin, List.head?_drop]

/-- Passing over a text stays in the text around it. -/
theorem isIn_of_passes (part : Text) (hin : cursor.IsIn text) (hpasses : cursor.Passes part next) :
    next.IsIn text := by
  obtain ⟨before, rfl, hoffset⟩ := hin
  refine ⟨before ++ part, ?_, ?_⟩
  · rw [hpasses.rest_eq, List.append_assoc]
  · rw [Text.size_append, hoffset, hpasses.offset_eq]

/-- What is passed over is a range. -/
theorem cut_eq_ok {part : Text} (next : Cursor) (hin : cursor.IsIn text)
    (hpasses : cursor.Passes part next) : cut text cursor.offset next.offset = .ok part := by
  obtain ⟨before, rfl, hoffset⟩ := hin
  have hslice : Text.slice? (before ++ cursor.rest) cursor.offset next.offset = some part := by
    apply Text.slice?_eq_some_iff.mpr
    refine ⟨before, next.rest, ?_, hoffset, ?_⟩
    · rw [hpasses.rest_eq, List.append_assoc]
    · rw [hoffset, hpasses.offset_eq]
  rw [cut, hslice]

/-! ## The same results -/

/-- The result of a reader: what it reads and the offset behind it. -/
def outcome {α : Type} {rest : Text} (reading : Reading α rest) : Except Failure (α × Nat) :=
  (reading.map fun read => (read.1, read.2.1.offset)).mapError fun fault =>
    .refused (.malformed fault)

/-- The result of the decoder: what it decodes and the offset behind it. -/
def bare {α : Type} (result : Except Failure (α × Ahead offset)) : Except Failure (α × Nat) :=
  result.map fun read => (read.1, read.2.1)

theorem eq_error_of_bare {α : Type} {result : Except Failure (α × Ahead offset)}
    {failure : Failure} (hbare : bare result = .error failure) : result = .error failure := by
  cases result with
  | error other =>
      cases hbare
      rfl
  | ok read => cases hbare

theorem exists_eq_ok_of_bare {α : Type} {result : Except Failure (α × Ahead offset)} {a : α}
    {next : Nat} (hbare : bare result = .ok (a, next)) :
    ∃ hnext, result = .ok (a, ⟨next, hnext⟩) := by
  cases result with
  | error failure => cases hbare
  | ok read =>
      obtain ⟨value, behind, hbehind⟩ := read
      cases hbare
      exact ⟨hbehind, rfl⟩

theorem utf8Size_of_endsRun {c : Char} (hc : endsRun c) : c.utf8Size = 1 := by
  obtain rfl | rfl : c = '"' ∨ c = '\\' := by simpa [endsRun] using hc
  · rfl
  · rfl

theorem utf8Size_of_isDigit {c : Char} (hc : isDigit c) : c.utf8Size = 1 := by
  obtain ⟨n, hn⟩ := Option.isSome_iff_exists.mp hc
  exact Text.utf8Size_of_hexDigit hn

theorem isDigit_iff_isByteOf {b : UInt8} :
    isDigit (Char.ofUInt8 b) ↔ Text.IsByteOf (fun c => isDigit c) b :=
  (Text.isByteOf_iff_ofUInt8 fun _ => utf8Size_of_isDigit).symm

theorem isSome_unitValue?_iff {digits : Text} :
    (StringPiece.unitValue? digits).isSome ↔ digits.length = 4 ∧ ∀ c ∈ digits, isDigit c := by
  match digits with
  | [a, b, c, d] =>
      cases ha : Text.hexDigit a <;> cases hb : Text.hexDigit b <;> cases hc : Text.hexDigit c <;>
        cases hd : Text.hexDigit d <;>
        simp [StringPiece.unitValue?, List.foldlM, isDigit, ha, hb, hc, hd]
  | [] | [_] | [_, _] | [_, _, _] | _ :: _ :: _ :: _ :: _ :: _ => simp [StringPiece.unitValue?]

/-- Four digit bytes come next exactly if the digits of a code unit do. -/
theorem digits_take_bytes_iff :
    ((text.bytes.take 4).length = 4 ∧ (text.bytes.take 4).all fun b => isDigit (Char.ofUInt8 b)) ↔
      ∃ digits rest unit, text = digits ++ rest ∧ StringPiece.unitValue? digits = some unit := by
  have hascii : ∀ c, isDigit c → c.utf8Size = 1 := fun c => utf8Size_of_isDigit
  simp only [List.all_eq_true, isDigit_iff_isByteOf]
  constructor
  · rintro ⟨hlength, hdigits⟩
    obtain ⟨digits, rest, htext, hfront, -, hall⟩ :=
      Text.exists_eq_append_of_bytes hascii (List.take_append_drop 4 text.bytes).symm hdigits
    have hfour : digits.length = 4 := by
      rw [hfront, Text.length_bytes] at hlength
      rw [← hlength, Text.size_eq_length fun c hc => utf8Size_of_isDigit (hall c hc)]
    obtain ⟨unit, hunit⟩ := Option.isSome_iff_exists.mp (isSome_unitValue?_iff.mpr ⟨hfour, hall⟩)
    exact ⟨digits, rest, unit, htext, hunit⟩
  · rintro ⟨digits, rest, unit, rfl, hunit⟩
    obtain ⟨-, hall⟩ := isSome_unitValue?_iff.mp (Option.isSome_of_eq_some hunit)
    have htake : (Text.bytes (digits ++ rest)).take 4 = digits.bytes := by
      rw [Text.bytes_append, ← StringPiece.size_of_unitValue? hunit, ← Text.length_bytes,
        List.take_left]
    rw [htake, Text.length_bytes]
    exact ⟨StringPiece.size_of_unitValue? hunit,
      (Text.agrees_isByteOf hascii).forall_bytes_iff.mpr hall⟩

theorem unitAt_eq (hin : cursor.IsIn text) :
    unitAt text cursor.offset = .ok ((Text.codeUnit cursor.rest).map (·.1)) := by
  rw [unitAt, drop_bytes_of_isIn hin]
  cases hunit : Text.codeUnit cursor.rest with
  | some read =>
      obtain ⟨unit, rest, hrest⟩ := read
      obtain ⟨digits, htext, hvalue⟩ := StringPiece.codeUnit_eq_some_iff.mp ⟨hrest, hunit⟩
      have hcut : cut text cursor.offset (cursor.offset + 4) = .ok digits := by
        have hpasses : cursor.Passes digits ⟨cursor.offset + 4, rest⟩ :=
          ⟨htext, by rw [StringPiece.size_of_unitValue? hvalue]⟩
        exact cut_eq_ok _ hin hpasses
      rw [if_pos (digits_take_bytes_iff.mpr ⟨digits, rest, unit, htext, hvalue⟩), hcut]
      exact congrArg Except.ok hvalue
  | none =>
      rw [if_neg]
      · rfl
      · intro hdigits
        obtain ⟨digits, rest, unit, htext, hvalue⟩ := digits_take_bytes_iff.mp hdigits
        obtain ⟨hrest, hread⟩ := StringPiece.codeUnit_eq_some_iff.mpr ⟨digits, htext, hvalue⟩
        cases hunit.symm.trans hread

/-- The two bytes of a second escape come next exactly if its two characters do. -/
theorem take_bytes_eq_iff (front : Text) :
    text.bytes.take front.size = front.bytes ↔ ∃ rest, text = front ++ rest := by
  constructor
  · intro htake
    have hbytes : text.bytes = front.bytes ++ text.bytes.drop front.size := by
      rw [← htake, List.take_append_drop]
    obtain ⟨rest, htext, -⟩ := Text.bytes_eq_bytes_append_iff.mp hbytes
    exact ⟨rest, htext⟩
  · rintro ⟨rest, rfl⟩
    rw [Text.bytes_append, ← Text.length_bytes, List.take_left]

/-- An escape by code unit is decoded as it is read. -/
theorem unicodeAt_eq {digits : Text} (hin : (Cursor.mk offset ('\\' :: 'u' :: digits)).IsIn text) :
    bare (unicodeAt text offset) = outcome (readUnicode offset digits) := by
  have hdigits : (Cursor.mk (offset + 2) digits).IsIn text :=
    isIn_of_passes ['\\', 'u'] hin ⟨rfl, rfl⟩
  rw [unicodeAt, unitAt_eq hdigits, readUnicode]
  cases hunit : Text.codeUnit digits with
  | none => rfl
  | some read =>
      obtain ⟨unit, rest, hrest⟩ := read
      obtain ⟨front, rfl, hvalue⟩ := StringPiece.codeUnit_eq_some_iff.mp ⟨hrest, hunit⟩
      have hbehind : (Cursor.mk (offset + 6) rest).IsIn text :=
        isIn_of_passes front hdigits
          ⟨rfl, by simp [StringPiece.size_of_unitValue? hvalue]⟩
      simp only [Option.map_some, bind, Except.bind]
      cases hhigh : Text.isHighSurrogate unit with
      | false =>
          simp only [Bool.false_eq_true, if_false]
          cases hlow : Text.isLowSurrogate unit with
          | false => rfl
          | true => rfl
      | true =>
          simp only [if_true]
          have hmark : (text.bytes.drop (offset + 6)).take 2 = Text.bytes ['\\', 'u'] ↔
              ∃ more, rest = ['\\', 'u'] ++ more := by
            rw [← take_bytes_eq_iff, ← drop_bytes_of_isIn hbehind]
            rfl
          by_cases hmore : ∃ more, rest = ['\\', 'u'] ++ more
          · rw [if_pos (hmark.mpr hmore)]
            obtain ⟨more, rfl⟩ := hmore
            have hlow : (Cursor.mk (offset + 8) more).IsIn text :=
              isIn_of_passes ['\\', 'u'] hbehind ⟨rfl, rfl⟩
            rw [unitAt_eq hlow]
            simp only [List.cons_append, List.nil_append]
            cases Text.codeUnit more with
            | none => rfl
            | some read =>
                obtain ⟨low, last, hlast⟩ := read
                simp only [Option.map_some]
                cases hisLow : Text.isLowSurrogate low with
                | false => rfl
                | true => rfl
          · rw [if_neg (mt hmark.mp hmore)]
            split
            · rename_i more hmore'
              exact absurd ⟨more, rfl⟩ hmore
            · rfl

theorem utf8Size_of_shortEscape {c decoded : Char} (hescape : shortEscape c = some decoded) :
    c.utf8Size = 1 := by
  rw [shortEscape_eq_lookup] at hescape
  exact (StringPiece.utf8Size_of_lookup_letters hescape).1

/-- An escape is decoded as it is read. -/
theorem escapeAt_eq {rest : Text} (hin : (Cursor.mk offset ('\\' :: rest)).IsIn text) :
    bare (escapeAt text opening offset) = outcome (readEscape opening offset rest) := by
  have hbehind : (Cursor.mk (offset + 1) rest).IsIn text :=
    isIn_of_passes ['\\'] hin ⟨rfl, rfl⟩
  have hbyte : text.bytes[offset + 1]? = rest.bytes.head? := getElem?_bytes_of_isIn hbehind
  rw [escapeAt, hbyte]
  cases rest with
  | nil => rfl
  | cons c rest =>
      obtain ⟨b, more, hbytes, hb⟩ := Text.exists_bytes_cons_eq_cons c rest
      rw [hbytes, List.head?_cons, readEscape]
      by_cases hunit : c = 'u'
      · have hmark : b = Char.toUInt8 'u' := (Text.eq_toUInt8_iff_of_mem rfl hb).mpr hunit
        subst hunit
        simp only [if_pos hmark, if_true, unicodeAt_eq hin]
        cases readUnicode offset rest with
        | error fault => rfl
        | ok read => rfl
      · have hmark : b ≠ Char.toUInt8 'u' := mt (Text.eq_toUInt8_iff_of_mem rfl hb).mp hunit
        have hlookup : shortEscape (Char.ofUInt8 b) = shortEscape c :=
          Text.lookup_ofUInt8_of_mem (fun _ _ => utf8Size_of_shortEscape) hb
        simp only [if_neg hmark, if_neg hunit, hlookup]
        cases shortEscape c with
        | some decoded => rfl
        | none =>
            have hcut : cut text (offset + 1) text.size = .ok (c :: rest) := by
              have hpasses : (Cursor.mk (offset + 1) (c :: rest)).Passes (c :: rest)
                  ⟨text.size, []⟩ := by
                refine ⟨(List.append_nil _).symm, ?_⟩
                obtain ⟨before, htext, hoffset⟩ := hbehind
                rw [htext, Text.size_append, hoffset]
              exact cut_eq_ok _ hbehind hpasses
            rw [hcut]
            rfl

theorem outcome_readBody_append {run : Text} (hrun : ∀ c ∈ run, ¬ endsRun c) (opening offset : Nat)
    (rest : Text) :
    outcome (readBody opening offset (run ++ rest)) =
      (outcome (readBody opening (offset + run.size) rest)).map fun read =>
        (run ++ read.1, read.2) := by
  induction run generalizing offset with
  | nil =>
      rw [List.nil_append, Text.size_nil, Nat.add_zero]
      cases outcome (readBody opening offset rest) with
      | error failure => rfl
      | ok read => rfl
  | cons c run ih =>
      obtain ⟨hc, hrun⟩ := List.forall_mem_cons.mp hrun
      obtain ⟨hmark, hbackslash⟩ : c ≠ '"' ∧ c ≠ '\\' := by simpa [endsRun] using hc
      rw [Text.size_cons, ← Nat.add_assoc, List.cons_append, readBody, if_neg hmark,
        if_neg hbackslash]
      apply Eq.trans (b := (outcome (readBody opening (offset + c.utf8Size) (run ++ rest))).map
        fun read => (c :: read.1, read.2))
      · cases readBody opening (offset + c.utf8Size) (run ++ rest) with
        | error fault => rfl
        | ok read => rfl
      · rw [ih hrun (offset + c.utf8Size)]
        cases outcome (readBody opening (offset + c.utf8Size + Text.size run) rest) with
        | error failure => rfl
        | ok read => rfl

/-- Every text starts with a run of plain characters, which is found by its bytes. -/
theorem exists_run (whole : Text) :
    ∃ run rest, whole = run ++ rest ∧ (∀ c ∈ run, ¬ endsRun c) ∧ (∀ c ∈ rest.head?, endsRun c) ∧
      whole.bytes.takeWhile (fun b => !endsRun (Char.ofUInt8 b)) = run.bytes := by
  refine ⟨whole.takeWhile fun c => !endsRun c, whole.dropWhile fun c => !endsRun c,
    List.takeWhile_append_dropWhile.symm, ?_, ?_,
    Text.takeWhile_bytes (fun c => utf8Size_of_endsRun) whole⟩
  · intro c hc
    simpa using List.all_eq_true.mp List.all_takeWhile c hc
  · intro c hc
    have hhead := List.head?_dropWhile_not (fun c => !endsRun c) whole
    rw [Option.mem_def.mp hc] at hhead
    simpa using hhead

/-- Behind a run of plain characters the decoder goes on with what ends the run. -/
theorem bodyAt_append {run rest : Text} (opening : Nat) {start mark : Nat}
    (hin : (Cursor.mk start (run ++ rest)).IsIn text)
    (hrun : (Text.bytes (run ++ rest)).takeWhile (fun b => !endsRun (Char.ofUInt8 b)) =
      run.bytes) (hmark : start + run.size = mark) :
    bodyAt text opening start =
      match text.bytes[mark]? with
      | none => refuse .unterminatedString opening
      | some b =>
          if b = Char.toUInt8 '"' then
            .ok (run, mark + 1)
          else do
            let escaped ← escapeAt text opening mark
            let read ← bodyAt text opening escaped.2.1
            return (run ++ escaped.1 :: read.1, read.2) := by
  have hcut : cut text start mark = .ok run := cut_eq_ok ⟨mark, rest⟩ hin ⟨rfl, hmark.symm⟩
  have hbytes : (text.bytes.drop start).takeWhile (fun b => !endsRun (Char.ofUInt8 b)) =
      run.bytes := by
    rw [← hrun]
    exact congrArg _ (drop_bytes_of_isIn hin)
  rw [← Text.length_bytes] at hmark
  subst hmark
  rw [bodyAt, hbytes]
  cases hbyte : text.bytes[start + run.bytes.length]? with
  | none => rw [dif_neg (Nat.not_lt.mpr (List.getElem?_eq_none_iff.mp hbyte))]
  | some b =>
      obtain ⟨hlt, hget⟩ := List.getElem?_eq_some_iff.mp hbyte
      rw [dif_pos hlt, hget, hcut]
      rfl

/-- A token is decoded from a run on as it is read. -/
theorem bodyAt_eq (opening : Nat) {cursor : Cursor} (hin : cursor.IsIn text) :
    bodyAt text opening cursor.offset = outcome (readBody opening cursor.offset cursor.rest) := by
  induction hlength : cursor.rest.length using Nat.strongRecOn generalizing cursor with
  | ind length ih =>
    obtain ⟨offset, whole⟩ := cursor
    obtain ⟨run, rest, rfl, hrun, hstop, hbytes⟩ := exists_run whole
    have hbehind : (Cursor.mk (offset + run.size) rest).IsIn text :=
      isIn_of_passes run hin ⟨rfl, rfl⟩
    have hbyte : text.bytes[offset + run.size]? = rest.bytes.head? :=
      getElem?_bytes_of_isIn hbehind
    rw [bodyAt_append opening hin hbytes rfl, outcome_readBody_append hrun, hbyte]
    dsimp only
    generalize offset + run.size = mark at hbehind ⊢
    cases rest with
    | nil =>
        rw [readBody]
        rfl
    | cons c rest =>
        obtain ⟨b, more, hfirst, hb⟩ := Text.exists_bytes_cons_eq_cons c rest
        rw [hfirst, List.head?_cons, readBody]
        by_cases hclose : c = '"'
        · have hquote : b = Char.toUInt8 '"' := (Text.eq_toUInt8_iff_of_mem rfl hb).mpr hclose
          simp only [if_pos hclose, if_pos hquote]
          exact congrArg (fun plain => Except.ok (plain, mark + 1)) (List.append_nil run).symm
        · have hquote : b ≠ Char.toUInt8 '"' := mt (Text.eq_toUInt8_iff_of_mem rfl hb).mp hclose
          obtain rfl : c = '\\' := by simpa [endsRun, hclose] using hstop c rfl
          have hescape : bare (escapeAt text opening mark) =
            outcome (readEscape opening mark rest) := escapeAt_eq hbehind
          simp only [if_neg hquote, if_neg hclose, if_true]
          cases hread : readEscape opening mark rest with
          | error fault =>
              rw [hread] at hescape
              rw [eq_error_of_bare hescape]
              rfl
          | ok read =>
              obtain ⟨d, next, hnext⟩ := read
              obtain ⟨piece, hpiece, -, hoffset⟩ := reads_readEscape_iff.mp ⟨hnext, hread⟩
              have hnextIn : next.IsIn text := isIn_of_passes _ hbehind ⟨hpiece, hoffset⟩
              have hless : next.rest.length < length := by
                simp only [List.length_append, List.length_cons] at hlength
                omega
              rw [hread] at hescape
              obtain ⟨hahead, hdecoded⟩ := exists_eq_ok_of_bare hescape
              rw [hdecoded]
              have hbody := ih next.rest.length hless hnextIn rfl
              simp only [bind, Except.bind, hbody]
              cases readBody opening next.offset next.rest with
              | error fault => rfl
              | ok read => rfl

theorem tokenAt_eq_of_isIn (cursor : Cursor) (hin : cursor.IsIn text) :
    tokenAt text cursor.offset = outcome (read cursor) := by
  obtain ⟨offset, rest⟩ := cursor
  have hbyte := getElem?_bytes_of_isIn hin
  dsimp only at hbyte
  rw [tokenAt, hbyte]
  by_cases hmark : ∃ body, rest = '"' :: body
  · obtain ⟨body, rfl⟩ := hmark
    have hbody : (Cursor.mk (offset + 1) body).IsIn text :=
      isIn_of_passes ['"'] hin ⟨rfl, rfl⟩
    have hhead : (Text.bytes ('"' :: body)).head? = some (Char.toUInt8 '"') := rfl
    rw [if_pos hhead, StringToken.read]
    refine (bodyAt_eq offset hbody).trans ?_
    cases readBody offset (offset + 1) body with
    | error fault => rfl
    | ok read => rfl
  · rw [StringToken.read.eq_2 offset rest fun body heq => hmark ⟨body, heq⟩, if_neg]
    · rfl
    · intro hhead
      cases rest with
      | nil => cases hhead
      | cons c rest =>
          obtain ⟨b, more, hbytes, hb⟩ := Text.exists_bytes_cons_eq_cons c rest
          rw [hbytes, List.head?_cons, Option.some.injEq,
            Text.eq_toUInt8_iff_of_mem rfl hb] at hhead
          exact hmark ⟨rest, by rw [hhead]⟩

/-- From every offset of a text the decoder gives what the reader gives. -/
theorem tokenAt_eq (text : Text) (start : Nat) :
    tokenAt text start = (Scan.stringAt text start).mapError fun fault =>
      .refused (.malformed fault) := by
  rw [Scan.stringAt]
  by_cases hend : start ≤ text.size
  · by_cases hfragment : (text.tailAt start).fragment = 0
    · rw [if_pos hfragment]
      have htoken := tokenAt_eq_of_isIn ⟨start, (text.tailAt start).rest⟩
        (Text.exists_eq_append_tailAt hend hfragment)
      dsimp only at htoken
      rw [htoken]
      cases read ⟨start, (text.tailAt start).rest⟩ with
      | error fault => rfl
      | ok read => rfl
    · -- The first byte left of a character is no mark.
      obtain ⟨before, fragment, hbytes, hbefore, hlength, habove⟩ :=
        Text.exists_bytes_eq_append_tailAt hend
      obtain ⟨b, fragment, rfl⟩ : ∃ b more, fragment = b :: more := by
        apply List.exists_cons_of_ne_nil
        rintro rfl
        exact hfragment hlength.symm
      have hbyte : text.bytes[start]? = some b := by
        rw [hbytes, ← hbefore]
        simp
      have hne : b ≠ Char.toUInt8 '"' := by
        rintro rfl
        exact absurd (habove _ List.mem_cons_self) (by decide)
      rw [if_neg hfragment, tokenAt, hbyte, if_neg (by simpa using hne)]
      rfl
  · have hlt := Nat.lt_of_not_le hend
    have hbyte : text.bytes[start]? = none := by
      rw [List.getElem?_eq_none_iff, Text.length_bytes]
      exact Nat.le_of_lt hlt
    rw [Text.tailAt_of_size_lt hlt, tokenAt, hbyte, if_neg (by simp)]
    rfl

/-- The last line is found by its bytes. -/
theorem rdropWhile_bytes (text : Text) :
    text.bytes.rdropWhile (· ≠ Char.toUInt8 '\n') = Text.bytes (text.rdropWhile (· ≠ '\n')) := by
  induction text using List.reverseRecOn with
  | nil => rfl
  | append_singleton text c ih =>
      rw [Text.bytes_append]
      by_cases hbreak : c = '\n'
      · subst hbreak
        have hbyte : Text.bytes ['\n'] = [Char.toUInt8 '\n'] := rfl
        rw [hbyte, List.rdropWhile_concat_neg _ _ _ (by simp),
          List.rdropWhile_concat_neg _ _ _ (by simp), Text.bytes_append, hbyte]
      · rw [List.rdropWhile_concat_pos _ _ _ (by simpa using hbreak), ← ih, List.rdropWhile,
          List.reverse_append, List.dropWhile_append_of_pos]
        · rfl
        · intro b hb
          have hmem : b ∈ String.utf8EncodeChar c := by simpa using hb
          simpa using mt (Text.eq_toUInt8_iff_of_mem rfl hmem).mp hbreak

theorem rdropWhile_append_lastLine (text : Text) :
    text.rdropWhile (· ≠ '\n') ++ text.lastLine = text :=
  List.rdropWhile_append_rtakeWhile

theorem cut_takeWhile (p : Char → Bool) (line : Text) :
    cut line 0 (line.size - Text.size (line.dropWhile p)) = .ok (line.takeWhile p) := by
  have hwhole : line.takeWhile p ++ line.dropWhile p = line := List.takeWhile_append_dropWhile
  have hsize : line.size - Text.size (line.dropWhile p) = Text.size (line.takeWhile p) := by
    have hsum := congrArg Text.size hwhole
    rw [Text.size_append] at hsum
    omega
  rw [hsize]
  exact cut_eq_ok ⟨Text.size (line.takeWhile p), line.dropWhile p⟩
    (Cursor.start_isIn line) ⟨hwhole.symm, (Nat.zero_add _).symm⟩

/-- The indentation in front of an offset is taken out by ranges, if the offset is
a boundary. -/
theorem indentationAt_eq (text : Text) (offset : Nat) :
    indentationAt text offset =
      match text.indentationAt? offset with
      | some indentation => .ok indentation
      | none => .error (.brokenRange 0 offset) := by
  cases hsplit : text.splitAt? offset with
  | none =>
      rw [Text.indentationAt?, hsplit, indentationAt]
      have hcut : cut text 0 offset = .error (.brokenRange 0 offset) := by
        rw [cut, Text.slice?, Text.parts?, if_pos (Nat.zero_le _), hsplit]
        rfl
      rw [hcut]
      rfl
  | some parts =>
      obtain ⟨before, behind⟩ := parts
      rw [Text.indentationAt?, hsplit]
      obtain ⟨rfl, rfl⟩ := Text.splitAt?_eq_some_iff.mp hsplit
      have hhead : cut (before ++ behind) 0 before.size = .ok before :=
        cut_eq_ok ⟨before.size, behind⟩ (Cursor.start_isIn (before ++ behind))
          ⟨rfl, (Nat.zero_add _).symm⟩
      have hbefore := rdropWhile_append_lastLine before
      have hbytes := rdropWhile_bytes before
      simp only [indentationAt, hhead, Option.map_some, bind, Except.bind, hbytes,
        Text.length_bytes]
      generalize before.rdropWhile (· ≠ '\n') = front at hbefore ⊢
      generalize before.lastLine = line at hbefore ⊢
      subst hbefore
      have hline : cut (front ++ line ++ behind) (Text.size front)
          (Text.size (front ++ line)) = .ok line := by
        have hfront : (Cursor.mk (Text.size front) (line ++ behind)).IsIn
            (front ++ line ++ behind) := ⟨front, List.append_assoc _ _ _, rfl⟩
        exact cut_eq_ok ⟨_, behind⟩ hfront ⟨rfl, Text.size_append front line⟩
      rw [hline]
      exact cut_takeWhile isIndent line

end ArrayPatch.Ranges
