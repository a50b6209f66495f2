import ArrayPatch.Proofs.Scan.Ranges
import ArrayPatch.Proofs.Site.Faults
import ArrayPatch.Proofs.Text.Crlf

/-!
# What stands at the offset of a fault

A text that ends too early is reported at the mark that is left open, a broken
escape at its backslash, and everything else at the character that does not fit.
So the offset of a fault is always a boundary of the text, and the bytes from there
on show what is wrong.

For every reader of the scanner there is one lemma.  It is told that the token, the
array or the object that the reader is inside of would be reported where it opens.
-/

namespace ArrayPatch

open Grammar

namespace Text

/-- Bytes start with those of a text. -/
def Starts (part : Text) (bytes : List UInt8) : Prop :=
  part.bytes <+: bytes

/-- The bytes of a text start with those of its first characters only. -/
@[simp]
theorem starts_bytes_iff {part text : Text} : part.Starts text.bytes ↔ part <+: text := by
  constructor
  · rintro ⟨after, hbytes⟩
    obtain ⟨rest, rfl, -⟩ := bytes_eq_bytes_append_iff.mp hbytes.symm
    exact ⟨rest, rfl⟩
  · rintro ⟨rest, rfl⟩
    exact ⟨bytes rest, (bytes_append part rest).symm⟩

end Text

namespace Flaw

/-- The letters of all escapes. -/
def escapeLetters : List Char :=
  ['"', '\\', '/', 'b', 'f', 'n', 'r', 't', 'u']

/-- There are bytes, and they start neither with a blank nor with one of some
characters. -/
def NoneOf (characters : List Char) (bytes : List UInt8) : Prop :=
  bytes ≠ [] ∧ ∀ c, isBlank c ∨ c ∈ characters → ¬ Text.Starts [c] bytes

/-- The bytes from the offset of a flaw on show the flaw.  That a string is expected is
never reported for a document. -/
def IsShownBy : Flaw → List UInt8 → Prop
  | unterminatedString, bytes => Text.Starts ['"'] bytes
  | unterminatedArray, bytes => Text.Starts ['['] bytes
  | unterminatedObject, bytes => Text.Starts ['\x7b'] bytes
  | nestingTooDeep, bytes => Text.Starts ['\x7b'] bytes ∨ Text.Starts ['['] bytes
  | invalidUnicodeEscape, bytes => Text.Starts ['\\', 'u'] bytes
  | unknownEscape c, bytes => Text.Starts ['\\', c] bytes ∧ c ∉ escapeLetters
  | expectedValue, bytes => bytes = [] ∨ ∃ c ∈ [',', ']', '\x7d'], Text.Starts [c] bytes
  | expectedKey, bytes => NoneOf ['"'] bytes
  | expectedColon, bytes => NoneOf [':'] bytes
  | expectedCommaOrBracket, bytes => NoneOf [',', ']'] bytes
  | expectedCommaOrBrace, bytes => NoneOf [',', '\x7d'] bytes
  | trailingContent, bytes => NoneOf [] bytes
  | expectedString, _ => False

/-- Bytes of a character that is neither a blank nor one of some characters. -/
theorem noneOf_bytes_cons {characters : List Char} {c : Char} (hblank : ¬ isBlank c)
    (hc : c ∉ characters) (rest : Text) : NoneOf characters (Text.bytes (c :: rest)) := by
  obtain ⟨b, bytes, hbytes, -⟩ := Text.exists_bytes_cons_eq_cons c rest
  refine ⟨by rw [hbytes]; exact List.cons_ne_nil b bytes, ?_⟩
  rintro d hd hstarts
  obtain ⟨after, hafter⟩ := Text.starts_bytes_iff.mp hstarts
  obtain ⟨rfl, -⟩ := List.cons.inj hafter
  exact hd.elim hblank hc

end Flaw

/-- At the offset of a fault is a boundary of a text, and the bytes from there on show
its flaw. -/
def Fault.IsShownIn (fault : Fault) (text : Text) : Prop :=
  ∃ place : Cursor, place.IsIn text ∧ place.offset = fault.offset ∧
    fault.flaw.IsShownBy place.rest.bytes

namespace Cursor.IsIn

variable {cursor : Cursor} {text : Text} {flaw : Flaw} {offset : Nat} {c : Char} {rest : Text}

theorem isShownIn (hin : cursor.IsIn text) (hshown : flaw.IsShownBy cursor.rest.bytes) :
    Fault.IsShownIn ⟨flaw, cursor.offset⟩ text :=
  ⟨cursor, hin, rfl, hshown⟩

theorem behind_char (hin : (Cursor.mk offset (c :: rest)).IsIn text) (hwidth : c.utf8Size = 1) :
    (Cursor.mk (offset + 1) rest).IsIn text :=
  Ranges.isIn_of_passes [c] hin ⟨rfl, by rw [Text.size_cons, hwidth]; rfl⟩

theorem at_char (hin : cursor.IsIn text) (hskip : cursor.skipBlanks = ⟨offset, c :: rest⟩) :
    (Cursor.mk offset (c :: rest)).IsIn text :=
  hskip ▸ hin.skip isBlank

end Cursor.IsIn

theorem Cursor.not_isBlank_of_skipBlanks_eq {cursor : Cursor} {offset : Nat} {c : Char}
    {rest : Text} (hskip : cursor.skipBlanks = ⟨offset, c :: rest⟩) : ¬ isBlank c := by
  obtain ⟨_, _, _, hstop⟩ := Cursor.skipBlanks_eq_iff.mp hskip
  exact hstop c rfl

namespace StringToken

variable {text body : Text} {opening offset : Nat} {fault : Fault} {cursor : Cursor}

theorem not_mem_escapeLetters {c : Char} (hletter : c ≠ 'u') (hnone : shortEscape c = none) :
    c ∉ Flaw.escapeLetters := by
  intro hmem
  simp only [Flaw.escapeLetters, List.mem_cons, List.not_mem_nil, or_false] at hmem
  rcases hmem with rfl | rfl | rfl | rfl | rfl | rfl | rfl | rfl | rfl <;>
    first | exact hletter rfl | cases hnone

theorem isShownIn_of_readUnicode (hin : (Cursor.mk offset ('\\' :: 'u' :: body)).IsIn text)
    (hread : readUnicode offset body = .error fault) : fault.IsShownIn text := by
  rcases cases_of_readUnicode_eq_error hread with
    rfl | ⟨digits, code, rest, rfl, hdigits, -, rfl⟩
  · exact hin.isShownIn (Text.starts_bytes_iff.mpr ⟨body, rfl⟩)
  · -- The second half of a surrogate pair comes behind a first half of six bytes.
    have hhalf : (Cursor.mk (offset + 6) ('\\' :: 'u' :: rest)).IsIn text := by
      apply Ranges.isIn_of_passes (StringPiece.unit digits).text hin
      exact ⟨rfl, by rw [StringPiece.size_text_unit hdigits]⟩
    exact hhalf.isShownIn (Text.starts_bytes_iff.mpr ⟨rest, rfl⟩)

variable (hopening : Fault.IsShownIn ⟨.unterminatedString, opening⟩ text)

include hopening

theorem isShownIn_of_readEscape (hin : (Cursor.mk offset ('\\' :: body)).IsIn text)
    (hread : readEscape opening offset body = .error fault) : fault.IsShownIn text := by
  rcases cases_of_readEscape_eq_error hread with
    ⟨-, rfl⟩ | ⟨c, rest, rfl, hletter, hnone, rfl⟩ | ⟨rest, rfl, hunicode⟩
  · exact hopening
  · exact hin.isShownIn
      ⟨Text.starts_bytes_iff.mpr ⟨rest, rfl⟩, not_mem_escapeLetters hletter hnone⟩
  · exact isShownIn_of_readUnicode hin hunicode

theorem isShownIn_of_readBody (hin : (Cursor.mk offset body).IsIn text)
    (hread : readBody opening offset body = .error fault) : fault.IsShownIn text := by
  induction hlength : body.length using Nat.strongRecOn generalizing body offset with
  | ind length ih =>
    rcases cases_of_readBody_eq_error hread with
      ⟨-, rfl⟩ | ⟨rest, rfl, hescape⟩ | ⟨piece, c, rest, rfl, -, hrest⟩
    · exact hopening
    · exact isShownIn_of_readEscape hopening hin hescape
    · have hshorter : rest.length < length := hlength ▸ piece.length_lt_append rest
      exact ih _ hshorter (Ranges.isIn_of_passes piece.text hin ⟨rfl, rfl⟩) hrest rfl

omit hopening

theorem isShownIn_of_read (hin : cursor.IsIn text) (hquote : cursor.rest.head? = some '"')
    (hread : read cursor = .error fault) : fault.IsShownIn text := by
  rcases cases_of_read_eq_error hread with ⟨hother, -⟩ | ⟨rest, hrest, hbody⟩
  · exact absurd hquote hother
  · have hopening : Fault.IsShownIn ⟨.unterminatedString, cursor.offset⟩ text :=
      hin.isShownIn (Text.starts_bytes_iff.mpr ⟨rest, hrest.symm⟩)
    exact isShownIn_of_readBody hopening
      (Ranges.isIn_of_passes ['"'] hin ⟨hrest, rfl⟩) hbody

end StringToken

namespace Scan

variable {settings : Settings} {text : Text} {depth opening : Nat} {cursor next : Cursor}
variable {fault : Fault} {found : List Site}

theorem isIn_of_ends_value (hin : cursor.IsIn text)
    (hends : (value settings depth cursor).Ends found next) : next.IsIn text := by
  obtain ⟨blanks, tree, -, hpasses, -⟩ := passesValue_of_ends hends
  exact Ranges.isIn_of_passes _ hin hpasses

section Nested

variable (hvalue : ∀ {cursor : Cursor} {fault : Fault} {found : List Site}, cursor.IsIn text →
  (value settings depth cursor).Fails found fault → fault.IsShownIn text)
variable (hopening : Fault.IsShownIn ⟨.unterminatedArray, opening⟩ text)

include hvalue hopening

theorem isShownIn_of_moreElements (hin : cursor.IsIn text)
    (hfails : (moreElements (value settings depth) opening cursor).Fails found fault) :
    fault.IsShownIn text := by
  induction hlength : cursor.rest.length using Nat.strongRecOn generalizing cursor found with
  | ind length ih =>
    rcases fails_moreElements_iff.mp hfails with ⟨-, -, rfl⟩ | ⟨offset, c, rest, hskip, hstep⟩
    · exact hopening
    · have hat := hin.at_char hskip
      rcases hstep with ⟨hcomma, hclose, -, rfl⟩ | ⟨-, -, -, rfl⟩ |
        ⟨rfl, -, hitem | ⟨first, mid, hitem, more, hmore, -⟩⟩
      · exact hat.isShownIn (Flaw.noneOf_bytes_cons (Cursor.not_isBlank_of_skipBlanks_eq hskip)
          (by simp [hcomma, hclose]) rest)
      · exact hopening
      · exact hvalue ((hat.behind_char rfl).skip isBlank) hitem
      · have hmid : mid.rest.length < length :=
          hlength ▸ Cursor.length_lt_of_item hskip hitem.length_lt
        exact ih _ hmid (isIn_of_ends_value ((hat.behind_char rfl).skip isBlank) hitem) hmore rfl

theorem isShownIn_of_elements (hin : cursor.IsIn text)
    (hfails : (elements (value settings depth) opening cursor).Fails found fault) :
    fault.IsShownIn text := by
  rcases fails_elements_iff.mp hfails with ⟨-, -, rfl⟩ | ⟨offset, c, rest, hskip, -, hstep⟩
  · exact hopening
  · have hat := hin.at_char hskip
    rcases hstep with hitem | ⟨first, mid, hitem, more, hmore, -⟩
    · exact hvalue hat hitem
    · exact isShownIn_of_moreElements hvalue hopening (isIn_of_ends_value hat hitem) hmore

omit hopening

variable {slots : Slots} {key : Text} {keyStart : Nat}
variable (hobject : Fault.IsShownIn ⟨.unterminatedObject, opening⟩ text)

include hobject

theorem isShownIn_of_memberValue (hin : cursor.IsIn text)
    (hfails : (memberValue (value settings depth) opening settings slots key keyStart
      cursor).Fails found fault) : fault.IsShownIn text := by
  rcases fails_memberValue_iff.mp hfails with
    ⟨-, -, rfl⟩ | ⟨c, hhead, ⟨rfl, -, -, hread⟩ | ⟨-, hitem⟩⟩
  · exact hobject
  · exact StringToken.isShownIn_of_read hin hhead hread
  · exact hvalue hin hitem

/-- The cursor at a member is at no blank. -/
theorem isShownIn_of_member (hin : cursor.IsIn text) (hskip : cursor.skipBlanks = cursor)
    (hfails : (member (value settings depth) opening settings slots cursor).Fails found fault) :
    fault.IsShownIn text := by
  rcases fails_member_iff.mp hfails with
    ⟨-, -, rfl⟩ | ⟨c, hhead, ⟨hquote, -, rfl⟩ | ⟨rfl, ⟨-, hread⟩ | ⟨key, behind, hreads, hstep⟩⟩⟩
  · exact hobject
  · obtain ⟨rest, hrest⟩ := List.head?_eq_some_iff.mp hhead
    rcases cursor with ⟨offset, _⟩
    obtain rfl := hrest
    exact hin.isShownIn (Flaw.noneOf_bytes_cons (Cursor.not_isBlank_of_skipBlanks_eq hskip)
      (by simpa using hquote) rest)
  · exact StringToken.isShownIn_of_read hin hhead hread
  · obtain ⟨pieces, hpasses, -⟩ := StringToken.reads_read_iff_passes.mp hreads
    have hbehind := Ranges.isIn_of_passes _ hin hpasses
    rcases hstep with ⟨-, -, rfl⟩ | ⟨offset, c, rest, hcolon, ⟨hother, -, rfl⟩ | ⟨rfl, hitem⟩⟩
    · exact hobject
    · exact (hbehind.at_char hcolon).isShownIn (Flaw.noneOf_bytes_cons
        (Cursor.not_isBlank_of_skipBlanks_eq hcolon) (by simpa using hother) rest)
    · exact isShownIn_of_memberValue hvalue hobject
        (((hbehind.at_char hcolon).behind_char rfl).skip isBlank) hitem

theorem isShownIn_of_moreMembers (hin : cursor.IsIn text)
    (hfails : (moreMembers (value settings depth) opening settings slots cursor).Fails found
      fault) : fault.IsShownIn text := by
  induction hlength : cursor.rest.length using Nat.strongRecOn
    generalizing cursor slots found with
  | ind length ih =>
    rcases fails_moreMembers_iff.mp hfails with ⟨-, -, rfl⟩ | ⟨offset, c, rest, hskip, hstep⟩
    · exact hobject
    · have hat := hin.at_char hskip
      rcases hstep with ⟨hcomma, hclose, -, rfl⟩ | ⟨rfl, hitem | ⟨first, slotsAfter, mid, hitem,
        more, hmore, -⟩⟩
      · exact hat.isShownIn (Flaw.noneOf_bytes_cons (Cursor.not_isBlank_of_skipBlanks_eq hskip)
          (by simp [hcomma, hclose]) rest)
      · exact isShownIn_of_member hvalue hobject ((hat.behind_char rfl).skip isBlank)
          (Cursor.skipBlanks_skipBlanks _) hitem
      · have hmid : mid.rest.length < length :=
          hlength ▸ Cursor.length_lt_of_item hskip hitem.length_lt
        obtain ⟨member, hpasses, -⟩ := exists_member_of_yields passesValue_of_ends hitem
        exact ih _ hmid
          (Ranges.isIn_of_passes _ ((hat.behind_char rfl).skip isBlank) hpasses) hmore rfl

theorem isShownIn_of_members (hin : cursor.IsIn text)
    (hfails : (members (value settings depth) opening settings cursor).Fails found fault) :
    fault.IsShownIn text := by
  rcases fails_members_iff.mp hfails with ⟨-, -, rfl⟩ | ⟨offset, c, rest, hskip, -, hstep⟩
  · exact hobject
  · have hat := hin.at_char hskip
    rcases hstep with hitem | ⟨first, slots, mid, hitem, more, hmore, -⟩
    · exact isShownIn_of_member hvalue hobject hat
        (Cursor.skipBlanks_cons offset rest (Cursor.not_isBlank_of_skipBlanks_eq hskip)) hitem
    · obtain ⟨member, hpasses, -⟩ := exists_member_of_yields passesValue_of_ends hitem
      exact isShownIn_of_moreMembers hvalue hobject (Ranges.isIn_of_passes _ hat hpasses) hmore

end Nested

theorem isShownIn_of_value (hin : cursor.IsIn text)
    (hfails : (value settings depth cursor).Fails found fault) : fault.IsShownIn text := by
  induction depth using Nat.strongRecOn generalizing cursor fault found with
  | ind depth ih =>
    rcases fails_value_iff.mp hfails with ⟨hend, -, rfl⟩ | ⟨offset, c, rest, hskip, hstep⟩
    · have hskipped : cursor.skipBlanks.IsIn text := hin.skip isBlank
      exact hskipped.isShownIn (.inl (by rw [hend]; rfl))
    · have hat := hin.at_char hskip
      have hstarts : Text.Starts [c] (Text.bytes (c :: rest)) :=
        Text.starts_bytes_iff.mpr ⟨rest, rfl⟩
      rcases hstep with ⟨rfl, ⟨-, -, rfl⟩ | ⟨below, rfl, hobject⟩⟩ |
        ⟨rfl, ⟨-, -, rfl⟩ | ⟨below, rfl, harray⟩⟩ | ⟨rfl, -, hstring⟩ |
        ⟨-, -, -, -, hliteral, rfl⟩
      · exact hat.isShownIn (.inl hstarts)
      · have hopening : Fault.IsShownIn ⟨.unterminatedObject, offset⟩ text := hat.isShownIn hstarts
        exact isShownIn_of_members (ih below (Nat.lt_succ_self below)) hopening
          (hat.behind_char rfl) hobject
      · exact hat.isShownIn (.inr hstarts)
      · have hopening : Fault.IsShownIn ⟨.unterminatedArray, offset⟩ text := hat.isShownIn hstarts
        exact isShownIn_of_elements (ih below (Nat.lt_succ_self below)) hopening
          (hat.behind_char rfl) harray
      · exact StringToken.isShownIn_of_read hat rfl hstring
      · have hblank := Cursor.not_isBlank_of_skipBlanks_eq hskip
        have hdelimiter : c ∈ [',', ']', '\x7d'] := by grind [isLiteral]
        exact hat.isShownIn (.inr ⟨c, hdelimiter, hstarts⟩)

theorem isShownIn_of_document (hfails : (document settings text).Fails found fault) :
    fault.IsShownIn text := by
  rcases fails_document_iff.mp hfails with hvalue | ⟨next, hends, hbehind, rfl⟩
  · exact isShownIn_of_value (Cursor.start_isIn text) hvalue
  · have hin := isIn_of_ends_value (Cursor.start_isIn text) hends
    rcases hskip : next.skipBlanks with ⟨offset, _ | ⟨c, rest⟩⟩
    · rw [hskip] at hbehind
      exact absurd rfl hbehind
    · exact (hin.at_char hskip).isShownIn (Flaw.noneOf_bytes_cons
        (Cursor.not_isBlank_of_skipBlanks_eq hskip) List.not_mem_nil rest)

end Scan

/-- The fault of a document that is malformed has its offset at a boundary, so that its
position is at this very offset, and the bytes from there on show what is wrong.  A
missing string is never reported. -/
theorem flaw_shows_at_offset {settings : Settings} {text : Text} {fault : Fault}
    (hmalformed : SiteIndex.locate settings text = .error (.malformed fault)) :
    fault.offset ≤ text.size ∧ text.IsBoundary fault.offset ∧
      (∃ position, (Error.malformed fault).position? text = some position ∧
        position.offset = fault.offset) ∧
      fault.flaw ≠ .expectedString ∧ fault.flaw.IsShownBy (text.bytes.drop fault.offset) := by
  obtain ⟨found, hfails⟩ := SiteIndex.locate_eq_malformed_iff.mp hmalformed
  obtain ⟨place, hin, hoffset, hshown⟩ := Scan.isShownIn_of_document hfails
  rw [← hoffset, Ranges.drop_bytes_of_isIn hin]
  obtain ⟨before, htext, hbefore⟩ := hin
  have hboundary : text.IsBoundary place.offset := ⟨before, place.rest, htext, hbefore⟩
  refine ⟨hboundary.le_size, hboundary, ⟨_, rfl, ?_⟩, ?_, hshown⟩
  · change (text.upTo fault.offset).size = place.offset
    rw [← hoffset, ← hbefore, htext, Text.upTo_append (Nat.le_refl _), Text.upTo_size]
  · intro hstring
    rw [hstring] at hshown
    exact hshown

/-- An unknown escape by a character of three bytes, behind a key with a character of
two. -/
theorem flaw_shows_at_offset_of_wide_escape :
    ∃ (text : Text) (fault : Fault), text = "\x7b\"é\":\"\\€\"\x7d".toList ∧
      fault = ⟨.unknownEscape '€', 7⟩ ∧
      SiteIndex.locate {} text = .error (.malformed fault) ∧ text.size = 13 ∧
      text.IsBoundary 7 ∧
      (∃ position, (Error.malformed fault).position? text = some position ∧
        position.offset = 7) ∧
      Text.Starts ['\\', '€'] (text.bytes.drop 7) := by
  have hmalformed : SiteIndex.locate {} "\x7b\"é\":\"\\€\"\x7d".toList =
      .error (.malformed ⟨.unknownEscape '€', 7⟩) := by
    decide +kernel
  obtain ⟨-, hboundary, hposition, -, hstarts, -⟩ := flaw_shows_at_offset hmalformed
  exact ⟨_, _, rfl, rfl, hmalformed, by decide, hboundary, hposition, hstarts⟩

end ArrayPatch
