import ArrayPatch.Proofs.Grammar.Opening
import ArrayPatch.Proofs.Scan.Ranges
import ArrayPatch.Proofs.Text.Part

/-!
# Getting from one cursor to another

A cursor reaches another one if it gets there by passing over a part of the text.
Whatever is read successfully is such a part: blanks, single characters and tokens.
The offset grows on the way, while the end of the text stays where it is.

An offset at which no character starts has no cursor.  The first boundary from there
on stands for it, and past the end a cursor with nothing left.
-/

namespace ArrayPatch

namespace Cursor

variable {cursor mid next : Cursor} {text : Text}

/-- One cursor is at or behind another one in the same text. -/
def Reaches (cursor next : Cursor) : Prop :=
  ∃ passed, cursor.Passes passed next

/-- Where the text of a cursor ends. -/
def stop (cursor : Cursor) : Nat :=
  cursor.offset + cursor.rest.size

theorem Reaches.refl (cursor : Cursor) : cursor.Reaches cursor :=
  ⟨[], passes_nil_iff.mpr rfl⟩

theorem Reaches.trans (hfirst : cursor.Reaches mid) (hsecond : mid.Reaches next) :
    cursor.Reaches next := by
  obtain ⟨first, hfirst⟩ := hfirst
  obtain ⟨second, hsecond⟩ := hsecond
  exact ⟨first ++ second, hfirst.trans hsecond⟩

theorem Reaches.offset_le (hreaches : cursor.Reaches next) : cursor.offset ≤ next.offset := by
  obtain ⟨passed, hpasses⟩ := hreaches
  exact hpasses.offset_le

/-- What is passed over takes at least one byte. -/
theorem Reaches.offset_lt (hreaches : cursor.Reaches next)
    (hlt : next.rest.length < cursor.rest.length) : cursor.offset < next.offset := by
  obtain ⟨passed, hrest, hoffset⟩ := hreaches
  cases passed with
  | nil => exact absurd (congrArg List.length hrest) (Nat.ne_of_gt hlt)
  | cons c passed =>
      have hwidth := c.utf8Size_pos
      rw [hoffset, Text.size_cons]
      omega

theorem Reaches.stop_eq (hreaches : cursor.Reaches next) : next.stop = cursor.stop := by
  obtain ⟨passed, hrest, hoffset⟩ := hreaches
  rw [stop, stop, hrest, hoffset, Text.size_append, Nat.add_assoc]

theorem Reaches.offset_le_stop (hreaches : cursor.Reaches next) : next.offset ≤ cursor.stop :=
  hreaches.stop_eq ▸ Nat.le_add_right _ _

theorem Reaches.isIn (hreaches : cursor.Reaches next) (hin : cursor.IsIn text) :
    next.IsIn text := by
  obtain ⟨passed, hpasses⟩ := hreaches
  exact Ranges.isIn_of_passes passed hin hpasses

theorem reaches_skip (p : Char → Bool) (cursor : Cursor) : cursor.Reaches (cursor.skip p) := by
  obtain ⟨run, hpasses, -⟩ := skip_eq_iff.mp (rfl : cursor.skip p = _)
  exact ⟨run, hpasses⟩

theorem reaches_skipBlanks (cursor : Cursor) : cursor.Reaches cursor.skipBlanks :=
  cursor.reaches_skip isBlank

theorem reaches_of_skipBlanks_eq (hskip : cursor.skipBlanks = next) : cursor.Reaches next :=
  hskip ▸ cursor.reaches_skipBlanks

theorem reaches_cons {offset : Nat} {c mark : Char} {rest : Text} (hc : c = mark)
    (hwidth : mark.utf8Size = 1) : (Cursor.mk offset (c :: rest)).Reaches ⟨offset + 1, rest⟩ := by
  refine ⟨[c], rfl, ?_⟩
  rw [Text.size_cons, hc, hwidth]
  rfl

theorem reaches_behind_mark {offset : Nat} {c mark : Char} {rest : Text}
    (hskip : cursor.skipBlanks = ⟨offset, c :: rest⟩) (hc : c = mark)
    (hwidth : mark.utf8Size = 1) : cursor.Reaches ⟨offset + 1, rest⟩ :=
  (reaches_of_skipBlanks_eq hskip).trans (reaches_cons hc hwidth)

theorem reaches_literal {next : After cursor} (hliteral : Scan.literal cursor = .ok next) :
    cursor.Reaches next.1 := by
  obtain ⟨text, hpasses, -⟩ := Scan.literal_eq_ok_iff_passes.mp ⟨next.2, hliteral⟩
  exact ⟨text, hpasses⟩

theorem reaches_read {read : Text × After cursor} (hread : StringToken.read cursor = .ok read) :
    cursor.Reaches read.2.1 := by
  obtain ⟨pieces, hpasses, -⟩ := StringToken.reads_read_iff_passes.mp ⟨read.2.2, hread⟩
  exact ⟨_, hpasses⟩

theorem reaches_skip_token {next : After cursor} (hnext : StringToken.skip cursor = .ok next) :
    cursor.Reaches next.1 := by
  obtain ⟨value, hvalue, hread⟩ := StringToken.skip_eq_ok_iff.mp ⟨next.2, hnext⟩
  exact reaches_read hread

theorem reaches_token {c : Char} {next : After cursor}
    (htoken : (if c = '"' then StringToken.skip cursor else Scan.literal cursor) = .ok next) :
    cursor.Reaches next.1 := by
  split at htoken
  · exact reaches_skip_token htoken
  · exact reaches_literal htoken

end Cursor

/-! ## Offsets of every kind -/

namespace Text

variable {text : Text} {start : Nat} {cursor next : Cursor}

/-- The first boundary from an offset on. -/
def boundaryFrom (text : Text) (start : Nat) : Cursor :=
  ⟨start + (text.tailAt start).fragment, (text.tailAt start).rest⟩

/-- The cursor at a boundary.  An offset past the end has no cursor in the text; the
start of an empty text stands for it. -/
def cursorAt (text : Text) (offset : Nat) : Cursor :=
  if offset ≤ text.size then ⟨offset, (text.tailAt offset).rest⟩ else ⟨0, []⟩

theorem boundaryFrom_of_fragment_eq_zero (hboundary : (text.tailAt start).fragment = 0) :
    text.boundaryFrom start = ⟨start, (text.tailAt start).rest⟩ := by
  rw [boundaryFrom, hboundary, Nat.add_zero]

theorem boundaryFrom_of_size_lt (hstart : text.size < start) :
    text.boundaryFrom start = ⟨start, []⟩ := by
  rw [boundaryFrom, tailAt_of_size_lt hstart, Nat.add_zero]

/-- Only inside a text an offset leaves a part of a character. -/
theorem le_size_of_fragment_ne_zero (hfragment : (text.tailAt start).fragment ≠ 0) :
    start ≤ text.size := by
  by_contra hpast
  rw [tailAt_of_size_lt (Nat.lt_of_not_le hpast)] at hfragment
  exact hfragment rfl

theorem isIn_boundaryFrom (hstart : start ≤ text.size) : (text.boundaryFrom start).IsIn text := by
  induction text generalizing start with
  | nil =>
      obtain rfl := Nat.le_zero.mp hstart
      exact ⟨[], rfl, rfl⟩
  | cons c text ih =>
      cases start with
      | zero => exact ⟨[], rfl, rfl⟩
      | succ start =>
          rw [boundaryFrom, tailAt]
          by_cases hwidth : c.utf8Size ≤ start + 1
          · rw [size_cons] at hstart
            obtain ⟨before, htext, hbefore⟩ :=
              ih (show start + 1 - c.utf8Size ≤ size text by omega)
            rw [if_pos hwidth]
            refine ⟨c :: before, congrArg (c :: ·) htext, ?_⟩
            rw [size_cons, hbefore]
            dsimp only [boundaryFrom]
            omega
          · rw [if_neg hwidth]
            refine ⟨[c], rfl, ?_⟩
            rw [size_cons]
            dsimp only [size_nil]
            omega

theorem stop_eq_of_isIn (hin : cursor.IsIn text) : cursor.stop = text.size := by
  obtain ⟨before, rfl, hbefore⟩ := hin
  rw [size_append, hbefore, Cursor.stop]

theorem stop_boundaryFrom (text : Text) (start : Nat) :
    (text.boundaryFrom start).stop = max start text.size := by
  by_cases hstart : start ≤ text.size
  · rw [stop_eq_of_isIn (isIn_boundaryFrom hstart), Nat.max_eq_right hstart]
  · have hpast := Nat.lt_of_not_le hstart
    rw [boundaryFrom_of_size_lt hpast, Nat.max_eq_left (Nat.le_of_lt hpast)]
    rfl

theorem cursorAt_of_isIn (hin : cursor.IsIn text) : text.cursorAt cursor.offset = cursor := by
  have hstop := stop_eq_of_isIn hin
  obtain ⟨before, rfl, hbefore⟩ := hin
  rw [cursorAt, if_pos (hstop ▸ Nat.le_add_right _ _), ← hbefore, tailAt_size_append, hbefore]

/-- Where something has been read, there is a cursor. -/
theorem cursorAt_of_reaches (hfrom : text.boundaryFrom start = cursor) (next : After cursor)
    (hreaches : cursor.Reaches next.1) : text.cursorAt next.1.offset = next.1 := by
  by_cases hstart : start ≤ text.size
  · exact cursorAt_of_isIn (hreaches.isIn (hfrom ▸ isIn_boundaryFrom hstart))
  · rw [boundaryFrom_of_size_lt (Nat.lt_of_not_le hstart)] at hfrom
    subst hfrom
    exact absurd next.2 (Nat.not_lt_zero _)

theorem reaches_fragmentEnd (text : Text) (start : Nat) :
    (text.boundaryFrom start).Reaches (Scan.fragmentEnd start (text.tailAt start)) :=
  Cursor.reaches_skip Scan.isLiteral _

/-- The literal that starts inside a character ends behind that. -/
theorem lt_offset_fragmentEnd (hfragment : (text.tailAt start).fragment ≠ 0) :
    start < (Scan.fragmentEnd start (text.tailAt start)).offset :=
  Nat.lt_of_lt_of_le (Nat.lt_add_of_pos_right (Nat.pos_of_ne_zero hfragment))
    (reaches_fragmentEnd text start).offset_le

theorem isIn_fragmentEnd (hfragment : (text.tailAt start).fragment ≠ 0) :
    (Scan.fragmentEnd start (text.tailAt start)).IsIn text :=
  (reaches_fragmentEnd text start).isIn
    (isIn_boundaryFrom (le_size_of_fragment_ne_zero hfragment))

end Text

end ArrayPatch
