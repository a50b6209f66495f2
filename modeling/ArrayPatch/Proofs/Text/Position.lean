import ArrayPatch.Proofs.Text.Before
import ArrayPatch.Text.Position
import Mathlib.Data.Prod.Lex
import Mathlib.Order.Bounds.Basic

/-!
# Lines and columns keep the order of offsets

The position of an offset is the position behind the whole characters before it, so
its own offset is the greatest boundary that is not past the given one.  Of two
offsets the characters before the smaller one come first among those before the
other, and every character more moves the place on: a line feed begins a line, and
any other character begins a column of the same line.  Hence line and column, the
line first, are ordered like the offsets of the positions, and no two positions of a
text have both in common.
-/

namespace ArrayPatch.Position

variable {before more text : Text}

/-- The line and the column of a position, compared by the line first. -/
def place (position : Position) : Nat ×ₗ Nat :=
  toLex (position.line, position.column)

theorem place_after_lt (before : Text) (hmore : more ≠ []) :
    (after before).place < (after (before ++ more)).place := by
  apply Prod.Lex.toLex_lt_toLex.mpr
  by_cases hfeed : '\n' ∈ more
  · -- The line feeds of `more` are counted, whatever the columns are.
    left
    have hcount := List.count_pos_iff.mpr hfeed
    simp only [after, List.count_append]
    omega
  · right
    have hlength := List.length_pos_iff.mpr hmore
    constructor
    · simp only [after, List.count_append, List.count_eq_zero.mpr hfeed, Nat.add_zero]
    · simp only [after, Text.lastLine_append_of_not_mem before hfeed, List.length_append]
      omega

/-- Of a text and a longer one the places are in order, and they are the same only
behind the same text. -/
theorem place_after_le_of_front (hfront : before <+: text) :
    (after before).place ≤ (after text).place ∧
      ((after before).place = (after text).place ↔ before = text) := by
  obtain ⟨more, rfl⟩ := hfront
  by_cases hmore : more = []
  · rw [hmore, List.append_nil]
    exact ⟨le_rfl, Iff.intro (fun _ => rfl) (fun _ => rfl)⟩
  · have hlt := place_after_lt before hmore
    refine ⟨hlt.le, ?_⟩
    simp [hlt.ne, hmore]

/-! ## Offsets -/

theorem eq_iff_size_eq_of_front (hfront : before <+: text) :
    before = text ↔ before.size = text.size := by
  obtain ⟨more, rfl⟩ := hfront
  rw [Text.size_append, Nat.left_eq_add, Text.size_eq_zero_iff, List.self_eq_append_right]

/-- The offset of a position is the greatest boundary up to the given offset. -/
theorem isGreatest_offset (text : Text) (offset : Nat) :
    IsGreatest {boundary | text.IsBoundary boundary ∧ boundary ≤ min offset text.size}
      (ofOffset text offset).offset := by
  obtain ⟨behind, htext⟩ := Text.upTo_prefix text offset
  have hboundary : text.IsBoundary (text.upTo offset).size := ⟨_, behind, htext.symm, rfl⟩
  constructor
  · exact ⟨hboundary, Nat.le_min.mpr ⟨Text.size_upTo_le text offset, hboundary.le_size⟩⟩
  · rintro start ⟨hstart, hle⟩
    exact hstart.le_size_upTo (Nat.le_trans hle (Nat.min_le_left _ _))

/-- Places of offsets in order are in order, and they are the same only for the same
boundary. -/
theorem place_ofOffset_le {offset later : Nat} (hle : offset ≤ later) :
    (ofOffset text offset).place ≤ (ofOffset text later).place ∧
      ((ofOffset text offset).place = (ofOffset text later).place ↔
        (ofOffset text offset).offset = (ofOffset text later).offset) := by
  have hfront := Text.upTo_prefix_upTo text hle
  obtain ⟨hplace, heq⟩ := place_after_le_of_front hfront
  exact ⟨hplace, heq.trans (eq_iff_size_eq_of_front hfront)⟩

/-- Two offsets have the same place exactly if their positions have the same offset. -/
theorem place_ofOffset_eq_iff {first second : Nat} :
    (ofOffset text first).place = (ofOffset text second).place ↔
      (ofOffset text first).offset = (ofOffset text second).offset := by
  rcases Nat.le_total first second with hle | hle
  · exact (place_ofOffset_le hle).2
  · rw [eq_comm, (place_ofOffset_le hle).2, eq_comm]

/-- The place of one position is not behind that of another exactly if its offset is
not. -/
theorem place_ofOffset_le_iff {first second : Nat} :
    (ofOffset text first).place ≤ (ofOffset text second).place ↔
      (ofOffset text first).offset ≤ (ofOffset text second).offset := by
  have hoffset : ∀ {offset later : Nat}, offset ≤ later →
      (ofOffset text offset).offset ≤ (ofOffset text later).offset := by
    intro offset later hle
    obtain ⟨more, hmore⟩ := Text.upTo_prefix_upTo text hle
    rw [ofOffset, ofOffset, after, after, ← hmore, Text.size_append]
    exact Nat.le_add_right _ _
  rcases Nat.le_total first second with hle | hle
  · exact iff_of_true (place_ofOffset_le hle).1 (hoffset hle)
  · -- In the other order both sides say that the two are the same.
    rw [(place_ofOffset_le hle).1.ge_iff_eq, (place_ofOffset_le hle).2, (hoffset hle).ge_iff_eq]

/-- Two offsets with the same place have the same position. -/
theorem ofOffset_eq_of_place_eq {first second : Nat}
    (hplace : (ofOffset text first).place = (ofOffset text second).place) :
    ofOffset text first = ofOffset text second := by
  have hoffset := place_ofOffset_eq_iff.mp hplace
  obtain ⟨hline, hcolumn⟩ := Prod.mk.inj (toLex.injective hplace)
  cases hfirst : ofOffset text first
  cases hsecond : ofOffset text second
  rw [hfirst, hsecond] at hoffset hline hcolumn
  rw [mk.injEq]
  exact ⟨hoffset, hline, hcolumn⟩

/-- Every offset has the position of the greatest boundary that is neither past the
offset nor past the end of the text.  Of two offsets in order the places, lines and
then columns, are in order, and they are the same exactly if the positions have the
same offset; so places are ordered as the offsets of the positions are, and a line and
a column belong to one position of the text. -/
theorem ofOffset_keeps_order (text : Text) :
    (∀ offset, IsGreatest {boundary | text.IsBoundary boundary ∧ boundary ≤ min offset text.size}
      (ofOffset text offset).offset) ∧
    (∀ offset later, offset ≤ later →
      (ofOffset text offset).place ≤ (ofOffset text later).place ∧
        ((ofOffset text offset).place = (ofOffset text later).place ↔
          (ofOffset text offset).offset = (ofOffset text later).offset)) ∧
    (∀ first second, (ofOffset text first).place ≤ (ofOffset text second).place ↔
      (ofOffset text first).offset ≤ (ofOffset text second).offset) ∧
    ∀ first second, (ofOffset text first).place = (ofOffset text second).place →
      ofOffset text first = ofOffset text second :=
  ⟨isGreatest_offset text, fun _ _ => place_ofOffset_le, fun _ _ => place_ofOffset_le_iff,
    fun _ _ => ofOffset_eq_of_place_eq⟩

/-- In front of a line feed an offset inside a character has the position of the
character, and an offset past the end has that of the end, on the next line. -/
theorem ofOffset_keeps_order_inside_character :
    ∃ text : Text, text = "aé\nx".toList ∧
      (1 ≤ 2 ∧ ofOffset text 2 = ⟨1, 1, 2⟩ ∧ ofOffset text 1 = ⟨1, 1, 2⟩ ∧
        (ofOffset text 1).place ≤ (ofOffset text 2).place ∧
        (ofOffset text 1).place = (ofOffset text 2).place) ∧
      (2 ≤ 9 ∧ ofOffset text 9 = ⟨5, 2, 2⟩ ∧
        (ofOffset text 2).place ≤ (ofOffset text 9).place ∧
        (ofOffset text 2).place ≠ (ofOffset text 9).place) ∧
      ofOffset text 1 = ofOffset text 2 := by
  obtain ⟨-, horder, -, hidentifies⟩ := ofOffset_keeps_order "aé\nx".toList
  obtain ⟨hinside, hsame⟩ := horder 1 2 (by decide)
  obtain ⟨hpast, hother⟩ := horder 2 9 (by decide)
  exact ⟨_, rfl, ⟨by decide, by decide, by decide, hinside, hsame.mpr (by decide)⟩,
    ⟨by decide, by decide, hpast, mt hother.mp (by decide)⟩,
    hidentifies 1 2 (hsame.mpr (by decide))⟩

end ArrayPatch.Position
