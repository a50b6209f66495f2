import ArrayPatch.Proofs.Text.Part

/-!
# What stands before an offset

The whole characters before an offset are a front of the text that takes no more
bytes than the offset says, and no longer front of the text does.  The last line of
a text is what stands behind its last line feed, so text that is added either
lengthens it or brings a last line of its own.
-/

namespace ArrayPatch.Text

variable {text : Text}

/-- What is before an offset does not depend on what is behind it. -/
theorem upTo_append {before : Text} {offset : Nat} (hle : offset ≤ before.size) (behind : Text) :
    (before ++ behind).upTo offset = before.upTo offset := by
  induction before generalizing offset with
  | nil =>
      obtain rfl := Nat.le_zero.mp hle
      cases behind with
      | nil => rfl
      | cons c behind => simp [upTo, Nat.not_le.mpr c.utf8Size_pos]
  | cons c before ih =>
      rw [size_cons] at hle
      rw [List.cons_append, upTo, upTo, ih (by omega)]

theorem upTo_size (text : Text) : text.upTo text.size = text := by
  induction text with
  | nil => rfl
  | cons c text ih =>
      rw [upTo, size_cons, if_pos (Nat.le_add_right _ _), Nat.add_sub_cancel_left, ih]

theorem upTo_prefix_upTo (text : Text) {offset later : Nat} (hle : offset ≤ later) :
    text.upTo offset <+: text.upTo later := by
  induction text generalizing offset later with
  | nil => exact List.prefix_refl []
  | cons c text ih =>
      rw [upTo, upTo]
      by_cases hwidth : c.utf8Size ≤ offset
      · rw [if_pos hwidth, if_pos (Nat.le_trans hwidth hle)]
        exact (List.prefix_cons_inj c).mpr (ih (Nat.sub_le_sub_right hle _))
      · rw [if_neg hwidth]
        exact List.nil_prefix

theorem upTo_prefix (text : Text) (offset : Nat) : text.upTo offset <+: text := by
  induction text generalizing offset with
  | nil => exact List.prefix_refl []
  | cons c text ih =>
      rw [upTo]
      split
      · exact (List.prefix_cons_inj c).mpr (ih _)
      · exact List.nil_prefix

theorem size_upTo_le (text : Text) (offset : Nat) : (text.upTo offset).size ≤ offset := by
  induction text generalizing offset with
  | nil => exact Nat.zero_le offset
  | cons c text ih =>
      rw [upTo]
      split
      · have hrest := ih (offset - c.utf8Size)
        rw [size_cons]
        omega
      · exact Nat.zero_le offset

/-- No boundary lies between an offset and the characters before it. -/
theorem IsBoundary.le_size_upTo {start offset : Nat} (hboundary : text.IsBoundary start)
    (hle : start ≤ offset) : start ≤ (text.upTo offset).size := by
  obtain ⟨before, behind, rfl, rfl⟩ := hboundary
  have hbefore : before <+: (before ++ behind).upTo offset := by
    have hfront := upTo_prefix_upTo (before ++ behind) hle
    rwa [upTo_append (Nat.le_refl _), upTo_size] at hfront
  obtain ⟨more, hmore⟩ := hbefore
  rw [← hmore, size_append]
  exact Nat.le_add_right _ _

theorem lastLine_append {before line : Text} (hline : ∀ c ∈ line, c ≠ '\n') :
    lastLine (before ++ '\n' :: line) = line := by
  have hrun : ∀ c ∈ line.reverse, decide (c ≠ '\n') = true := by
    intro c hc
    exact decide_eq_true (hline c (List.mem_reverse.mp hc))
  rw [lastLine, List.reverse_append, List.reverse_cons, List.append_assoc,
    takeWhile_run_append hrun (by simp), List.reverse_reverse]

/-- The last line starts behind the last line feed, whatever stands before it. -/
theorem lastLine_append_of_mem (before : Text) {line : Text} (hfeed : '\n' ∈ line) :
    lastLine (before ++ line) = lastLine line := by
  obtain ⟨back, front, hreverse, hback⟩ := List.eq_append_cons_of_mem (List.mem_reverse.mpr hfeed)
  have hsplit : line = front.reverse ++ '\n' :: back.reverse := by
    rw [← List.reverse_reverse line, hreverse]
    simp
  have hline : ∀ c ∈ back.reverse, c ≠ '\n' := by
    rintro c hc rfl
    exact hback (List.mem_reverse.mp hc)
  rw [hsplit, ← List.append_assoc, lastLine_append hline, lastLine_append hline]

/-- The last line reaches back over what has no line feed. -/
theorem lastLine_append_of_not_mem (before : Text) {line : Text} (hfeed : '\n' ∉ line) :
    lastLine (before ++ line) = before.lastLine ++ line := by
  have hline : ∀ c ∈ line.reverse, decide (c ≠ '\n') = true := by
    intro c hc
    apply decide_eq_true
    rintro rfl
    exact hfeed (List.mem_reverse.mp hc)
  rw [lastLine, List.reverse_append, List.takeWhile_append_of_pos hline, List.reverse_append,
    List.reverse_reverse, lastLine]

end ArrayPatch.Text
