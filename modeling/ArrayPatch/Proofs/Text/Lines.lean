import ArrayPatch.Layout
import ArrayPatch.Proofs.Text.Part

/-!
# The lines of a text

A line begins at the start of the text or behind a line feed, and it reaches to the
next line feed or to the end of the text.  A carriage return is dropped from it if it
stands right before the line feed, and nowhere else.  The lines of a text are found one
after the other, so both descriptions are taken apart at the first line feed.
-/

namespace ArrayPatch.Text

variable {text line run after : Text}

/-- What is left of a run of characters when the carriage return at its end is dropped. -/
def withoutReturn (run : Text) : Text :=
  if run.getLast? = some '\r' then run.dropLast else run

/-- The text has this line.  The line behind a line feed at the end is empty. -/
def HasLine (text line : Text) : Prop :=
  ∃ before run behind, text = before ++ (run ++ behind) ∧
    (before = [] ∨ before.getLast? = some '\n') ∧ '\n' ∉ run ∧
    (behind = [] ∧ line = run ∨ behind.head? = some '\n' ∧ line = run.withoutReturn)

@[simp]
theorem withoutReturn_nil : withoutReturn [] = [] :=
  rfl

theorem withoutReturn_cons {c : Char} (hstays : run ≠ [] ∨ c ≠ '\r') :
    withoutReturn (c :: run) = c :: run.withoutReturn := by
  cases run with
  | nil =>
      have hother : c ≠ '\r' := hstays.resolve_left fun hne => hne rfl
      rw [withoutReturn, List.getLast?_singleton, if_neg (by simpa using hother),
        withoutReturn_nil]
  | cons d run =>
      rw [withoutReturn, withoutReturn, List.getLast?_cons_cons, List.dropLast_cons_cons]
      split <;> rfl

/-- What has more behind it stays. -/
theorem withoutReturn_append (front : Text) (hrun : run ≠ []) :
    withoutReturn (front ++ run) = front ++ run.withoutReturn := by
  induction front with
  | nil => rfl
  | cons c front ih =>
      have hmore := List.append_ne_nil_of_right_ne_nil front hrun
      rw [List.cons_append, withoutReturn_cons (.inl hmore), ih, List.cons_append]

/-- The first line feed of a text cuts it in one way only. -/
theorem append_feed_inj {first second behind : Text} (hfirst : '\n' ∉ first)
    (hsecond : '\n' ∉ second) (htext : first ++ '\n' :: after = second ++ '\n' :: behind) :
    first = second ∧ after = behind := by
  have hrun : ∀ {run : Text}, '\n' ∉ run → ∀ c ∈ run, decide (c ≠ '\n') = true := by
    rintro run hfeed c hc
    exact decide_eq_true (ne_of_mem_of_not_mem hc hfeed)
  have hcut := congrArg (List.takeWhile fun c => decide (c ≠ '\n')) htext
  rw [takeWhile_run_append (hrun hfirst) (by simp), takeWhile_run_append (hrun hsecond) (by simp)]
    at hcut
  rw [hcut] at htext
  exact ⟨hcut, (List.cons.inj (List.append_cancel_left htext)).2⟩

theorem lines_of_not_mem (hfeed : '\n' ∉ text) : text.lines = [text] := by
  induction text with
  | nil => rfl
  | cons c text ih =>
      obtain ⟨hc, htext⟩ := not_or.mp (List.mem_cons.not.mp hfeed)
      rw [lines.eq_4 c text (Ne.symm hc) ?_, ih htext]
      rintro behind - rfl
      exact htext List.mem_cons_self

/-- The first line ends at the first line feed. -/
theorem lines_append_feed (hfeed : '\n' ∉ run) (after : Text) :
    lines (run ++ '\n' :: after) = run.withoutReturn :: lines after := by
  induction run with
  | nil => rfl
  | cons c run ih =>
      obtain ⟨hc, hrun⟩ := not_or.mp (List.mem_cons.not.mp hfeed)
      by_cases hstays : run ≠ [] ∨ c ≠ '\r'
      · rw [List.cons_append, lines.eq_4 c _ (Ne.symm hc) ?_, ih hrun, withoutReturn_cons hstays]
        -- The character and the line feed are no line ending of two characters.
        rintro behind rfl hbehind
        obtain ⟨d, run, rfl⟩ := List.exists_cons_of_ne_nil (hstays.resolve_right fun h => h rfl)
        obtain rfl := (List.cons.inj hbehind).1
        exact hrun List.mem_cons_self
      · obtain ⟨hnil, hreturn⟩ := not_or.mp hstays
        obtain rfl := not_not.mp hnil
        obtain rfl := not_not.mp hreturn
        rfl

theorem hasLine_iff_of_not_mem (hfeed : '\n' ∉ text) : text.HasLine line ↔ line = text := by
  constructor
  · rintro ⟨before, run, behind, rfl, hbefore, -, hbehind⟩
    obtain rfl : before = [] := hbefore.resolve_right fun hlast =>
      hfeed (List.mem_append_left _ (List.mem_of_getLast? hlast))
    rcases hbehind with ⟨rfl, rfl⟩ | ⟨hhead, -⟩
    · simp
    · refine absurd ?_ hfeed
      exact List.mem_append_right _ (List.mem_append_right _ (List.mem_of_head? hhead))
  · rintro rfl
    exact ⟨[], line, [], by simp, .inl rfl, hfeed, .inl ⟨rfl, rfl⟩⟩

/-- A line is the first one or a line behind the first line feed. -/
theorem hasLine_append_feed_iff (hfeed : '\n' ∉ run) :
    HasLine (run ++ '\n' :: after) line ↔ line = run.withoutReturn ∨ after.HasLine line := by
  constructor
  · rintro ⟨before, other, behind, htext, hbefore, hother, hbehind⟩
    rcases hbefore with rfl | hlast
    · -- Both runs go up to the first line feed.
      left
      rcases hbehind with ⟨rfl, -⟩ | ⟨hhead, rfl⟩
      · rw [List.nil_append, List.append_nil] at htext
        rw [← htext] at hother
        exact absurd (List.mem_append_right _ List.mem_cons_self) hother
      · obtain ⟨rest, rfl⟩ := List.head?_eq_some_iff.mp hhead
        rw [(append_feed_inj hfeed hother htext).1]
    · right
      obtain ⟨first, more, rfl, hfirst⟩ :=
        List.eq_append_cons_of_mem (List.mem_of_getLast? hlast)
      rw [List.append_assoc, List.cons_append] at htext
      obtain ⟨-, rfl⟩ := append_feed_inj hfeed hfirst htext
      refine ⟨more, other, behind, rfl, ?_, hother, hbehind⟩
      cases more with
      | nil => exact .inl rfl
      | cons c more =>
          right
          simpa using hlast
  · rintro (rfl | ⟨before, other, behind, rfl, hbefore, hother, hbehind⟩)
    · exact ⟨[], run, '\n' :: after, rfl, .inl rfl, hfeed, .inr ⟨rfl, rfl⟩⟩
    · refine ⟨run ++ '\n' :: before, other, behind, by simp, .inr ?_, hother, hbehind⟩
      rcases hbefore with rfl | hlast
      · simp
      · rw [List.getLast?_append, List.getLast?_cons]
        simp [hlast]

/-- The lines that are found are the lines of the text. -/
theorem mem_lines_iff : line ∈ text.lines ↔ text.HasLine line := by
  induction hlength : text.length using Nat.strongRecOn generalizing text with
  | ind length ih =>
      by_cases hfeed : '\n' ∈ text
      · obtain ⟨run, after, rfl, hrun⟩ := List.eq_append_cons_of_mem hfeed
        have hshorter : after.length < length := by
          rw [← hlength, List.length_append, List.length_cons]
          omega
        rw [lines_append_feed hrun, hasLine_append_feed_iff hrun, List.mem_cons,
          ih after.length hshorter rfl]
      · rw [lines_of_not_mem hfeed, hasLine_iff_of_not_mem hfeed, List.mem_singleton]

end ArrayPatch.Text
