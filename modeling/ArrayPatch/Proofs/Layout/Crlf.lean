import ArrayPatch.Proofs.Layout.Shown
import ArrayPatch.Proofs.Text.Crlf

/-!
# The layout of a text with carriage returns

A text without carriage returns and the text with one in front of every line
feed have the same lines, so they show the same indentation; only the line
ending differs.  What is rendered in the one layout is what is rendered in the
other, with carriage returns.
-/

namespace ArrayPatch

namespace Text

variable {text part indentation : Text} {start stop : Nat}

theorem lines_crlf (hreturn : '\r' ∉ text) : text.crlf.lines = text.lines := by
  induction text with
  | nil => rfl
  | cons c text ih =>
      obtain ⟨hc, htext⟩ := not_or.mp (List.mem_cons.not.mp hreturn)
      by_cases hfeed : c = '\n'
      · subst hfeed
        rw [crlf_cons_feed, lines, lines, ih htext]
      · have hother := fun rest => lines.eq_4 c rest hfeed fun _ heq _ => hc heq.symm
        rw [crlf_cons hfeed, hother, hother, ih htext]

theorem lastLine_crlf (text : Text) : text.crlf.lastLine = text.lastLine := by
  induction text using List.reverseRecOn with
  | nil => rfl
  | append_singleton text c ih =>
      by_cases hfeed : c = '\n'
      · simp [hfeed, crlf_cons_feed, lastLine]
      · rw [lastLine, lastLine] at ih
        simp only [crlf_append, crlf_cons hfeed, crlf_nil, lastLine, List.reverse_append,
          List.reverse_cons, List.reverse_nil, List.nil_append, List.singleton_append]
        rw [List.takeWhile_cons_of_pos (by simpa using hfeed),
          List.takeWhile_cons_of_pos (by simpa using hfeed), List.reverse_cons, List.reverse_cons,
          ih]

theorem slice?_crlf (hslice : text.slice? start stop = some part) :
    text.crlf.slice? (text.shift start) (text.shift stop) = some part.crlf := by
  obtain ⟨before, behind, rfl, rfl, rfl⟩ := slice?_eq_some_iff.mp hslice
  apply slice?_eq_some_iff.mpr
  have hstart := shift_size before (part ++ behind)
  have hstop := shift_size (before ++ part) behind
  rw [← List.append_assoc] at hstart
  rw [size_append, crlf_append, size_append] at hstop
  exact ⟨before.crlf, behind.crlf, by simp, hstart.symm, hstop.symm⟩

theorem indentationAt?_crlf (hindentation : text.indentationAt? start = some indentation) :
    text.crlf.indentationAt? (text.shift start) = some indentation := by
  obtain ⟨⟨before, behind⟩, hcut, rfl⟩ := Option.map_eq_some_iff.mp hindentation
  obtain ⟨rfl, rfl⟩ := splitAt?_eq_some_iff.mp hcut
  rw [indentationAt?, shift_size, crlf_append, splitAt?_size_append, Option.map_some]
  dsimp only
  rw [lastLine_crlf]

end Text

namespace Layout

variable {text indentation : Text}

theorem detect_of_not_mem (hreturn : '\r' ∉ text) : detect text = ⟨detectIndent text, .lf⟩ := by
  rw [detect, detectEnding, if_neg (not_hasCrlf_of_not_mem hreturn)]

/-- With carriage returns only the line ending is another one. -/
theorem detect_crlf (hreturn : '\r' ∉ text) (hfeed : '\n' ∈ text) :
    detect text.crlf = ⟨detectIndent text, .crlf⟩ := by
  have hcrlf : hasCrlf text.crlf := by
    obtain ⟨before, behind, rfl⟩ := List.append_of_mem hfeed
    rw [hasCrlf_iff, Text.crlf_append, Text.crlf_cons_feed]
    exact ⟨Text.crlf before, Text.crlf behind, rfl⟩
  rw [detect, detectEnding, if_pos hcrlf, detectIndent, Text.lines_crlf hreturn, detectIndent]

section Rendered

variable {unit : IndentUnit} (hindentation : ∀ c ∈ indentation, isIndent c)

include hindentation

theorem crlf_indentation : indentation.crlf = indentation := by
  apply Text.crlf_eq_self
  intro hfeed
  exact absurd (hindentation _ hfeed) (by decide)

theorem crlf_breakTo :
    Text.crlf (breakTo ⟨unit, .lf⟩ indentation) = breakTo ⟨unit, .crlf⟩ indentation := by
  rw [breakTo, Text.crlf_append, crlf_indentation hindentation]
  rfl

theorem crlf_elementBreak :
    Text.crlf (elementBreak ⟨unit, .lf⟩ indentation) = elementBreak ⟨unit, .crlf⟩ indentation := by
  apply crlf_breakTo
  intro c hc
  rcases List.mem_append.mp hc with hc | hc
  · exact hindentation c hc
  · exact IndentUnit.isIndent_of_mem_text c hc

theorem crlf_renderElements (values : List Text) :
    Text.crlf (renderElements ⟨unit, .lf⟩ indentation values) =
      renderElements ⟨unit, .crlf⟩ indentation values := by
  have hstring : ∀ value, Text.crlf (Json.encodeString value) = Json.encodeString value :=
    fun value => Text.crlf_eq_self (Json.not_mem_encodeString (by decide) value)
  induction values with
  | nil => rfl
  | cons value values ih =>
      cases values with
      | nil =>
          rw [renderElements_singleton, renderElements_singleton, Text.crlf_append,
            crlf_elementBreak hindentation, hstring]
      | cons next values =>
          rw [renderElements_cons_cons, renderElements_cons_cons, Text.crlf_append,
            Text.crlf_append, crlf_elementBreak hindentation, hstring,
            Text.crlf_cons (by decide), ih]

/-- An array is rendered the same, but for the carriage returns. -/
theorem crlf_render (values : List Text) :
    Text.crlf (render ⟨unit, .lf⟩ indentation values) =
      render ⟨unit, .crlf⟩ indentation values := by
  rw [render, render]
  split
  · rfl
  · rw [Text.crlf_append, Text.crlf_append, Text.crlf_cons (by decide),
      crlf_renderElements hindentation, crlf_breakTo hindentation]
    rfl

end Rendered

end Layout

end ArrayPatch
