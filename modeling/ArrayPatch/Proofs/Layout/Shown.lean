import ArrayPatch.Proofs.Layout.Ending
import ArrayPatch.Proofs.Text.Before

/-!
# What a rendered array shows of its layout

The empty list is rendered the same in every layout.  The rendering of any other
list shows the indentation of the property on its last line, and then the unit of
indentation in front of its first element.
-/

namespace ArrayPatch

theorem IndentUnit.text_injective {first second : IndentUnit} (htext : first.text = second.text) :
    first = second := by
  cases first with
  | tab =>
      cases second with
      | tab => rfl
      | spaces count =>
          obtain ⟨-, hspace⟩ := List.eq_replicate_iff.mp htext
          exact absurd (hspace _ List.mem_cons_self) (by decide)
  | spaces count =>
      cases second with
      | tab =>
          obtain ⟨-, hspace⟩ := List.eq_replicate_iff.mp htext.symm
          exact absurd (hspace _ List.mem_cons_self) (by decide)
      | spaces other =>
          have hlength := congrArg List.length htext
          simp only [text, List.length_replicate] at hlength
          rw [hlength]

namespace Layout

variable {layout other : Layout} {indentation otherIndentation : Text} {values : List Text}

/-- The last line of a rendered array is indented like the property. -/
theorem lastLine_render (hindentation : ∀ c ∈ indentation, isIndent c) (hvalues : values ≠ []) :
    (layout.render indentation values).lastLine = indentation ++ [']'] := by
  obtain ⟨before, hbreak⟩ : ∃ before, layout.ending.text = before ++ ['\n'] := by
    cases layout.ending with
    | lf => exact ⟨[], rfl⟩
    | crlf => exact ⟨['\r'], rfl⟩
  have htext : layout.render indentation values =
      ('[' :: layout.renderElements indentation values ++ before) ++
        '\n' :: (indentation ++ [']']) := by
    rw [render, if_neg hvalues, breakTo, hbreak]
    simp
  rw [htext]
  apply Text.lastLine_append
  rintro c hc rfl
  rcases List.mem_append.mp hc with hc | hc
  · exact absurd (hindentation _ hc) (by decide)
  · exact absurd (List.mem_singleton.mp hc) (by decide)

/-- In front of the first quotation mark stand the line break and the indentation of
the first element. -/
theorem takeWhile_render (hindentation : ∀ c ∈ indentation, isIndent c) (hvalues : values ≠ []) :
    (layout.render indentation values).takeWhile (· ≠ '"') =
      '[' :: layout.elementBreak indentation := by
  obtain ⟨value, values, rfl⟩ := List.exists_cons_of_ne_nil hvalues
  have htext : layout.render indentation (value :: values) =
      ('[' :: layout.elementBreak indentation) ++ ('"' :: (value.flatMap Json.encodeChar ++ ['"'] ++
        (layout.renderMore indentation values).text)) := by
    have helements := layout.renderElements_append indentation value values
    rw [render, if_neg (List.cons_ne_nil value values), List.append_assoc, List.cons_append,
      helements, Json.encodeString]
    simp
  rw [htext]
  apply Text.takeWhile_run_append
  · intro c hc
    apply decide_eq_true
    rintro rfl
    rcases List.mem_cons.mp hc with hc | hc
    · exact absurd hc (by decide)
    · have hblank := layout.allBlank_elementBreak indentation
        (fun c hc => isBlank_of_isIndent (hindentation c hc)) _ hc
      exact absurd hblank (by decide)
  · simp

/-- Two renderings of a list with the same line ends are the same exactly if the list
is empty or the property and the elements are indented in the same way. -/
theorem render_eq_render_iff (hindentation : ∀ c ∈ indentation, isIndent c)
    (hother : ∀ c ∈ otherIndentation, isIndent c)
    (hending : values ≠ [] → layout.ending = other.ending) :
    layout.render indentation values = other.render otherIndentation values ↔
      (values ≠ [] → layout.indent = other.indent ∧ indentation = otherIndentation) := by
  constructor
  · intro hrender hvalues
    have hlast := congrArg Text.lastLine hrender
    rw [lastLine_render hindentation hvalues, lastLine_render hother hvalues] at hlast
    obtain rfl := List.append_cancel_right hlast
    have hbreak := congrArg (fun text => text.takeWhile (· ≠ '"')) hrender
    rw [takeWhile_render hindentation hvalues, takeWhile_render hother hvalues, elementBreak,
      elementBreak, breakTo, breakTo, hending hvalues] at hbreak
    have hunit := List.append_cancel_left (List.append_cancel_left (List.cons.inj hbreak).2)
    exact ⟨IndentUnit.text_injective hunit, rfl⟩
  · intro hsame
    by_cases hvalues : values = []
    · rw [hvalues]
      rfl
    · obtain ⟨hindent, rfl⟩ := hsame hvalues
      obtain ⟨indent, ending⟩ := layout
      obtain ⟨otherIndent, otherEnding⟩ := other
      obtain rfl : indent = otherIndent := hindent
      obtain rfl : ending = otherEnding := hending hvalues
      rfl

end Layout

end ArrayPatch
