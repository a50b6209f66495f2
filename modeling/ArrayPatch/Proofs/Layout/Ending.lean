import ArrayPatch.Proofs.Patch.Rewrites
import ArrayPatch.Proofs.Rendering

/-!
# Line endings of rewritten texts

Rendered arrays use the line ending that was detected, and a written string has
no raw carriage return.  So an array that is rendered with single line feeds has
no carriage return at all.  As it starts with a bracket, no pair of a carriage
return and a line feed comes about where it meets the text around it.  Hence a
rewritten text has such a pair only if the text before had one, and it keeps
having one if some rendered array has elements.
-/

namespace ArrayPatch

namespace Layout

variable {first second text : Text}

/-- A text has a carriage return in front of a line feed exactly if it can be cut
there. -/
theorem hasCrlf_iff :
    hasCrlf text ↔ ∃ before after, text = before ++ '\r' :: '\n' :: after := by
  induction text with
  | nil => simp [hasCrlf]
  | cons c text ih =>
      rw [hasCrlf, Bool.or_eq_true, ih]
      constructor
      · rintro (hhere | ⟨before, after, rfl⟩)
        · obtain ⟨rfl, hnext⟩ : c = '\r' ∧ text.head? = some '\n' := by simpa using hhere
          obtain ⟨after, rfl⟩ := List.head?_eq_some_iff.mp hnext
          exact ⟨[], after, rfl⟩
        · exact ⟨c :: before, after, rfl⟩
      · rintro ⟨before, after, htext⟩
        cases before with
        | nil =>
            cases htext
            exact .inl rfl
        | cons d before =>
            obtain ⟨rfl, rfl⟩ := List.cons.inj htext
            exact .inr ⟨before, after, rfl⟩

theorem hasCrlf_of_append (hpart : hasCrlf first ∨ hasCrlf second) : hasCrlf (first ++ second) := by
  rw [hasCrlf_iff]
  rcases hpart with hfirst | hsecond
  · obtain ⟨before, after, rfl⟩ := hasCrlf_iff.mp hfirst
    exact ⟨before, after ++ second, by simp⟩
  · obtain ⟨before, after, rfl⟩ := hasCrlf_iff.mp hsecond
    exact ⟨first ++ before, after, by simp⟩

/-- Two texts side by side have no more than their parts, unless they meet between a
carriage return and a line feed. -/
theorem hasCrlf_append_iff (hmeet : first.getLast? = some '\r' → second.head? ≠ some '\n') :
    hasCrlf (first ++ second) ↔ hasCrlf first ∨ hasCrlf second := by
  refine ⟨?_, hasCrlf_of_append⟩
  intro hall
  induction first with
  | nil => exact .inr hall
  | cons c first ih =>
      rw [List.cons_append, hasCrlf, Bool.or_eq_true] at hall
      rw [hasCrlf, Bool.or_eq_true, or_assoc]
      cases first with
      | nil =>
          right
          right
          exact hall.resolve_left (by simpa using hmeet)
      | cons d first => exact hall.imp_right (ih (by simpa using hmeet))

theorem not_hasCrlf_of_not_mem (hreturn : '\r' ∉ text) : ¬ hasCrlf text := by
  rw [hasCrlf_iff]
  rintro ⟨before, after, rfl⟩
  simp at hreturn

section Rendered

variable {layout : Layout} {indentation : Text} {values : List Text}

theorem not_mem_breakTo (hending : layout.ending = .lf)
    (hindentation : ∀ c ∈ indentation, isIndent c) : '\r' ∉ layout.breakTo indentation := by
  rw [breakTo, hending, List.mem_append]
  rintro (hbreak | hindent)
  · revert hbreak
    decide
  · have hspace := hindentation _ hindent
    revert hspace
    decide

theorem not_mem_elementBreak (hending : layout.ending = .lf)
    (hindentation : ∀ c ∈ indentation, isIndent c) : '\r' ∉ layout.elementBreak indentation := by
  apply not_mem_breakTo hending
  intro c hc
  rcases List.mem_append.mp hc with hc | hc
  · exact hindentation c hc
  · exact IndentUnit.isIndent_of_mem_text c hc

theorem not_mem_renderElements (hbreak : '\r' ∉ layout.elementBreak indentation) :
    '\r' ∉ layout.renderElements indentation values := by
  have hstring := Json.not_mem_encodeString (show '\r'.toNat < 0x20 by decide)
  induction values with
  | nil => exact List.not_mem_nil
  | cons value values ih =>
      cases values with
      | nil => simp [renderElements_singleton, hbreak, hstring]
      | cons next values => simp [renderElements_cons_cons, hbreak, hstring, ih]

/-- Rendered with single line feeds, an array has no carriage return. -/
theorem not_mem_render (hending : layout.ending = .lf)
    (hindentation : ∀ c ∈ indentation, isIndent c) :
    '\r' ∉ layout.render indentation values := by
  rw [render]
  split
  · decide
  · simp [not_mem_renderElements (not_mem_elementBreak hending hindentation),
      not_mem_breakTo hending hindentation]

/-- Rendered with double line ends, an array with elements has one of them. -/
theorem hasCrlf_render (hending : layout.ending = .crlf) (hvalues : values ≠ []) :
    hasCrlf (layout.render indentation values) := by
  rw [render, if_neg hvalues, breakTo, hending]
  apply hasCrlf_iff.mpr
  exact ⟨'[' :: layout.renderElements indentation values, indentation ++ [']'], by
    simp [LineEnding.text]⟩

theorem exists_render_eq_cons (layout : Layout) (indentation : Text) (values : List Text) :
    ∃ inside, layout.render indentation values = '[' :: inside := by
  rw [render]
  split
  · exact ⟨[']'], rfl⟩
  · exact ⟨layout.renderElements indentation values ++ layout.breakTo indentation ++ [']'], by
      simp⟩

end Rendered

end Layout

/-- A rewritten text has no carriage return in front of a line feed if the text
before has none and the patches bring none. -/
theorem Patch.Rewrites.not_hasCrlf {patches : List Patch} {offset : Nat} {old new : Text}
    (hrewrites : Rewrites patches offset old new) (hold : ¬ Layout.hasCrlf old)
    (hpatches : ∀ patch ∈ patches, '\r' ∉ patch.text ∧ ∃ inside, patch.text = '[' :: inside) :
    ¬ Layout.hasCrlf new := by
  induction hrewrites with
  | done => exact hold
  | @step patch patches offset kept exchanged rest newRest hstart hstop hsize hrest ih =>
      obtain ⟨⟨hreturn, inside, htext⟩, hpatches⟩ := List.forall_mem_cons.mp hpatches
      have hkept : ¬ Layout.hasCrlf kept := fun hkept =>
        hold (Layout.hasCrlf_of_append (.inl hkept))
      have hbehind : ¬ Layout.hasCrlf rest := fun hbehind =>
        hold (Layout.hasCrlf_of_append (.inr (Layout.hasCrlf_of_append (.inr hbehind))))
      rw [Layout.hasCrlf_append_iff, Layout.hasCrlf_append_iff]
      · rintro (hcrlf | hcrlf | hcrlf)
        · exact hkept hcrlf
        · exact Layout.not_hasCrlf_of_not_mem hreturn hcrlf
        · exact ih hbehind hpatches hcrlf
      · intro hlast
        exact absurd (List.mem_of_getLast? hlast) hreturn
      · intro _
        simp [htext]

end ArrayPatch
