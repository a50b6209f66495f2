import ArrayPatch.Json.Decode
import ArrayPatch.Proofs.Json.Read
import ArrayPatch.Proofs.Rendering
import ArrayPatch.Proofs.Scan.Strings

/-!
# Rendered arrays are read back

A rendered array is read back by two readers that have no code in common: the
scanner, which takes the array out of a text that goes on before and behind it,
and the JSON reader, which takes it alone.  Both see the tree of the rendering,
whose tokens stand for the rendered texts in either reading.
-/

namespace ArrayPatch

open Grammar

theorem Json.asTexts?_jsonTexts (values : List Text) :
    (jsonTexts values).asTexts? = some values := by
  rw [jsonTexts, Value.asTexts?, List.mapM_map]
  induction values with
  | nil => rfl
  | cons value values ih =>
      rw [List.mapM_cons, ih]
      rfl

namespace Layout

variable {settings : Settings} {layout : Layout} {propertyIndent : Text}

/-- A rendered array is scanned for its texts wherever it stands. -/
theorem stringsAt_render (hdepth : 0 < settings.maxDepth) (hblank : AllBlank propertyIndent)
    (values : List Text) (before after : Text) :
    Scan.stringsAt settings (before ++ layout.render propertyIndent values ++ after) before.size =
      ⟨[], .ok (some values, before.size + (layout.render propertyIndent values).size)⟩ := by
  rw [← text_renderTree]
  have hwell := layout.wellFormed_renderTree hblank values
  have hprecede := Tree.canPrecede_of_isArray (layout.isArray_renderTree propertyIndent values)
    after
  rw [Scan.stringsAt_of_tree hwell (by rwa [depth_renderTree]) hprecede, objects_renderTree,
    strings?_renderTree]
  rfl

theorem decodeStrings_render (hblank : AllBlank propertyIndent) (values : List Text) :
    Json.decodeStrings (layout.render propertyIndent values) = .ok values := by
  have hwhole : Json.readWhole (layout.render propertyIndent values) =
      some (jsonTexts values) := by
    rw [← text_renderTree]
    exact Json.readWhole_text (layout.wellFormed_renderTree hblank values)
      (layout.json?_renderTree propertyIndent values)
  have hread := (Option.filter_eq_some_iff.mp hwhole).1
  rw [Json.decodeStrings, Json.readStrings, hread, Option.bind_eq_bind, Option.bind_some,
    Json.asTexts?_jsonTexts]

end Layout

/-- Texts that are rendered under spaces and tabs, in whatever layout, are read
back from the rendering: by a scan that starts at it in any text and may open
one array, and by decoding it as JSON.  The scan ends right behind the rendering
and finds no sites in it. -/
theorem read_of_render (settings : Settings) (hdepth : 1 ≤ settings.maxDepth) (layout : Layout)
    (propertyIndent : Text) (hindent : ∀ c ∈ propertyIndent, c = ' ' ∨ c = '\t')
    (values : List Text) (before after : Text) :
    Scan.stringsAt settings (before ++ layout.render propertyIndent values ++ after) before.size =
        ⟨[], .ok (some values, before.size + (layout.render propertyIndent values).size)⟩ ∧
      Json.decodeStrings (layout.render propertyIndent values) = .ok values := by
  have hblank : AllBlank propertyIndent := by
    intro c hc
    rcases hindent c hc with rfl | rfl
    · rfl
    · rfl
  exact ⟨Layout.stringsAt_render hdepth hblank values before after,
    Layout.decodeStrings_render hblank values⟩

/-- A text with a quote, a backslash, a line feed, a control character and a
character of two bytes, and the empty text, rendered under a tab with line ends
of two characters and read back in front of more text. -/
theorem read_of_render_escapes :
    ∃ (settings : Settings) (layout : Layout) (values : List Text) (before after rendered : Text),
      settings.maxDepth = 1 ∧ layout = ⟨.spaces 1, .crlf⟩ ∧
      values = [['"', '\\', '\n', '\x01', 'é'], []] ∧
      before = "\"ü\":".toList ∧ after = ['x'] ∧
      rendered = "[\r\n\t \"\\\"\\\\\\n\\u0001é\",\r\n\t \"\"\r\n\t]".toList ∧
      Scan.stringsAt settings (before ++ rendered ++ after) before.size =
        ⟨[], .ok (some values, before.size + rendered.size)⟩ ∧
      Json.decodeStrings rendered = .ok values := by
  have hrendered : "[\r\n\t \"\\\"\\\\\\n\\u0001é\",\r\n\t \"\"\r\n\t]".toList =
      (Layout.mk (.spaces 1) .crlf).render ['\t'] [['"', '\\', '\n', '\x01', 'é'], []] := by
    decide
  have hread := read_of_render { maxDepth := 1 } (Nat.le_refl 1) ⟨.spaces 1, .crlf⟩ ['\t']
    (by simp) [['"', '\\', '\n', '\x01', 'é'], []] "\"ü\":".toList ['x']
  rw [← hrendered] at hread
  exact ⟨_, _, _, _, _, _, rfl, rfl, rfl, rfl, rfl, rfl, hread⟩

end ArrayPatch
