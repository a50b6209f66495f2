import ArrayPatch.Proofs.Document.Changed
import ArrayPatch.Proofs.Document.Outcome
import ArrayPatch.Proofs.Document.ReadBack
import ArrayPatch.Proofs.Layout.Shown

/-!
# Patching a text again

A second run with the same desired lists detects the layout of the patched text
and compares the renderings in this layout with what the first run left.  It
changes nothing exactly if every desired identifier is still there and every
desired list with elements is rendered as before.  The line ending is detected
as before then; the unit of indentation and the indentation of a key need not be,
as lines that showed the unit, or that a key shares with a rewritten array, may be
gone.
-/

namespace ArrayPatch

open Patch

namespace Patching

variable {settings : Settings} {text once : Text} {desired : Desired} {index again : SiteIndex}
variable {patches : List Patch} {blanks after : Text} {tree : Grammar.Tree}
variable {identifier : Text} {values : List Text} {site : Site}
variable (hpatching :
  Patching settings (Layout.detect text) text once desired index patches blanks tree after)

include hpatching

theorem not_hasCrlf (htext : ¬ Layout.hasCrlf text) : ¬ Layout.hasCrlf once := by
  obtain ⟨ascending, hperm, hrewrites⟩ := hpatching.exists_rewrites
  apply hrewrites.not_hasCrlf htext
  intro patch hpatch
  obtain ⟨site, values, -, -, hrenders⟩ :=
    exists_renders_of_mem hpatching.build (hperm.mem_iff.mpr hpatch)
  obtain ⟨indentation, hindentation, hpatchText⟩ := renderAt_eq_ok_iff.mp hrenders.renderAt_eq
  have hending : (Layout.detect text).ending = .lf := if_neg htext
  rw [hpatchText]
  exact ⟨Layout.not_mem_render hending (Text.isIndent_of_indentationAt? hindentation),
    Layout.exists_render_eq_cons _ _ _⟩

theorem detectEnding_eq {moved : Site} {indentation : Text} (hvalues : values ≠ [])
    (hraw : moved.rawValue? once = some ((Layout.detect text).render indentation values)) :
    Layout.detectEnding once = Layout.detectEnding text := by
  by_cases htext : Layout.hasCrlf text
  · have hending : (Layout.detect text).ending = .crlf := if_pos htext
    obtain ⟨before, behind, honce, -, -⟩ := Text.slice?_eq_some_iff.mp hraw
    have hcrlf : Layout.hasCrlf once := by
      rw [honce]
      exact Layout.hasCrlf_of_append (.inl (Layout.hasCrlf_of_append (.inr
        (Layout.hasCrlf_render hending hvalues))))
    rw [Layout.detectEnding, Layout.detectEnding, if_pos htext, if_pos hcrlf]
  · rw [Layout.detectEnding, Layout.detectEnding, if_neg htext,
      if_neg (hpatching.not_hasCrlf htext)]

/-- A desired list that is still there is rendered as before exactly if it is empty,
or the unit and the indentation of its key are detected as before. -/
theorem renderAt_again_iff (hagain : SiteIndex.locate settings once = .ok again)
    (hfind : index.find? identifier = some site)
    (hdesired : desired.find? identifier = some (identifier, values)) {moved : Site}
    (hmoved : again.find? identifier = some moved) :
    (∃ rendered, renderAt once (Layout.detect once) moved values = .ok rendered ∧
        moved.rawValue? once = some rendered) ↔
      (values ≠ [] → Layout.detectIndent once = Layout.detectIndent text ∧
        once.indentationAt? moved.keyStart = text.indentationAt? site.keyStart) := by
  have hsurvives : site.Survives patches := by
    obtain ⟨other, hother, hsurvives⟩ := (hpatching.contains_again_iff hagain).mp
      (Catalog.isSome_find?_iff.mp (Option.isSome_of_eq_some hmoved))
    cases hfind.symm.trans hother
    exact hsurvives
  obtain ⟨other, indentation, hother, -, hindentation, hraw⟩ :=
    hpatching.exists_rendered_of_survives hagain hfind hdesired hsurvives
  cases hmoved.symm.trans hother
  obtain ⟨-, -, hfields, -⟩ := settings.fault?_eq_none_iff.mp hpatching.valid
  obtain ⟨_, _, _, hlocated⟩ := SiteIndex.exists_located hfields hagain
  obtain ⟨newIndentation, hnewIndentation⟩ :=
    hlocated.exists_indentationAt? (Catalog.find?_eq_some_iff.mp hmoved).1
  have hsame : (Layout.detect once).render newIndentation values =
      (Layout.detect text).render indentation values ↔ (values ≠ [] →
        Layout.detectIndent once = Layout.detectIndent text ∧ newIndentation = indentation) :=
    Layout.render_eq_render_iff (Text.isIndent_of_indentationAt? hnewIndentation)
      (Text.isIndent_of_indentationAt? hindentation)
      fun hvalues => hpatching.detectEnding_eq hvalues hraw
  have hrender : renderAt once (Layout.detect once) moved values =
      .ok ((Layout.detect once).render newIndentation values) :=
    renderAt_eq_ok_iff.mpr ⟨newIndentation, hnewIndentation, rfl⟩
  rw [hnewIndentation, hindentation, Option.some.injEq, ← hsame]
  constructor
  · rintro ⟨rendered, hrendered, hsame⟩
    cases hrender.symm.trans hrendered
    exact Option.some.inj (hsame.symm.trans hraw)
  · intro heq
    exact ⟨_, hrender, by rw [heq, hraw]⟩

end Patching

section Again

variable {settings : Settings} {text : Text} {desired : Desired} {index : SiteIndex}

/-- Patching a text leaves it as it is exactly if every desired list is rendered in it
already. -/
theorem patchText_eq_self_iff (hvalid : settings.fault? = none)
    (hlocate : SiteIndex.locate settings text = .ok index) :
    patchText settings text desired = .ok text ↔
      ∀ identifier values, desired.find? identifier = some (identifier, values) →
        ∃ site, index.find? identifier = some site ∧
          ∃ rendered, renderAt text (Layout.detect text) site values = .ok rendered ∧
            site.rawValue? text = some rendered := by
  constructor
  · intro hpatch
    obtain ⟨other, patches, blanks, tree, after, hpatching⟩ := exists_patching hpatch
    cases hlocate.symm.trans hpatching.locate
    exact (eq_nil_iff_of_buildAll hpatching.build).mp (hpatching.eq_self_iff.mp rfl)
  · intro hrendered
    have hbuild : buildAll text (Layout.detect text) index desired = .ok [] := by
      apply buildAll_eq_ok_iff.mpr
      refine ⟨desired.entries.map fun _ => none, ?_, ?_⟩
      · rw [List.forall₂_map_right_iff, List.forall₂_same]
        intro entry hentry
        obtain ⟨site, hfind, rendered, hrender, hraw⟩ :=
          hrendered entry.1 entry.2 (Catalog.find?_eq_some_iff.mpr ⟨hentry, rfl⟩)
        exact build?_eq_ok_iff.mpr
          ⟨site, rendered, rendered, hfind, hrender, hraw, (if_pos rfl).symm⟩
      · simp [List.reduceOption]
    rw [patchText_eq_update hvalid hlocate, update, hbuild]
    exact applyAll_nil text

end Again

/-- Patching the patched text once more leaves it as it is exactly if every desired
identifier is still there and, for every desired list with elements, the unit of
indentation and the indentation in front of the key are detected as before. -/
theorem patchText_again_iff {settings : Settings} {text once : Text} {desired : Desired}
    (hpatch : patchText settings text desired = .ok once) :
    ∃ index again, SiteIndex.locate settings text = .ok index ∧
      SiteIndex.locate settings once = .ok again ∧
      (patchText settings once desired = .ok once ↔
        ∀ identifier values, desired.find? identifier = some (identifier, values) →
          ∃ site moved, index.find? identifier = some site ∧
            again.find? identifier = some moved ∧
            (values ≠ [] → Layout.detectIndent once = Layout.detectIndent text ∧
              once.indentationAt? moved.keyStart = text.indentationAt? site.keyStart)) := by
  obtain ⟨index, patches, blanks, tree, after, hpatching⟩ := exists_patching hpatch
  obtain ⟨again, hagain, -⟩ := hpatching.exists_locate
  refine ⟨index, again, hpatching.locate, hagain, ?_⟩
  rw [patchText_eq_self_iff hpatching.valid hagain]
  apply forall_congr'
  intro identifier
  apply forall_congr'
  intro values
  apply imp_congr_right
  intro hdesired
  obtain ⟨site, -, hfind, -⟩ := exists_renderAt_of_mem hpatching.build hdesired
  constructor
  · rintro ⟨moved, hmoved, hrendered⟩
    exact ⟨site, moved, hfind, hmoved,
      (hpatching.renderAt_again_iff hagain hfind hdesired hmoved).mp hrendered⟩
  · rintro ⟨other, moved, hother, hmoved, hsame⟩
    exact ⟨moved, hmoved,
      (hpatching.renderAt_again_iff hagain hother hdesired hmoved).mpr hsame⟩

/-- A key behind two spaces and an element behind one.  The unit is one space, and
patching removes the only line that shows it. -/
theorem patchText_removed_line :
    patchText {} "\x7b\"id\":\"a\",\n  \"tags\":[\n 1]\x7d".toList
      (Catalog.ofList [(['a'], [['x']])]) =
    .ok "\x7b\"id\":\"a\",\n  \"tags\":[\n   \"x\"\n  ]\x7d".toList := by
  decide +kernel

/-- Whether the patched text is a fixed point is told by the layout detected in it. -/
theorem patchText_again_iff_of_removed_line :
    ∃ (text once : Text) (desired : Desired),
      text = "\x7b\"id\":\"a\",\n  \"tags\":[\n 1]\x7d".toList ∧
      desired = Catalog.ofList [(['a'], [['x']])] ∧
      once = "\x7b\"id\":\"a\",\n  \"tags\":[\n   \"x\"\n  ]\x7d".toList ∧
      patchText {} text desired = .ok once ∧
      ∃ index again, SiteIndex.locate {} text = .ok index ∧ SiteIndex.locate {} once = .ok again ∧
        (patchText {} once desired = .ok once ↔
          ∀ identifier values, desired.find? identifier = some (identifier, values) →
            ∃ site moved, index.find? identifier = some site ∧
              again.find? identifier = some moved ∧
              (values ≠ [] → Layout.detectIndent once = Layout.detectIndent text ∧
                once.indentationAt? moved.keyStart = text.indentationAt? site.keyStart)) :=
  ⟨_, _, _, rfl, rfl, rfl, patchText_removed_line, patchText_again_iff patchText_removed_line⟩

/-- Patching a text twice can differ from patching it once: without the line that
showed one space, the key shows two spaces as the unit. -/
theorem exists_patchText_again_ne :
    ∃ text once twice desired,
      text = "\x7b\"id\":\"a\",\n  \"tags\":[\n 1]\x7d".toList ∧
      desired = Catalog.ofList [(['a'], [['x']])] ∧
      once = "\x7b\"id\":\"a\",\n  \"tags\":[\n   \"x\"\n  ]\x7d".toList ∧
      twice = "\x7b\"id\":\"a\",\n  \"tags\":[\n    \"x\"\n  ]\x7d".toList ∧
      patchText {} text desired = .ok once ∧ patchText {} once desired = .ok twice ∧
      once ≠ twice := by
  have htwice : patchText {} "\x7b\"id\":\"a\",\n  \"tags\":[\n   \"x\"\n  ]\x7d".toList
      (Catalog.ofList [(['a'], [['x']])]) =
      .ok "\x7b\"id\":\"a\",\n  \"tags\":[\n    \"x\"\n  ]\x7d".toList := by
    decide +kernel
  exact ⟨_, _, _, _, rfl, rfl, rfl, rfl, patchText_removed_line, htwice, by decide⟩

end ArrayPatch
