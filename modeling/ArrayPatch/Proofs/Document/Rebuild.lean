import ArrayPatch.Proofs.Document.Outcome
import ArrayPatch.Proofs.Document.Rescan
import ArrayPatch.Proofs.Patch.Rebuild
import ArrayPatch.Proofs.Scan.Ranges

/-!
# A patched text is the text rebuilt

Every range that patching takes out of a text or replaces in it fits the text at
that moment, so patching never breaks off.  What it gives is what copying the
text from left to right gives, with the rendering of each entry that changes
written when its array is reached.
-/

namespace ArrayPatch

open Patch

variable {settings : Settings} {text out : Text} {desired : Desired} {index : SiteIndex}
variable {patches : List Patch}

theorem Patch.renders_iff {site : Site} {values : List Text} {patch : Patch} :
    patch.Renders text (Layout.detect text) site values ↔
      ∃ indentation, text.indentationAt? site.keyStart = some indentation ∧
        patch = ⟨site.identifier, site.valueStart, site.valueEnd,
          (Layout.detect text).render indentation values⟩ ∧
        site.rawValue? text ≠ some patch.text := by
  constructor
  · rintro ⟨hidentifier, hstart, hstop, hrender, hchange⟩
    obtain ⟨indentation, hindentation, htext⟩ := renderAt_eq_ok_iff.mp hrender
    refine ⟨indentation, hindentation, ?_, hchange⟩
    rw [← hidentifier, ← hstart, ← hstop, ← htext]
  · rintro ⟨indentation, hindentation, rfl, hchange⟩
    exact ⟨rfl, rfl, rfl, renderAt_eq_ok_iff.mpr ⟨indentation, hindentation, rfl⟩, hchange⟩

/-- Patching never asks for a range that does not fit: string tokens are decoded
from ranges as they are read, the arrays of all sites and the lines of their keys
are ranges, and no patch breaks a range.  The patched text is the text copied from
left to right with the renderings of the entries that change in the places of
their arrays. -/
theorem patchText_eq_rebuild (settings : Settings) (text : Text) (desired : Desired) :
    (∀ start stop, patchText settings text desired ≠ .error (.brokenRange start stop)) ∧
    (∀ start, Ranges.tokenAt text start =
      (Scan.stringAt text start).mapError fun fault => .refused (.malformed fault)) ∧
    (settings.fault? = none → ∀ index, SiteIndex.locate settings text = .ok index →
      ∀ site ∈ index.entries, ∃ raw indentation, site.rawValue? text = some raw ∧
        text.indentationAt? site.keyStart = some indentation ∧
        Ranges.indentationAt text site.keyStart = .ok indentation) ∧
    ∀ out, patchText settings text desired = .ok out → ∃ index patches,
      SiteIndex.locate settings text = .ok index ∧
      (∀ patch, patch ∈ patches ↔ ∃ site values indentation,
        index.find? patch.identifier = some site ∧
        desired.find? patch.identifier = some (patch.identifier, values) ∧
        text.indentationAt? site.keyStart = some indentation ∧
        patch = ⟨site.identifier, site.valueStart, site.valueEnd,
          (Layout.detect text).render indentation values⟩ ∧
        site.rawValue? text ≠ some patch.text) ∧
      (ascending patches).Pairwise (fun earlier later => earlier.stop ≤ later.start) ∧
      rebuild? text 0 (ascending patches) = some out := by
  refine ⟨?_, Ranges.tokenAt_eq text, ?_, ?_⟩
  · intro start stop hbroken
    rcases patchText_cases settings text desired with ⟨error, hrefused⟩ | ⟨out, hout⟩
    · cases hbroken.symm.trans hrefused
    · cases hbroken.symm.trans hout
  · intro hvalid index hlocate site hsite
    obtain ⟨-, -, hfields, -⟩ := settings.fault?_eq_none_iff.mp hvalid
    obtain ⟨blanks, tree, after, hlocated⟩ := SiteIndex.exists_located hfields hlocate
    obtain ⟨raw, hraw⟩ := hlocated.exists_rawValue? hsite
    obtain ⟨indentation, hindentation⟩ := hlocated.exists_indentationAt? hsite
    refine ⟨raw, indentation, hraw, hindentation, ?_⟩
    rw [Ranges.indentationAt_eq, hindentation]
  · intro out hpatch
    obtain ⟨index, patches, blanks, tree, after, hpatching⟩ := exists_patching hpatch
    obtain ⟨written, hperm, hrewrites⟩ := hpatching.exists_rewrites
    have hascending : Patch.ascending patches = written :=
      ascending_eq (fun patch hpatch => (hrewrites.bounds patch hpatch).2.1) hrewrites.pairwise
        hperm
    refine ⟨index, patches, hpatching.locate, ?_, ?_, ?_⟩
    · intro patch
      rw [mem_iff_of_buildAll hpatching.build]
      simp only [renders_iff, exists_and_left]
    · rw [hascending]
      exact hrewrites.pairwise
    · rw [hascending]
      exact hrewrites.rebuild?_eq_some [] rfl

/-- A document with a character of two bytes in front of the array is rebuilt. -/
theorem patchText_eq_rebuild_of_wide_character :
    ∃ (text out : Text) (desired : Desired),
      text = "\x7b\"id\":\"é\",\"tags\":[1]\x7d".toList ∧
      desired = Catalog.ofList [(['é'], [])] ∧
      out = "\x7b\"id\":\"é\",\"tags\":[]\x7d".toList ∧
      ∃ index patches, SiteIndex.locate {} text = .ok index ∧
        (ascending patches).Pairwise (fun earlier later => earlier.stop ≤ later.start) ∧
        rebuild? text 0 (ascending patches) = some out := by
  have hpatch : patchText {} "\x7b\"id\":\"é\",\"tags\":[1]\x7d".toList
      (Catalog.ofList [(['é'], [])]) =
      .ok "\x7b\"id\":\"é\",\"tags\":[]\x7d".toList := by
    decide +kernel
  obtain ⟨-, -, -, hrebuild⟩ := patchText_eq_rebuild {} "\x7b\"id\":\"é\",\"tags\":[1]\x7d".toList
    (Catalog.ofList [(['é'], [])])
  obtain ⟨index, patches, hlocate, -, hpairwise, hout⟩ := hrebuild _ hpatch
  exact ⟨_, _, _, rfl, rfl, rfl, index, patches, hlocate, hpairwise, hout⟩

end ArrayPatch
