import ArrayPatch.Proofs.Document.Rescan

/-!
# What patching promises

The result of patching can be scanned under the same settings.  It holds the
identifiers of the text before except for those inside a patched array, reads
back what was written, and keeps the bytes of every array that no patch touches.
-/

namespace ArrayPatch

/-- A patched text is located again.  Its identifiers are those whose sites no
patch covers.  Every identifier with a patch reads back its desired list, and
every array that survives and holds no patch keeps its bytes, each of its offsets
being moved by what the patches before the offset change. -/
theorem locate_of_patchText_eq_ok {settings : Settings} {text out : Text} {desired : Desired}
    (hpatch : patchText settings text desired = .ok out) :
    ∃ index patches again, SiteIndex.locate settings text = .ok index ∧
      Patch.buildAll text (Layout.detect text) index desired = .ok patches ∧
      SiteIndex.locate settings out = .ok again ∧
      (∀ identifier, again.contains identifier ↔
        ∃ site, index.find? identifier = some site ∧ site.Survives patches) ∧
      (∀ patch ∈ patches, ∃ moved values, again.find? patch.identifier = some moved ∧
        desired.find? patch.identifier = some (patch.identifier, values) ∧
        moved.readValues settings out = .ok (some values)) ∧
      ∀ identifier site, index.find? identifier = some site → site.Survives patches →
        (∀ patch ∈ patches, ¬ (site.valueStart ≤ patch.start ∧ patch.stop ≤ site.valueEnd)) →
        ∃ moved raw, again.find? identifier = some moved ∧ site.MovesTo patches moved ∧
          site.rawValue? text = some raw ∧ moved.rawValue? out = some raw := by
  obtain ⟨index, patches, blanks, tree, after, hpatching⟩ := exists_patching hpatch
  obtain ⟨again, hagain, -⟩ := hpatching.exists_locate
  refine ⟨index, patches, again, hpatching.locate, hpatching.build, hagain, ?_, ?_, ?_⟩
  · intro identifier
    exact hpatching.contains_again_iff hagain
  · intro patch hmem
    exact hpatching.readValues_of_mem hagain hmem
  · intro identifier site hfind hsurvives houtside
    exact hpatching.rawValue?_of_survives hagain hfind hsurvives houtside

/-- An object inside a patched array is gone, and the array around it reads back. -/
theorem locate_of_patchText_nested :
    ∃ text out desired,
      text = "\x7b\"id\":\"a\",\"tags\":[\x7b\"id\":\"b\",\"tags\":[]\x7d]\x7d".toList ∧
      desired = Catalog.ofList [(['a'], [['x']])] ∧
      out = "\x7b\"id\":\"a\",\"tags\":[\n  \"x\"\n]\x7d".toList ∧
      ∃ index patches again, SiteIndex.locate {} text = .ok index ∧
        Patch.buildAll text (Layout.detect text) index desired = .ok patches ∧
        SiteIndex.locate {} out = .ok again ∧
        ∀ identifier, again.contains identifier ↔
          ∃ site, index.find? identifier = some site ∧ site.Survives patches := by
  have hpatch : patchText {}
      "\x7b\"id\":\"a\",\"tags\":[\x7b\"id\":\"b\",\"tags\":[]\x7d]\x7d".toList
      (Catalog.ofList [(['a'], [['x']])]) =
      .ok "\x7b\"id\":\"a\",\"tags\":[\n  \"x\"\n]\x7d".toList := by
    decide +kernel
  obtain ⟨index, patches, again, hlocate, hbuild, hagain, hcontains, -⟩ :=
    locate_of_patchText_eq_ok hpatch
  exact ⟨_, _, _, rfl, rfl, rfl, index, patches, again, hlocate, hbuild, hagain, hcontains⟩

end ArrayPatch
