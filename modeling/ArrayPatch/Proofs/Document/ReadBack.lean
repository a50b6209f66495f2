import ArrayPatch.Proofs.Document.Rescan

/-!
# Which desired lists are read back

Patching leaves the rendering of every desired list at its site, if the site is
still there: either a patch writes it, or it was there before.  An array that
reads like a rendering holds no sites, so nothing is patched inside it.

A site is no longer there exactly if a patch covers it.  This also happens to
sites of desired lists: an entry that changes nothing makes no patch, and no
overlap is found between it and a patch around it.
-/

namespace ArrayPatch

open Grammar Patch

theorem Patch.Rewrites.exists_of_singleton {patch : Patch} {offset : Nat} {old new : Text}
    (hrewrites : Rewrites [patch] offset old new) :
    ∃ before exchanged after, old = before ++ exchanged ++ after ∧
      new = before ++ patch.text ++ after ∧ patch.start = offset + before.size ∧
      patch.stop = patch.start + exchanged.size := by
  generalize hpatches : [patch] = patches at hrewrites
  cases hrewrites with
  | done => cases hpatches
  | @step _ _ _ kept exchanged rest newRest hstart hstop hold hrest =>
      cases hpatches
      cases hrest
      exact ⟨kept, exchanged, rest, (List.append_assoc _ _ _).symm, (List.append_assoc _ _ _).symm,
        hstart, hstop⟩

section Rendered

variable {settings : Settings} {text blanks after : Text} {index : SiteIndex} {tree : Tree}
variable {site inner : Site} {layout : Layout} {indentation : Text} {values : List Text}

/-- The array of a site, replaced by the tree of a rendering. -/
def renderingAt (layout : Layout) (indentation : Text) (values : List Text) (site : Site)
    (start : Nat) : Option Replacement :=
  if start = site.valueStart then
    some ⟨site.identifier, layout.renderTree indentation values⟩
  else
    none

theorem flat_renderingAt (hblank : AllBlank indentation) :
    Flat (renderingAt layout indentation values site) := by
  apply flat_of_renderTree
  intro start new hnew
  rw [renderingAt] at hnew
  split at hnew
  · cases hnew
    exact ⟨indentation, values, hblank, rfl⟩
  · cases hnew

/-- The patch of a site in the tree with the rendering. -/
def renderingPatch (layout : Layout) (indentation : Text) (values : List Text) (site : Site) :
    Patch :=
  ⟨site.identifier, site.valueStart, site.valueEnd, layout.render indentation values⟩

theorem patches_renderingAt {offset : Nat} (hsite : site ∈ tree.sites settings offset) :
    tree.patches (renderingAt layout indentation values site) offset =
      [renderingPatch layout indentation values site] := by
  have hmade : MadeFor settings (renderingAt layout indentation values site) tree offset
      [renderingPatch layout indentation values site] := by
    constructor
    · intro patch hpatch
      obtain rfl := List.mem_singleton.mp hpatch
      refine ⟨site, hsite, _, if_pos rfl, ?_⟩
      rw [Replacement.patchAt, Layout.text_renderTree, renderingPatch]
    · intro start new hnew
      rw [renderingAt] at hnew
      split at hnew
      · rename_i hstart
        exact ⟨_, List.mem_singleton_self _, hstart.symm⟩
      · cases hnew
  have hordered : (ordered [renderingPatch layout indentation values site]).reverse =
      [renderingPatch layout indentation values site] := by
    rw [ordered, List.mergeSort_singleton, List.reverse_singleton]
  have hascends : Ascends (ordered [renderingPatch layout indentation values site]).reverse := by
    rw [hordered]
    exact List.pairwise_singleton _ _
  rw [← hmade.reverse_ordered_eq hascends, hordered]

/-- If the array of a site reads like a rendering, then replacing it by the tree of
the rendering leaves the text as it is. -/
theorem Located.isDocument_renderingAt
    (hlocated : Located settings text index blanks tree after) (hblank : AllBlank indentation)
    (hsite : site ∈ index.entries)
    (hraw : site.rawValue? text = some (layout.render indentation values)) :
    IsDocument settings text blanks
      (tree.replace (renderingAt layout indentation values site) blanks.size) after := by
  have hflat : Flat (renderingAt layout indentation values site) := flat_renderingAt hblank
  have hrewrites :=
    Tree.rewrites_patches (renderingAt layout indentation values site) blanks.size tree
  rw [patches_renderingAt (hlocated.mem_sites hsite)] at hrewrites
  obtain ⟨before, exchanged, behind, htree, hnew, hstart, hstop⟩ := hrewrites.exists_of_singleton
  dsimp only [renderingPatch] at hnew hstart hstop
  have hexchanged : exchanged = layout.render indentation values := by
    have hat : text.HasAt 0 exchanged site.valueStart := by
      refine ⟨blanks ++ before, behind ++ after, ?_, ?_⟩
      · rw [hlocated.document.text_eq, htree]
        simp only [List.append_assoc]
      · rw [Nat.zero_add, Text.size_append, hstart]
    rw [Site.rawValue?, hstop, hat.slice?_eq_some] at hraw
    exact Option.some.inj hraw
  refine ⟨?_, hlocated.document.allBlank_before, hlocated.document.allBlank_after,
    Tree.wellFormed_replace hflat _ tree hlocated.document.wellFormed,
    Nat.le_trans (Tree.depth_replace_le hflat _ tree) hlocated.document.depth_le⟩
  rw [hnew, ← hexchanged, ← htree]
  exact hlocated.document.text_eq

/-- No site lies inside an array that reads like a rendering: a text has its sites
from whatever tree it is taken for, and with the tree of the rendering in the place
of the array it has none inside. -/
theorem Located.not_within_of_rawValue? (hlocated : Located settings text index blanks tree after)
    (hlocate : SiteIndex.locate settings text = .ok index)
    (hfields : settings.identifierField ≠ settings.targetField) (hblank : AllBlank indentation)
    (hsite : site ∈ index.entries) (hinner : inner ∈ index.entries)
    (hraw : site.rawValue? text = some (layout.render indentation values)) :
    ¬ inner.Within site := by
  have hrewrites :=
    Tree.rewrites_patches (renderingAt layout indentation values site) blanks.size tree
  have hmoves : List.Forall₂ (Site.MovesTo _)
      ((tree.sites settings blanks.size).filter (Site.Survives _))
      ((tree.replace _ blanks.size).sites settings blanks.size) :=
    Tree.sites_moveTo (flat_renderingAt hblank) tree hrewrites.part
  rw [patches_renderingAt (hlocated.mem_sites hsite)] at hmoves
  have hagain := SiteIndex.located_of_isDocument hfields hlocate
    (hlocated.isDocument_renderingAt hblank hsite hraw)
  have hall := List.length_filter_eq_length_iff.mp <| by
    rw [hmoves.length_eq, ← hagain.entries_perm.length_eq, hlocated.entries_perm.length_eq]
  intro hwithin
  have hsurvives := of_decide_eq_true (hall inner (hlocated.mem_sites hinner))
  exact hsurvives _ (List.mem_singleton_self _) ⟨hwithin.low_lt, hwithin.lt_high⟩

end Rendered

/-! ## The desired lists in the patched text -/

namespace Patching

variable {settings : Settings} {layout : Layout} {text out : Text} {desired : Desired}
variable {index again : SiteIndex} {patches : List Patch} {blanks after : Text} {tree : Tree}
variable {patch : Patch} {identifier : Text} {values : List Text} {site : Site}
variable (hpatching : Patching settings layout text out desired index patches blanks tree after)
variable (hagain : SiteIndex.locate settings out = .ok again)

include hpatching

/-- Where a desired list is rendered already, no patch lies inside the array. -/
theorem not_inside_of_rawValue? {rendered : Text} (hfind : index.find? identifier = some site)
    (hdesired : desired.find? identifier = some (identifier, values))
    (hrender : renderAt text layout site values = .ok rendered)
    (hraw : site.rawValue? text = some rendered) (hpatch : patch ∈ patches) :
    ¬ (site.valueStart ≤ patch.start ∧ patch.stop ≤ site.valueEnd) := by
  rintro ⟨hbefore, hbehind⟩
  obtain ⟨other, otherValues, hother, hotherDesired, hrenders⟩ :=
    exists_renders_of_mem hpatching.build hpatch
  obtain ⟨hsite, hname⟩ := Catalog.find?_eq_some_iff.mp hfind
  obtain ⟨hotherSite, hotherName⟩ := Catalog.find?_eq_some_iff.mp hother
  have hotherStart := hrenders.start_eq
  have hotherStop := hrenders.stop_eq
  have hbetween := hpatching.located.between_of_mem hsite
  have hkey := hbetween.keyStart_lt
  have hotherBetween := hpatching.located.between_of_mem hotherSite
  have hotherKey := hotherBetween.keyStart_lt
  have hotherValue := hotherBetween.valueStart_lt
  rcases hpatching.located.nested_of_mem hsite hotherSite with rfl | hapart | hwithin | hwithin
  · -- The patch of this very entry would change something.
    obtain rfl : patch.identifier = identifier := hotherName.symm.trans hname
    cases hdesired.symm.trans hotherDesired
    cases hrender.symm.trans hrenders.renderAt_eq
    exact hrenders.ne_current hraw
  · rcases hapart with hapart | hapart
    · omega
    · omega
  · have hlow := hwithin.low_lt
    omega
  · obtain ⟨-, -, hfields, -⟩ := settings.fault?_eq_none_iff.mp hpatching.valid
    obtain ⟨indentation, hindentation, rfl⟩ := renderAt_eq_ok_iff.mp hrender
    exact hpatching.located.not_within_of_rawValue? hpatching.locate hfields
      (Text.allBlank_of_indentationAt? hindentation) hsite hotherSite hraw hwithin

/-- A desired list whose site survives is rendered in the patched text, as for the
text before. -/
theorem exists_rendered_of_survives (hagain : SiteIndex.locate settings out = .ok again)
    (hfind : index.find? identifier = some site)
    (hdesired : desired.find? identifier = some (identifier, values))
    (hsurvives : site.Survives patches) :
    ∃ moved indentation, again.find? identifier = some moved ∧ site.MovesTo patches moved ∧
      text.indentationAt? site.keyStart = some indentation ∧
      moved.rawValue? out = some (layout.render indentation values) := by
  obtain ⟨other, rendered, hother, hrender, hwritten⟩ :=
    exists_renderAt_of_mem hpatching.build hdesired
  cases hfind.symm.trans hother
  obtain ⟨indentation, hindentation, rfl⟩ := renderAt_eq_ok_iff.mp hrender
  rcases hwritten with hraw | hpatch
  · obtain ⟨moved, raw, hmoved, hmoves, hold, hnew⟩ :=
      hpatching.rawValue?_of_survives hagain hfind hsurvives fun patch hpatch =>
        hpatching.not_inside_of_rawValue? hfind hdesired hrender hraw hpatch
    cases hraw.symm.trans hold
    exact ⟨moved, indentation, hmoved, hmoves, hindentation, hnew⟩
  · obtain ⟨moved, hmoved, hmoves, hnew⟩ := hpatching.rawValue?_of_mem hagain hpatch hfind
    exact ⟨moved, indentation, hmoved, hmoves, hindentation, hnew⟩

end Patching

/-- Every desired identifier has a site.  If no patch covers the site, then the
desired list is read back from the patched text; otherwise the identifier is gone,
and no patch was built for it. -/
theorem readBack_of_patchText {settings : Settings} {text out : Text} {desired : Desired}
    (hpatch : patchText settings text desired = .ok out) :
    ∃ index patches again, SiteIndex.locate settings text = .ok index ∧
      Patch.buildAll text (Layout.detect text) index desired = .ok patches ∧
      SiteIndex.locate settings out = .ok again ∧
      ∀ identifier values, desired.find? identifier = some (identifier, values) →
        ∃ site, index.find? identifier = some site ∧
          (site.Survives patches → ∃ moved, again.find? identifier = some moved ∧
            moved.readValues settings out = .ok (some values)) ∧
          (¬ site.Survives patches → again.find? identifier = none ∧
            ∀ patch ∈ patches, patch.identifier ≠ identifier) := by
  obtain ⟨index, patches, blanks, tree, after, hpatching⟩ := exists_patching hpatch
  obtain ⟨again, hagain, -⟩ := hpatching.exists_locate
  refine ⟨index, patches, again, hpatching.locate, hpatching.build, hagain, ?_⟩
  intro identifier values hdesired
  obtain ⟨site, -, hfind, -⟩ := exists_renderAt_of_mem hpatching.build hdesired
  refine ⟨site, hfind, ?_, ?_⟩
  · intro hsurvives
    obtain ⟨moved, indentation, hmoved, -, hindentation, hraw⟩ :=
      hpatching.exists_rendered_of_survives hagain hfind hdesired hsurvives
    exact ⟨moved, hmoved, Site.readValues_of_rawValue? hpatching.valid
      (Text.allBlank_of_indentationAt? hindentation) hraw⟩
  · intro hcovered
    refine ⟨?_, ?_⟩
    · rw [← Option.not_isSome_iff_eq_none, Catalog.isSome_find?_iff,
        hpatching.contains_again_iff hagain]
      rintro ⟨other, hother, hsurvives⟩
      cases hfind.symm.trans hother
      exact hcovered hsurvives
    · rintro patch hpatch rfl
      exact hcovered (hpatching.survives_of_mem hpatch hfind)

/-- An object inside the array of another one.  Emptying both arrays changes only
the outer one, and the inner object is gone. -/
theorem patchText_nested_no_change :
    patchText {} "\x7b\"id\":\"o\",\"tags\":[\x7b\"id\":\"i\",\"tags\":[]\x7d]\x7d".toList
      (Catalog.ofList [(['o'], []), (['i'], [])]) =
    .ok "\x7b\"id\":\"o\",\"tags\":[]\x7d".toList := by
  decide +kernel

/-- Of the two desired lists, the one of the outer object is read back. -/
theorem readBack_of_nested_no_change :
    ∃ text out desired,
      text = "\x7b\"id\":\"o\",\"tags\":[\x7b\"id\":\"i\",\"tags\":[]\x7d]\x7d".toList ∧
      desired = Catalog.ofList [(['o'], []), (['i'], [])] ∧
      out = "\x7b\"id\":\"o\",\"tags\":[]\x7d".toList ∧
      patchText {} text desired = .ok out ∧ desired.find? ['i'] = some (['i'], []) ∧
      ∃ index patches again, SiteIndex.locate {} text = .ok index ∧
        Patch.buildAll text (Layout.detect text) index desired = .ok patches ∧
        SiteIndex.locate {} out = .ok again ∧
        ∀ identifier values, desired.find? identifier = some (identifier, values) →
          ∃ site, index.find? identifier = some site ∧
            (site.Survives patches → ∃ moved, again.find? identifier = some moved ∧
              moved.readValues {} out = .ok (some values)) ∧
            (¬ site.Survives patches → again.find? identifier = none ∧
              ∀ patch ∈ patches, patch.identifier ≠ identifier) :=
  ⟨_, _, _, rfl, rfl, rfl, patchText_nested_no_change, rfl,
    readBack_of_patchText patchText_nested_no_change⟩

/-- Patching a text can succeed and lose a desired identifier. -/
theorem exists_desired_lost :
    ∃ text out desired again,
      text = "\x7b\"id\":\"o\",\"tags\":[\x7b\"id\":\"i\",\"tags\":[]\x7d]\x7d".toList ∧
      desired = Catalog.ofList [(['o'], []), (['i'], [])] ∧
      out = "\x7b\"id\":\"o\",\"tags\":[]\x7d".toList ∧
      patchText {} text desired = .ok out ∧ desired.find? ['i'] = some (['i'], []) ∧
      SiteIndex.locate {} out = .ok again ∧ again.find? ['i'] = none := by
  have hlookup : (SiteIndex.locate {} "\x7b\"id\":\"o\",\"tags\":[]\x7d".toList).map
      (fun index => index.find? ['i']) = .ok none := by
    decide +kernel
  cases hlocate : SiteIndex.locate {} "\x7b\"id\":\"o\",\"tags\":[]\x7d".toList with
  | error error =>
      rw [hlocate] at hlookup
      cases hlookup
  | ok again =>
      rw [hlocate] at hlookup
      exact ⟨_, _, _, again, rfl, rfl, rfl, patchText_nested_no_change, rfl, hlocate,
        Except.ok.inj hlookup⟩

end ArrayPatch
