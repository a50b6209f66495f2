import ArrayPatch.Proofs.Document.Located
import ArrayPatch.Proofs.Grammar.Covered
import ArrayPatch.Proofs.Patch.Build
import ArrayPatch.Proofs.Rendering

/-!
# Patching a text replaces arrays in its tree

When a text is patched, its syntax tree is the same as before except for the
arrays that patches were built for; these are replaced by the trees of what the
patches write.  `Patching` states this with everything that it depends on, so
that properties of the result can be read off the two trees.
-/

namespace ArrayPatch

open Grammar Patch

theorem Text.isIndent_of_indentationAt? {text indentation : Text} {offset : Nat}
    (hindentation : text.indentationAt? offset = some indentation) :
    ∀ c ∈ indentation, isIndent c := by
  obtain ⟨⟨before, behind⟩, -, rfl⟩ := Option.map_eq_some_iff.mp hindentation
  intro c hc
  exact List.all_eq_true.mp List.all_takeWhile c hc

theorem Text.allBlank_of_indentationAt? {text indentation : Text} {offset : Nat}
    (hindentation : text.indentationAt? offset = some indentation) : AllBlank indentation :=
  fun c hc => isBlank_of_isIndent (isIndent_of_indentationAt? hindentation c hc)

theorem flat_of_renderTree {layout : Layout} {newArray? : Nat → Option Replacement}
    (hrendered : ∀ start new, newArray? start = some new →
      ∃ indentation values, AllBlank indentation ∧
        new.array = layout.renderTree indentation values) : Flat newArray? := by
  constructor
  · intro start new hnew
    obtain ⟨indentation, values, -, harray⟩ := hrendered start new hnew
    rw [harray]
    exact Layout.isArray_renderTree _ indentation values
  · intro start new hnew
    obtain ⟨indentation, values, hblank, harray⟩ := hrendered start new hnew
    rw [harray]
    exact Layout.wellFormed_renderTree _ hblank values
  · intro start new hnew
    obtain ⟨indentation, values, -, harray⟩ := hrendered start new hnew
    rw [harray, Layout.depth_renderTree]
  · intro start new hnew settings offset
    obtain ⟨indentation, values, -, harray⟩ := hrendered start new hnew
    rw [harray, Layout.sites_renderTree]

namespace Patch

variable (text : Text) (layout : Layout) (index : SiteIndex) (desired : Desired)

/-- The tree of what the patch of an identifier writes. -/
def newArray? (identifier : Text) : Option Tree := do
  let site ← index.find? identifier
  let (_, values) ← desired.find? identifier
  let indentation ← text.indentationAt? site.keyStart
  return layout.renderTree indentation values

/-- The new arrays by the offsets at which patches put them. -/
def newArrayAt? (patches : List Patch) (start : Nat) : Option Replacement := do
  let patch ← patches.find? fun patch => patch.start = start
  let array ← newArray? text layout index desired patch.identifier
  return ⟨patch.identifier, array⟩

variable {text layout index desired} {patches : List Patch} {patch : Patch}

/-- New arrays are renderings of desired lists. -/
theorem newArray?_eq_some_iff {identifier : Text} {array : Tree} :
    newArray? text layout index desired identifier = some array ↔
      ∃ site values indentation, index.find? identifier = some site ∧
        desired.find? identifier = some (identifier, values) ∧
        text.indentationAt? site.keyStart = some indentation ∧
        array = layout.renderTree indentation values := by
  simp only [newArray?, Option.bind_eq_bind, Option.bind_eq_some_iff, Prod.exists]
  constructor
  · rintro ⟨site, hsite, name, values, hdesired, indentation, hindentation, harray⟩
    obtain rfl : name = identifier := (Catalog.find?_eq_some_iff.mp hdesired).2
    exact ⟨site, values, indentation, hsite, hdesired, hindentation, (Option.some.inj harray).symm⟩
  · rintro ⟨site, values, indentation, hsite, hdesired, hindentation, rfl⟩
    exact ⟨site, hsite, identifier, values, hdesired, indentation, hindentation, rfl⟩

theorem exists_of_newArrayAt? {start : Nat} {new : Replacement}
    (hnew : newArrayAt? text layout index desired patches start = some new) :
    ∃ patch ∈ patches, patch.start = start ∧ new.identifier = patch.identifier ∧
      newArray? text layout index desired patch.identifier = some new.array := by
  simp only [newArrayAt?, Option.bind_eq_bind, Option.bind_eq_some_iff] at hnew
  obtain ⟨patch, hfind, array, harray, hnew⟩ := hnew
  cases hnew
  have hstart : patch.start = start := by simpa using List.find?_some hfind
  exact ⟨patch, List.mem_of_find?_eq_some hfind, hstart, rfl, harray⟩

theorem flat_newArrayAt? : Flat (newArrayAt? text layout index desired patches) := by
  apply flat_of_renderTree
  intro offset new hnew
  obtain ⟨patch, -, -, -, harray⟩ := exists_of_newArrayAt? hnew
  obtain ⟨site, values, indentation, -, -, hindentation, harray⟩ :=
    newArray?_eq_some_iff.mp harray
  exact ⟨indentation, values, Text.allBlank_of_indentationAt? hindentation, harray⟩

/-- A patch that renders an entry writes the new array of its identifier. -/
theorem Renders.exists_newArray? {site : Site} {values : List Text}
    (hrenders : patch.Renders text layout site values)
    (hsite : index.find? patch.identifier = some site)
    (hdesired : desired.find? patch.identifier = some (patch.identifier, values)) :
    ∃ array, newArray? text layout index desired patch.identifier = some array ∧
      patch.text = array.text := by
  obtain ⟨indentation, hindentation, htext⟩ := renderAt_eq_ok_iff.mp hrenders.renderAt_eq
  refine ⟨_, newArray?_eq_some_iff.mpr ⟨site, values, indentation, hsite, hdesired, hindentation,
    rfl⟩, ?_⟩
  rw [htext, Layout.text_renderTree]

section Built

variable {settings : Settings} {tree : Tree} {offset : Nat}

/-- The patches that are built have a site in the tree and range over its array. -/
theorem exists_site_of_mem (hindex : index.entries.Perm (tree.sites settings offset))
    (hbuild : buildAll text layout index desired = .ok patches)
    (hpatch : patch ∈ patches) :
    ∃ site ∈ tree.sites settings offset, index.find? patch.identifier = some site ∧
      patch.start = site.valueStart ∧ patch.stop = site.valueEnd := by
  obtain ⟨site, values, hsite, -, hrenders⟩ := exists_renders_of_mem hbuild hpatch
  refine ⟨site, ?_, hsite, hrenders.start_eq, hrenders.stop_eq⟩
  exact hindex.mem_iff.mp (Catalog.find?_eq_some_iff.mp hsite).1

/-- The patches that are built have no empty ranges. -/
theorem start_lt_stop_of_mem (hindex : index.entries.Perm (tree.sites settings offset))
    (hbuild : buildAll text layout index desired = .ok patches)
    (hpatch : patch ∈ patches) : patch.start < patch.stop := by
  obtain ⟨site, hsite, -, hstart, hstop⟩ := exists_site_of_mem hindex hbuild hpatch
  rw [hstart, hstop]
  exact (Tree.between_of_mem_sites hsite).valueStart_lt

/-- If no neighbours among the patches that are built overlap, no two of them do. -/
theorem ascends_of_overlap?_eq_none (hindex : index.entries.Perm (tree.sites settings offset))
    (hbuild : buildAll text layout index desired = .ok patches)
    (hoverlap : overlap? (ordered patches) = none) : Ascends (ordered patches).reverse := by
  apply ascends_reverse_iff.mpr
  apply descends_of_overlap?_eq_none _ hoverlap
  intro patch hpatch
  exact Nat.le_of_lt (start_lt_stop_of_mem hindex hbuild (mem_ordered_iff.mp hpatch))

theorem find?_start_eq_some (hrange : ∀ patch ∈ patches, patch.start < patch.stop)
    (hascends : Ascends (ordered patches).reverse) (hpatch : patch ∈ patches) :
    (patches.find? fun other => other.start = patch.start) = some patch := by
  have hordered : ∀ {other}, other ∈ patches → other ∈ (ordered patches).reverse :=
    fun hother => List.mem_reverse.mpr (mem_ordered_iff.mpr hother)
  cases hfind : patches.find? fun other => other.start = patch.start with
  | none => simpa using List.find?_eq_none.mp hfind patch hpatch
  | some other =>
      have hother := List.mem_of_find?_eq_some hfind
      have hstart : other.start = patch.start := by simpa using List.find?_some hfind
      have hotherRange := hrange other hother
      have hpatchRange := hrange patch hpatch
      rw [hascends.eq_of_overlap (hordered hother) (hordered hpatch) (by omega) (by omega)]

/-- Patches that are built for the sites of a tree and do not overlap are made
for the new arrays. -/
theorem madeFor_newArrayAt? (hindex : index.entries.Perm (tree.sites settings offset))
    (hbuild : buildAll text layout index desired = .ok patches)
    (hascends : Ascends (ordered patches).reverse) :
    MadeFor settings (newArrayAt? text layout index desired patches) tree offset patches := by
  have hrange : ∀ patch ∈ patches, patch.start < patch.stop :=
    fun patch hpatch => start_lt_stop_of_mem hindex hbuild hpatch
  constructor
  · intro patch hpatch
    obtain ⟨site, values, hsite, hdesired, hrenders⟩ := exists_renders_of_mem hbuild hpatch
    obtain ⟨array, harray, htext⟩ := hrenders.exists_newArray? hsite hdesired
    refine ⟨site, ?_, ⟨patch.identifier, array⟩, ?_, ?_⟩
    · exact hindex.mem_iff.mp (Catalog.find?_eq_some_iff.mp hsite).1
    · rw [newArrayAt?, ← hrenders.start_eq, find?_start_eq_some hrange hascends hpatch]
      simp [harray]
    · rw [Replacement.patchAt, ← hrenders.start_eq, ← hrenders.stop_eq, ← htext]
  · intro start new hnew
    obtain ⟨patch, hpatch, hstart, -⟩ := exists_of_newArrayAt? hnew
    exact ⟨patch, hpatch, hstart⟩

/-- Patches that are built and do not overlap are those that the tree lists. -/
theorem reverse_ordered_eq_patches (hindex : index.entries.Perm (tree.sites settings offset))
    (hbuild : buildAll text layout index desired = .ok patches)
    (hascends : Ascends (ordered patches).reverse) :
    (ordered patches).reverse =
      tree.patches (newArrayAt? text layout index desired patches) offset :=
  (madeFor_newArrayAt? hindex hbuild hascends).reverse_ordered_eq hascends

/-- Applying patches that do not overlap gives the text of the new tree. -/
theorem spliceAll_ordered_eq {blanks after : Text}
    (hlocated : Located settings text index blanks tree after)
    (hbuild : buildAll text layout index desired = .ok patches)
    (hascends : Ascends (ordered patches).reverse) :
    spliceAll text (ordered patches) = .ok (blanks ++
      (tree.replace (newArrayAt? text layout index desired patches) blanks.size).text ++
        after) := by
  have hrewrites :=
    Tree.rewrites_patches (newArrayAt? text layout index desired patches) blanks.size tree
  have hall := hrewrites.spliceAll_reverse blanks after rfl []
  rwa [← reverse_ordered_eq_patches hlocated.entries_perm hbuild hascends, List.reverse_reverse,
    List.append_nil, ← hlocated.document.text_eq] at hall

end Built

end Patch

/-! ## The two trees -/

/-- A text is a document, and patching it replaces the arrays of the sites that
patches are built for by what the patches write. -/
structure Patching (settings : Settings) (layout : Layout) (text out : Text) (desired : Desired)
    (index : SiteIndex) (patches : List Patch) (blanks : Text) (tree : Tree) (after : Text) :
    Prop where
  valid : settings.fault? = none
  locate : SiteIndex.locate settings text = .ok index
  located : Located settings text index blanks tree after
  build : buildAll text layout index desired = .ok patches
  patches_perm :
    patches.Perm (tree.patches (newArrayAt? text layout index desired patches) blanks.size)
  out_eq : out = blanks ++
    (tree.replace (newArrayAt? text layout index desired patches) blanks.size).text ++ after

/-- Applying the patches of a text in any layout replaces arrays in whatever tree the
text is taken for. -/
theorem patching_of_applyAll {settings : Settings} {layout : Layout}
    {text out blanks after : Text} {desired : Desired} {index : SiteIndex} {patches : List Patch}
    {tree : Tree} (hvalid : settings.fault? = none)
    (hlocate : SiteIndex.locate settings text = .ok index)
    (hbuild : buildAll text layout index desired = .ok patches)
    (happly : applyAll patches text = .ok out)
    (hdocument : IsDocument settings text blanks tree after) :
    Patching settings layout text out desired index patches blanks tree after := by
  obtain ⟨-, -, hfields, -⟩ := (settings.fault?_eq_none_iff).mp hvalid
  have hlocated := SiteIndex.located_of_isDocument hfields hlocate hdocument
  have hrange : ∀ patch ∈ patches, patch.start ≤ patch.stop := fun patch hpatch =>
    Nat.le_of_lt (start_lt_stop_of_mem hlocated.entries_perm hbuild hpatch)
  obtain ⟨hascends, hsplice⟩ := applyAll_eq_ok hrange happly
  refine ⟨hvalid, hlocate, hlocated, hbuild, ?_, ?_⟩
  · rw [← reverse_ordered_eq_patches hlocated.entries_perm hbuild hascends]
    exact ((List.reverse_perm _).trans (ordered_perm patches)).symm
  · rw [spliceAll_ordered_eq hlocated hbuild hascends] at hsplice
    exact (Except.ok.inj hsplice).symm

/-- Patching a text replaces arrays in whatever tree the text is taken for. -/
theorem exists_patching_of_isDocument {settings : Settings} {text out blanks after : Text}
    {desired : Desired} {tree : Tree} (hpatch : patchText settings text desired = .ok out)
    (hdocument : IsDocument settings text blanks tree after) :
    ∃ index patches,
      Patching settings (Layout.detect text) text out desired index patches blanks tree after := by
  obtain ⟨hvalid, index, hlocate, patches, hbuild, happly⟩ := patchText_eq_ok_iff.mp hpatch
  exact ⟨index, patches, patching_of_applyAll hvalid hlocate hbuild happly hdocument⟩

/-- A text that is patched is taken apart. -/
theorem exists_patching {settings : Settings} {text out : Text} {desired : Desired}
    (hpatch : patchText settings text desired = .ok out) :
    ∃ index patches blanks tree after,
      Patching settings (Layout.detect text) text out desired index patches blanks tree after := by
  obtain ⟨-, index, hlocate, -⟩ := patchText_eq_ok_iff.mp hpatch
  obtain ⟨found, hscan, -⟩ := SiteIndex.exists_document_of_locate hlocate
  obtain ⟨blanks, tree, after, hdocument⟩ := Scan.exists_isDocument_of_document hscan
  obtain ⟨index, patches, hpatching⟩ := exists_patching_of_isDocument hpatch hdocument
  exact ⟨index, patches, blanks, tree, after, hpatching⟩

end ArrayPatch
