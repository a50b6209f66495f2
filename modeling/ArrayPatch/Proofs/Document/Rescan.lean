import ArrayPatch.Proofs.Document.Patching
import ArrayPatch.Proofs.Scan.Strings

/-!
# Scanning a patched text again

A patched text is a document again.  Its sites are those of the text before
that no patch covers, with their offsets moved.  At the sites of the patches the
desired lists are read, and an array that no patch touches reads as before.
-/

namespace ArrayPatch

open Grammar Patch

variable {patches more : List Patch} {site moved : Site}

theorem Site.MovesTo.perm (hmoves : site.MovesTo patches moved) (hperm : patches.Perm more) :
    site.MovesTo more moved where
  identifier_eq := hmoves.identifier_eq
  keyStart := by
    have hkey := hmoves.keyStart
    rwa [Moves, changeBefore_perm hperm] at hkey
  valueStart := by
    have hvalue := hmoves.valueStart
    rwa [Moves, changeBefore_perm hperm] at hvalue
  valueEnd := by
    have hend := hmoves.valueEnd
    rwa [Moves, changeBefore_perm hperm] at hend

theorem Site.MovesTo.eq {other : Site} (hmoves : site.MovesTo patches moved)
    (hother : site.MovesTo patches other) : moved = other := by
  rw [Site.mk.injEq]
  exact ⟨hmoves.identifier_eq.trans hother.identifier_eq.symm, hmoves.keyStart.eq hother.keyStart,
    hmoves.valueStart.eq hother.valueStart, hmoves.valueEnd.eq hother.valueEnd⟩

theorem Site.survives_perm (hperm : patches.Perm more) :
    site.Survives patches ↔ site.Survives more := by
  simp only [Site.Survives, hperm.mem_iff]

/-- From an array that reads like a rendering the rendered list is read. -/
theorem Site.readValues_of_rawValue? {settings : Settings} {text indentation : Text}
    {layout : Layout} {values : List Text} (hvalid : settings.fault? = none)
    (hblank : AllBlank indentation)
    (hraw : site.rawValue? text = some (layout.render indentation values)) :
    site.readValues settings text = .ok (some values) := by
  obtain ⟨-, -, -, hdepth⟩ := settings.fault?_eq_none_iff.mp hvalid
  obtain ⟨before, behind, htext, hstart, -⟩ := Text.slice?_eq_some_iff.mp hraw
  rw [← Layout.text_renderTree] at htext
  rw [← Layout.strings?_renderTree layout indentation]
  apply Site.readValues_eq_ok ⟨before, behind, htext, by rw [Nat.zero_add, hstart]⟩
  · exact Layout.isArray_renderTree _ _ _
  · exact Layout.wellFormed_renderTree _ hblank _
  · rwa [Layout.depth_renderTree]

namespace Patching

variable {settings : Settings} {layout : Layout} {text out : Text} {desired : Desired}
variable {index : SiteIndex}
variable {blanks after : Text} {tree : Tree} {patch : Patch} {identifier : Text}
variable (hpatching : Patching settings layout text out desired index patches blanks tree after)

include hpatching

/-- The patches rewrite the text from left to right. -/
theorem exists_rewrites : ∃ ascending, patches.Perm ascending ∧ Rewrites ascending 0 text out := by
  refine ⟨_, hpatching.patches_perm, ?_⟩
  have htree :=
    Tree.rewrites_patches (newArrayAt? text layout index desired patches) blanks.size tree
  rw [← Nat.zero_add blanks.size] at htree
  have hbefore := htree.keep blanks
  have hall := hbefore.append (.done _ after)
  rw [List.append_nil, Nat.zero_add] at hall
  rwa [← hpatching.located.document.text_eq, ← hpatching.out_eq] at hall

theorem isDocument : IsDocument settings out blanks
    (tree.replace (newArrayAt? text layout index desired patches) blanks.size) after where
  text_eq := hpatching.out_eq
  allBlank_before := hpatching.located.document.allBlank_before
  allBlank_after := hpatching.located.document.allBlank_after
  wellFormed :=
    Tree.wellFormed_replace flat_newArrayAt? _ tree hpatching.located.document.wellFormed
  depth_le :=
    Nat.le_trans (Tree.depth_replace_le flat_newArrayAt? _ tree) hpatching.located.document.depth_le

/-- The sites of the new tree are the surviving sites of the old one. -/
theorem sites_moveTo :
    List.Forall₂ (Site.MovesTo patches)
      ((tree.sites settings blanks.size).filter (Site.Survives patches))
      ((tree.replace (newArrayAt? text layout index desired patches) blanks.size).sites settings
        blanks.size) := by
  have hpart := (Tree.rewrites_patches (newArrayAt? text layout index desired patches) blanks.size
    tree).part
  have hfilter : (tree.sites settings blanks.size).filter (Site.Survives patches) =
      (tree.sites settings blanks.size).filter
        (Site.Survives
          (tree.patches (newArrayAt? text layout index desired patches) blanks.size)) := by
    apply List.filter_congr
    intro site _
    rw [decide_eq_decide]
    exact Site.survives_perm hpatching.patches_perm
  rw [hfilter]
  apply (Tree.sites_moveTo flat_newArrayAt? tree hpart).imp
  intro site moved hmoved
  exact hmoved.perm hpatching.patches_perm.symm

/-- The identifiers of the new tree are those of the sites that survive. -/
theorem map_identifier_sites :
    ((tree.replace (newArrayAt? text layout index desired patches) blanks.size).sites settings
        blanks.size).map Site.identifier =
      ((tree.sites settings blanks.size).filter (Site.Survives patches)).map Site.identifier := by
  apply Eq.symm
  rw [← List.forall₂_eq_eq_eq, List.forall₂_map_left_iff, List.forall₂_map_right_iff]
  apply hpatching.sites_moveTo.imp
  intro site moved hmoves
  exact hmoves.identifier_eq.symm

/-- The patched text is located: its index holds the sites of the new tree. -/
theorem exists_locate :
    ∃ again, SiteIndex.locate settings out = .ok again ∧
      again.entries.Perm ((tree.replace (newArrayAt? text layout index desired patches)
        blanks.size).sites settings blanks.size) := by
  obtain ⟨-, -, hfields, -⟩ := settings.fault?_eq_none_iff.mp hpatching.valid
  obtain ⟨found, hscan, hsites⟩ := Scan.exists_document_of_isDocument hpatching.isDocument
  have hnodup : (((tree.replace (newArrayAt? text layout index desired patches) blanks.size).sites
      settings blanks.size).map Site.identifier).Nodup := by
    rw [hpatching.map_identifier_sites]
    apply List.Nodup.sublist (List.filter_sublist.map Site.identifier)
    rw [← (hpatching.located.entries_perm.map Site.identifier).nodup_iff]
    exact index.nodup_map_name
  rw [← hsites hfields] at hnodup ⊢
  rw [SiteIndex.locate_eq_ofSites hscan]
  exact SiteIndex.exists_ofSites_of_nodup hnodup

/-! ## The index of the patched text -/

section Again

variable {again : SiteIndex} (hagain : SiteIndex.locate settings out = .ok again)

include hagain

theorem entries_perm_again :
    again.entries.Perm ((tree.replace (newArrayAt? text layout index desired patches)
      blanks.size).sites settings blanks.size) := by
  obtain ⟨located, hlocate, hperm⟩ := hpatching.exists_locate
  cases hagain.symm.trans hlocate
  exact hperm

/-- A site that survives has moved into the new index. -/
theorem exists_moved (hsite : site ∈ index.entries) (hsurvives : site.Survives patches) :
    ∃ moved ∈ again.entries, site.MovesTo patches moved := by
  have hkept : site ∈ (tree.sites settings blanks.size).filter (Site.Survives patches) := by
    apply List.mem_filter.mpr
    exact ⟨hpatching.located.entries_perm.mem_iff.mp hsite, decide_eq_true hsurvives⟩
  obtain ⟨moved, hmoved, hmoves⟩ := exists_mem_of_forall₂ hpatching.sites_moveTo.flip hkept
  exact ⟨moved, (hpatching.entries_perm_again hagain).mem_iff.mpr hmoved, hmoves⟩

theorem exists_survivor (hmoved : moved ∈ again.entries) :
    ∃ site ∈ index.entries, site.Survives patches ∧ site.MovesTo patches moved := by
  have hnew := (hpatching.entries_perm_again hagain).mem_iff.mp hmoved
  obtain ⟨site, hkept, hmoves⟩ := exists_mem_of_forall₂ hpatching.sites_moveTo hnew
  obtain ⟨hsite, hsurvives⟩ := List.mem_filter.mp hkept
  exact ⟨site, hpatching.located.entries_perm.mem_iff.mpr hsite, of_decide_eq_true hsurvives,
    hmoves⟩

theorem contains_again_iff :
    again.contains identifier ↔
      ∃ site, index.find? identifier = some site ∧ site.Survives patches := by
  rw [Catalog.contains_iff]
  constructor
  · rintro ⟨moved, hmoved, rfl⟩
    obtain ⟨site, hsite, hsurvives, hmoves⟩ := hpatching.exists_survivor hagain hmoved
    exact ⟨site, Catalog.find?_eq_some_iff.mpr ⟨hsite, hmoves.identifier_eq.symm⟩, hsurvives⟩
  · rintro ⟨site, hfind, hsurvives⟩
    obtain ⟨hsite, rfl⟩ := Catalog.find?_eq_some_iff.mp hfind
    obtain ⟨moved, hmoved, hmoves⟩ := hpatching.exists_moved hagain hsite hsurvives
    exact ⟨moved, hmoved, hmoves.identifier_eq⟩

theorem exists_find?_again (hfind : index.find? identifier = some site)
    (hsurvives : site.Survives patches) :
    ∃ moved, again.find? identifier = some moved ∧ site.MovesTo patches moved := by
  obtain ⟨hsite, rfl⟩ := Catalog.find?_eq_some_iff.mp hfind
  obtain ⟨moved, hmoved, hmoves⟩ := hpatching.exists_moved hagain hsite hsurvives
  exact ⟨moved, Catalog.find?_eq_some_iff.mpr ⟨hmoved, hmoves.identifier_eq⟩, hmoves⟩

end Again

theorem eq_of_overlap {first second : Patch} (hfirst : first ∈ patches) (hsecond : second ∈ patches)
    (hbefore : first.start < second.stop) (hbehind : second.start < first.stop) :
    first = second :=
  (tree.ascends_patches _ blanks.size).eq_of_overlap (hpatching.patches_perm.mem_iff.mp hfirst)
    (hpatching.patches_perm.mem_iff.mp hsecond) hbefore hbehind

theorem survives_of_mem (hpatch : patch ∈ patches)
    (hfind : index.find? patch.identifier = some site) : site.Survives patches := by
  obtain ⟨other, -, hother, hstart, hstop⟩ :=
    exists_site_of_mem hpatching.located.entries_perm hpatching.build hpatch
  cases hfind.symm.trans hother
  have hbetween := hpatching.located.between_of_mem (Catalog.find?_eq_some_iff.mp hfind).1
  have hkey := hbetween.keyStart_lt
  have hvalue := hbetween.valueStart_lt
  rintro outer houter ⟨hbefore, hbehind⟩
  have hsame := hpatching.eq_of_overlap houter hpatch (by omega) (by omega)
  subst hsame
  omega

/-- A patch lies before a site that survives, inside its array, or behind it. -/
theorem apart_or_inside_of_survives (hsite : site ∈ index.entries)
    (hsurvives : site.Survives patches) :
    ∀ patch ∈ patches, patch.stop ≤ site.keyStart ∨
      (site.valueStart ≤ patch.start ∧ patch.stop ≤ site.valueEnd) ∨
        site.valueEnd ≤ patch.start := by
  intro patch hpatch
  obtain ⟨other, hother, -, hstart, hstop⟩ :=
    exists_site_of_mem hpatching.located.entries_perm hpatching.build hpatch
  have hmem := hpatching.located.entries_perm.mem_iff.mp hsite
  have hotherKey := (Tree.between_of_mem_sites hother).keyStart_lt
  rcases Tree.nested_of_mem_sites hmem hother with rfl | hapart | hwithin | hwithin
  · omega
  · rcases hapart with hbefore | hbehind
    · omega
    · omega
  · -- The patch would cover the site.
    have hlow := hwithin.low_lt
    have hhigh := hwithin.lt_high
    exact absurd ⟨by omega, by omega⟩ (hsurvives patch hpatch)
  · have hlow := hwithin.low_lt
    have hhigh := hwithin.lt_high
    omega

/-- Patches lie apart from an array that survives and holds none of them. -/
theorem stop_le_or_le_start_of_survives (hsite : site ∈ index.entries)
    (hsurvives : site.Survives patches) (hpatch : patch ∈ patches)
    (houtside : ¬ (site.valueStart ≤ patch.start ∧ patch.stop ≤ site.valueEnd)) :
    patch.stop ≤ site.valueStart ∨ site.valueEnd ≤ patch.start := by
  have hkey := (hpatching.located.between_of_mem hsite).keyStart_lt
  rcases hpatching.apart_or_inside_of_survives hsite hsurvives patch hpatch with
    hbefore | hinside | hbehind
  · left
    omega
  · exact absurd hinside houtside
  · exact .inr hbehind

theorem moved_le {first second newFirst newSecond : Nat}
    (hfirst : Moves patches first newFirst) (hsecond : Moves patches second newSecond)
    (hcross : ∀ patch ∈ patches, patch.stop ≤ first ∨ first ≤ patch.start)
    (hle : first ≤ second) : newFirst ≤ newSecond := by
  obtain ⟨ascending, hperm, hrewrites⟩ := hpatching.exists_rewrites
  rw [Moves, changeBefore_perm hperm] at hfirst hsecond
  exact Moves.le hfirst hsecond hrewrites.pairwise
    (fun patch hpatch => (hrewrites.bounds patch hpatch).2.1)
    (fun patch hpatch => hcross patch (hperm.mem_iff.mpr hpatch)) hle

/-- A site that has moved into the array of another one was inside it before. -/
theorem within_of_moved {inner movedInner : Site} (hsite : site ∈ index.entries)
    (hinner : inner ∈ index.entries) (hsurvives : site.Survives patches)
    (hinnerSurvives : inner.Survives patches) (hmoves : site.MovesTo patches moved)
    (hinnerMoves : inner.MovesTo patches movedInner) (hwithin : movedInner.Within moved) :
    inner.Within site := by
  have hkey := (hpatching.located.between_of_mem hsite).keyStart_lt
  have hvalue := (hpatching.located.between_of_mem hsite).valueStart_lt
  have hinnerKey := (hpatching.located.between_of_mem hinner).keyStart_lt
  have hinnerValue := (hpatching.located.between_of_mem hinner).valueStart_lt
  have hclear := hpatching.apart_or_inside_of_survives hsite hsurvives
  have hinnerClear := hpatching.apart_or_inside_of_survives hinner hinnerSurvives
  have hlow := hwithin.low_lt
  have hmovedKey := hwithin.keyStart_lt
  have hmovedValue := hwithin.valueStart_lt
  have hhigh := hwithin.lt_high
  rcases hpatching.located.nested_of_mem hinner hsite with rfl | hapart | hnested | hnested
  · have hsame := hmoves.valueStart.eq hinnerMoves.valueStart
    omega
  · rcases hapart with hbefore | hbehind
    · have hle : movedInner.valueEnd ≤ moved.valueStart :=
        hpatching.moved_le hinnerMoves.valueEnd hmoves.valueStart
          (fun patch hpatch => by have := hinnerClear patch hpatch; omega) (by omega)
      omega
    · have hle : moved.valueEnd ≤ movedInner.valueEnd :=
        hpatching.moved_le hmoves.valueEnd hinnerMoves.valueEnd
          (fun patch hpatch => by have := hclear patch hpatch; omega) (by omega)
      omega
  · exact hnested
  · have hlower := hnested.low_lt
    have hle : movedInner.valueStart ≤ moved.valueStart :=
      hpatching.moved_le hinnerMoves.valueStart hmoves.valueStart
        (fun patch hpatch => by have := hinnerClear patch hpatch; omega) (by omega)
    omega

section Again

variable {again : SiteIndex} (hagain : SiteIndex.locate settings out = .ok again)

include hagain

/-- At the site of a patch stands what the patch writes. -/
theorem rawValue?_of_mem (hpatch : patch ∈ patches)
    (hfind : index.find? patch.identifier = some site) :
    ∃ moved, again.find? patch.identifier = some moved ∧ site.MovesTo patches moved ∧
      moved.rawValue? out = some patch.text := by
  obtain ⟨other, -, hother, hstart, hstop⟩ :=
    exists_site_of_mem hpatching.located.entries_perm hpatching.build hpatch
  cases hfind.symm.trans hother
  obtain ⟨moved, hmoved, hmoves⟩ := hpatching.exists_find?_again hagain hfind
    (hpatching.survives_of_mem hpatch hfind)
  obtain ⟨ascending, hperm, hrewrites⟩ := hpatching.exists_rewrites
  obtain ⟨before, behind, hout, hbefore, hafter⟩ :=
    hrewrites.exists_text (hperm.mem_iff.mp hpatch)
  rw [hstart] at hbefore
  rw [hstop] at hafter
  have hmovedStart := hbefore.eq (hmoves.perm hperm).valueStart
  have hmovedEnd := hafter.eq (hmoves.perm hperm).valueEnd
  refine ⟨moved, hmoved, hmoves, ?_⟩
  rw [Site.rawValue?, ← hmovedEnd, hmovedStart]
  exact Text.HasAt.slice?_eq_some ⟨before, behind, hout, hmovedStart⟩

/-- At the site of a patch the desired list is read. -/
theorem readValues_of_mem (hpatch : patch ∈ patches) :
    ∃ moved values, again.find? patch.identifier = some moved ∧
      desired.find? patch.identifier = some (patch.identifier, values) ∧
      moved.readValues settings out = .ok (some values) := by
  obtain ⟨site, values, hfind, hdesired, hrenders⟩ :=
    exists_renders_of_mem hpatching.build hpatch
  obtain ⟨indentation, hindentation, htext⟩ := renderAt_eq_ok_iff.mp hrenders.renderAt_eq
  obtain ⟨moved, hmoved, -, hraw⟩ := hpatching.rawValue?_of_mem hagain hpatch hfind
  rw [htext] at hraw
  exact ⟨moved, values, hmoved, hdesired, Site.readValues_of_rawValue? hpatching.valid
    (Text.allBlank_of_indentationAt? hindentation) hraw⟩

/-- An array that survives and holds no patch is kept byte for byte. -/
theorem rawValue?_of_survives (hfind : index.find? identifier = some site)
    (hsurvives : site.Survives patches)
    (houtside : ∀ patch ∈ patches,
      ¬ (site.valueStart ≤ patch.start ∧ patch.stop ≤ site.valueEnd)) :
    ∃ moved raw, again.find? identifier = some moved ∧ site.MovesTo patches moved ∧
      site.rawValue? text = some raw ∧ moved.rawValue? out = some raw := by
  obtain ⟨moved, hmoved, hmoves⟩ := hpatching.exists_find?_again hagain hfind hsurvives
  obtain ⟨hsite, -⟩ := Catalog.find?_eq_some_iff.mp hfind
  obtain ⟨array, -, hat, hend⟩ :=
    Tree.exists_array_of_mem_sites (hpatching.located.entries_perm.mem_iff.mp hsite)
  have hplace : text.HasAt 0 tree.text blanks.size :=
    ⟨blanks, after, hpatching.located.document.text_eq, Nat.zero_add _⟩
  obtain ⟨front, back, htext, hstart⟩ := hplace.trans hat
  rw [Nat.zero_add] at hstart
  obtain ⟨ascending, hperm, hrewrites⟩ := hpatching.exists_rewrites
  rw [htext] at hrewrites
  obtain ⟨newFront, newBack, hout, hfront, hbehind⟩ := hrewrites.kept <| by
    intro patch hpatch
    have hmem := hperm.mem_iff.mpr hpatch
    rw [hstart, ← hend]
    exact hpatching.stop_le_or_le_start_of_survives hsite hsurvives hmem (houtside patch hmem)
  rw [hstart] at hfront hbehind
  rw [← hend] at hbehind
  have hmovedStart := hfront.eq (hmoves.perm hperm).valueStart
  have hmovedEnd := hbehind.eq (hmoves.perm hperm).valueEnd
  refine ⟨moved, array.text, hmoved, hmoves, ?_, ?_⟩
  · rw [Site.rawValue?, hend]
    apply Text.HasAt.slice?_eq_some
    exact ⟨front, back, htext, by rw [Nat.zero_add, hstart]⟩
  · rw [Site.rawValue?, ← hmovedEnd, hmovedStart]
    apply Text.HasAt.slice?_eq_some
    exact ⟨newFront, newBack, hout, by rw [Nat.zero_add, hmovedStart]⟩

end Again

end Patching

end ArrayPatch
