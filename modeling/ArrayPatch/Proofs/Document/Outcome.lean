import ArrayPatch.Proofs.Document.Patching
import ArrayPatch.Proofs.Text.Order

/-!
# What decides the result of patching

Patching a text is refused for the first of four reasons: the settings, the scan
of the text, a desired identifier without a site, and an array to be written
that lies inside another one to be written.  Without any of them there is a
result.

Only neighbours in the order of application are compared, but the sites of a
document lie apart or one inside the array of the other.  So the neighbours that
are found to overlap are always a container and what it contains, and if no
neighbours overlap, no array to be written contains another one.
-/

namespace ArrayPatch

open Grammar Patch

/-- The smallest desired identifier, by its bytes, that an index lacks. -/
structure FirstUnknown (index : SiteIndex) (desired : Desired) (identifier : Text) : Prop where
  wanted : desired.contains identifier
  unknown : ¬ index.contains identifier
  not_lt : ∀ other, desired.contains other → ¬ index.contains other →
    ¬ other.bytes < identifier.bytes

/-- The site of a desired identifier whose array does not read what is rendered
for it. -/
def Changes (text : Text) (index : SiteIndex) (desired : Desired) (identifier : Text)
    (site : Site) : Prop :=
  index.find? identifier = some site ∧ ∃ values rendered,
    desired.find? identifier = some (identifier, values) ∧
      renderAt text (Layout.detect text) site values = .ok rendered ∧
      site.rawValue? text ≠ some rendered

variable {settings : Settings} {text blanks after : Text} {index : SiteIndex} {tree : Tree}
variable {desired : Desired} {patches : List Patch} {site : Site}

namespace Patch

/-- The patches that are built are those of the entries that change. -/
theorem changes_iff_exists_mem {identifier : Text}
    (hbuild : buildAll text (Layout.detect text) index desired = .ok patches) :
    Changes text index desired identifier site ↔ index.find? identifier = some site ∧
      ∃ patch ∈ patches, patch.identifier = identifier ∧ patch.start = site.valueStart ∧
        patch.stop = site.valueEnd := by
  constructor
  · rintro ⟨hsite, values, rendered, hdesired, hrender, hchange⟩
    refine ⟨hsite, ⟨identifier, site.valueStart, site.valueEnd, rendered⟩, ?_, rfl, rfl, rfl⟩
    have hname := (Catalog.find?_eq_some_iff.mp hsite).2
    exact (mem_iff_of_buildAll hbuild).mpr
      ⟨site, values, hsite, hdesired, hname.symm, rfl, rfl, hrender, hchange⟩
  · rintro ⟨hsite, patch, hpatch, rfl, -, -⟩
    obtain ⟨other, values, hother, hdesired, hrenders⟩ := exists_renders_of_mem hbuild hpatch
    cases hsite.symm.trans hother
    exact ⟨hsite, values, patch.text, hdesired, hrenders.renderAt_eq, hrenders.ne_current⟩

theorem exists_build?_eq_ok {layout : Layout}
    (hlocated : Located settings text index blanks tree after)
    {identifier : Text} (hcontains : index.contains identifier) (values : List Text) :
    ∃ patch?, build? text layout index identifier values = .ok patch? := by
  obtain ⟨site, hsite⟩ := Option.isSome_iff_exists.mp (Catalog.isSome_find?_iff.mpr hcontains)
  obtain ⟨hmem, -⟩ := Catalog.find?_eq_some_iff.mp hsite
  obtain ⟨raw, hraw⟩ := hlocated.exists_rawValue? hmem
  obtain ⟨indentation, hindentation⟩ := hlocated.exists_indentationAt? hmem
  exact ⟨_, build?_eq_ok_iff.mpr ⟨site, _, raw, hsite,
    renderAt_eq_ok_iff.mpr ⟨indentation, hindentation, rfl⟩, hraw, rfl⟩⟩

/-- Building patches fails exactly for an identifier without a site, and reports
the smallest one. -/
theorem buildAll_cases {layout : Layout}
    (hlocated : Located settings text index blanks tree after)
    (desired : Desired) :
    (∃ identifier, FirstUnknown index desired identifier ∧
        buildAll text layout index desired =
          .error (.refused (.unknownIdentifier identifier))) ∨
      (∀ identifier, desired.contains identifier → index.contains identifier) ∧
        ∃ patches, buildAll text layout index desired = .ok patches := by
  cases hfind : desired.entries.find? fun entry => !index.contains entry.1 with
  | none =>
      right
      have hknown : ∀ entry ∈ desired.entries, index.contains entry.1 := by
        simpa using List.find?_eq_none.mp hfind
      refine ⟨?_, ?_⟩
      · intro identifier hcontains
        obtain ⟨entry, hentry, rfl⟩ := Catalog.contains_iff.mp hcontains
        exact hknown entry hentry
      · obtain ⟨built, hbuilt⟩ := exists_except_mapM_eq_ok fun entry hentry =>
          exists_build?_eq_ok hlocated (hknown entry hentry) entry.2
        exact ⟨built.reduceOption, buildAll_eq_ok_iff.mpr
          ⟨built, except_mapM_eq_ok_iff.mp hbuilt, rfl⟩⟩
  | some entry =>
      left
      obtain ⟨hunknown, before, behind, hsplit, hbefore⟩ := List.find?_eq_some_iff_append.mp hfind
      simp only [Bool.not_not, Bool.not_eq_true'] at hunknown hbefore
      refine ⟨entry.1, ⟨?_, by simp [hunknown], ?_⟩, ?_⟩
      · exact Catalog.contains_iff.mpr ⟨entry, by simp [hsplit], rfl⟩
      · -- The entries are in ascending order, and those before the first unknown one are known.
        intro other hother hlacks
        obtain ⟨rival, hrival, rfl⟩ := Catalog.contains_iff.mp hother
        have hascending := desired.ascending
        rw [hsplit] at hrival hascending
        rw [Text.bytes_lt_bytes_iff]
        rcases List.mem_append.mp hrival with hrival | hrival
        · exact absurd (hbefore rival hrival) hlacks
        · rcases List.mem_cons.mp hrival with rfl | hrival
          · exact List.lt_irrefl _
          · have hrest := (List.pairwise_append.mp hascending).2.1
            exact List.lt_asymm ((List.pairwise_cons.mp hrest).1 rival hrival)
      · have hmissing : index.find? entry.1 = none := by
          rw [← Option.not_isSome_iff_eq_none, Catalog.isSome_find?_iff]
          simp [hunknown]
        have hfailed : build? text layout index entry.1 entry.2 =
            .error (.refused (.unknownIdentifier entry.1)) := by
          rw [build?, hmissing]
        rw [buildAll, hsplit, except_mapM_eq_error (fun known hknown =>
          exists_build?_eq_ok hlocated (hbefore known hknown) known.2) hfailed]
        rfl

/-- Two patches that overlap were built for a site and for another one inside its
array. -/
theorem exists_within_of_overlap (hlocated : Located settings text index blanks tree after)
    (hbuild : buildAll text (Layout.detect text) index desired = .ok patches)
    {lower higher : Patch} (hlower : lower ∈ patches) (hhigher : higher ∈ patches)
    (hne : lower.identifier ≠ higher.identifier) (hstart : lower.start ≤ higher.start)
    (hreach : higher.start < lower.stop) :
    ∃ outer inner, Changes text index desired lower.identifier outer ∧
      Changes text index desired higher.identifier inner ∧ inner.Within outer := by
  obtain ⟨outer, _, houter, -, houterRenders⟩ := exists_renders_of_mem hbuild hlower
  obtain ⟨inner, _, hinner, -, hinnerRenders⟩ := exists_renders_of_mem hbuild hhigher
  obtain ⟨houterMem, houterName⟩ := Catalog.find?_eq_some_iff.mp houter
  obtain ⟨hinnerMem, hinnerName⟩ := Catalog.find?_eq_some_iff.mp hinner
  have houterStart := houterRenders.start_eq
  have houterStop := houterRenders.stop_eq
  have hinnerStart := hinnerRenders.start_eq
  have houterKey := (hlocated.between_of_mem houterMem).keyStart_lt
  have hinnerKey := (hlocated.between_of_mem hinnerMem).keyStart_lt
  have hinnerValue := (hlocated.between_of_mem hinnerMem).valueStart_lt
  refine ⟨outer, inner, ?_, ?_, ?_⟩
  · exact (changes_iff_exists_mem hbuild).mpr
      ⟨houter, lower, hlower, rfl, houterStart, houterStop⟩
  · exact (changes_iff_exists_mem hbuild).mpr
      ⟨hinner, higher, hhigher, rfl, hinnerStart, hinnerRenders.stop_eq⟩
  · rcases hlocated.nested_of_mem houterMem hinnerMem with rfl | hapart | hwithin | hwithin
    · exact absurd (houterName.symm.trans hinnerName) hne
    · rcases hapart with hbefore | hbehind
      · omega
      · omega
    · have hlow := hwithin.low_lt
      omega
    · exact hwithin

theorem exists_within_of_overlap?_eq_some
    (hlocated : Located settings text index blanks tree after)
    (hbuild : buildAll text (Layout.detect text) index desired = .ok patches)
    {lower higher : Patch} (hoverlap : overlap? (ordered patches) = some (lower, higher)) :
    ∃ outer inner, Changes text index desired lower.identifier outer ∧
      Changes text index desired higher.identifier inner ∧ inner.Within outer := by
  obtain ⟨before, behind, hsplit, hreach⟩ := exists_of_overlap?_eq_some hoverlap
  have hsorted := pairwise_ordered patches
  have hnames := ((ordered_perm patches).map Patch.identifier).nodup_iff.mpr
    (nodup_map_identifier hbuild)
  rw [hsplit] at hsorted hnames
  have hstart : lower.start ≤ higher.start :=
    (List.pairwise_cons.mp (List.pairwise_append.mp hsorted).2.1).1 lower List.mem_cons_self
  have hne : lower.identifier ≠ higher.identifier := by
    rw [List.map_append, List.map_cons, List.map_cons] at hnames
    have hpair := (List.nodup_cons.mp (List.nodup_append.mp hnames).2.1).1
    exact fun heq => hpair (heq ▸ List.mem_cons_self)
  have hmem : ∀ patch ∈ [higher, lower], patch ∈ patches := by
    intro patch hpatch
    apply mem_ordered_iff.mp
    rw [hsplit]
    exact List.mem_append_right _ (List.subset_append_left [higher, lower] behind hpatch)
  exact exists_within_of_overlap hlocated hbuild (hmem lower (by simp)) (hmem higher (by simp))
    hne hstart hreach

/-- Among patches that do not overlap, no entry that changes lies inside another one. -/
theorem not_inside_of_ascends (hlocated : Located settings text index blanks tree after)
    (hbuild : buildAll text (Layout.detect text) index desired = .ok patches)
    (hascends : Ascends (ordered patches).reverse) {outer inner : Text} {outerSite innerSite : Site}
    (houter : Changes text index desired outer outerSite)
    (hinner : Changes text index desired inner innerSite) (hne : outer ≠ inner) :
    ¬ (outerSite.valueStart ≤ innerSite.valueStart ∧
      innerSite.valueEnd ≤ outerSite.valueEnd) := by
  rintro ⟨hstart, hstop⟩
  obtain ⟨-, first, hfirst, rfl, hfirstStart, hfirstStop⟩ :=
    (changes_iff_exists_mem hbuild).mp houter
  obtain ⟨-, second, hsecond, rfl, hsecondStart, hsecondStop⟩ :=
    (changes_iff_exists_mem hbuild).mp hinner
  have hrange := start_lt_stop_of_mem hlocated.entries_perm hbuild hsecond
  have hordered : ∀ patch ∈ patches, patch ∈ (ordered patches).reverse :=
    fun patch hpatch => List.mem_reverse.mpr (mem_ordered_iff.mpr hpatch)
  have hsame := hascends.eq_of_overlap (hordered first hfirst) (hordered second hsecond)
    (by omega) (by omega)
  exact hne (congrArg Patch.identifier hsame)

/-- Applying the patches that were built fails exactly if one entry that changes
lies inside another one, and such a pair is reported. -/
theorem applyAll_cases (hlocated : Located settings text index blanks tree after)
    (hbuild : buildAll text (Layout.detect text) index desired = .ok patches) :
    (∃ outer inner outerSite innerSite, Changes text index desired outer outerSite ∧
        Changes text index desired inner innerSite ∧ innerSite.Within outerSite ∧
        applyAll patches text = .error (.refused (.overlappingPatches outer inner))) ∨
      (∀ outer inner outerSite innerSite, Changes text index desired outer outerSite →
        Changes text index desired inner innerSite → outer ≠ inner →
        ¬ (outerSite.valueStart ≤ innerSite.valueStart ∧
          innerSite.valueEnd ≤ outerSite.valueEnd)) ∧
        ∃ out, applyAll patches text = .ok out := by
  cases hoverlap : overlap? (ordered patches) with
  | some pair =>
      left
      obtain ⟨lower, higher⟩ := pair
      obtain ⟨outer, inner, houter, hinner, hwithin⟩ :=
        exists_within_of_overlap?_eq_some hlocated hbuild hoverlap
      refine ⟨lower.identifier, higher.identifier, outer, inner, houter, hinner, hwithin, ?_⟩
      rw [applyAll, hoverlap]
  | none =>
      right
      have hascends := ascends_of_overlap?_eq_none hlocated.entries_perm hbuild hoverlap
      refine ⟨?_, ?_⟩
      · intro outer inner outerSite innerSite houter hinner hne
        exact not_inside_of_ascends hlocated hbuild hascends houter hinner hne
      · rw [applyAll, hoverlap]
        exact ⟨_, spliceAll_ordered_eq hlocated hbuild hascends⟩

/-- An update is refused for a desired identifier without a site or for an entry that
changes inside the array of another one, and otherwise has a result. -/
theorem update_cases (hlocated : Located settings text index blanks tree after)
    (desired : Desired) :
    (∃ identifier, FirstUnknown index desired identifier ∧
        update text (Layout.detect text) index desired =
          .error (.refused (.unknownIdentifier identifier))) ∨
      (∀ identifier, desired.contains identifier → index.contains identifier) ∧
        ((∃ outer inner outerSite innerSite, Changes text index desired outer outerSite ∧
            Changes text index desired inner innerSite ∧ innerSite.Within outerSite ∧
            update text (Layout.detect text) index desired =
              .error (.refused (.overlappingPatches outer inner))) ∨
          (∀ outer inner outerSite innerSite, Changes text index desired outer outerSite →
            Changes text index desired inner innerSite → outer ≠ inner →
            ¬ (outerSite.valueStart ≤ innerSite.valueStart ∧
              innerSite.valueEnd ≤ outerSite.valueEnd)) ∧
            ∃ out, update text (Layout.detect text) index desired = .ok out) := by
  rw [update]
  rcases buildAll_cases hlocated desired with
    ⟨identifier, hfirst, hbuild⟩ | ⟨hknown, patches, hbuild⟩
  · left
    rw [hbuild]
    exact ⟨identifier, hfirst, rfl⟩
  · right
    rw [hbuild]
    exact ⟨hknown, applyAll_cases hlocated hbuild⟩

end Patch

theorem patchText_eq_error_of_fault {fault : SettingsFault} (hfault : settings.fault? = some fault)
    (text : Text) (desired : Desired) :
    patchText settings text desired = .error (.refused (.invalidSettings fault)) := by
  rw [patchText, Document.scan, Settings.validate, hfault]
  rfl

theorem patchText_eq_error_of_locate {error : Error} (hvalid : settings.fault? = none)
    (hlocate : SiteIndex.locate settings text = .error error) (desired : Desired) :
    patchText settings text desired = .error (.refused error) := by
  rw [patchText, Document.scan, Settings.validate, hvalid, hlocate]
  rfl

theorem patchText_cases (settings : Settings) (text : Text) (desired : Desired) :
    (∃ error, patchText settings text desired = .error (.refused error)) ∨
      ∃ out, patchText settings text desired = .ok out := by
  cases hvalid : settings.fault? with
  | some fault => exact .inl ⟨_, patchText_eq_error_of_fault hvalid text desired⟩
  | none =>
      cases hlocate : SiteIndex.locate settings text with
      | error error => exact .inl ⟨error, patchText_eq_error_of_locate hvalid hlocate desired⟩
      | ok index =>
          obtain ⟨-, -, hfields, -⟩ := settings.fault?_eq_none_iff.mp hvalid
          obtain ⟨blanks, tree, after, hlocated⟩ := SiteIndex.exists_located hfields hlocate
          rw [patchText_eq_update hvalid hlocate]
          rcases Patch.update_cases hlocated desired with
            ⟨identifier, -, hunknown⟩ | ⟨-, ⟨outer, inner, _, _, -, -, -, hoverlap⟩ | ⟨-, hout⟩⟩
          · exact .inl ⟨_, hunknown⟩
          · exact .inl ⟨_, hoverlap⟩
          · exact .inr hout

/-- Invalid settings are reported first, then whatever keeps the text from being
located, then the smallest desired identifier without a site, then an entry to be
written inside the array of another one.  Otherwise the text is patched. -/
theorem patchText_decided (settings : Settings) (text : Text) (desired : Desired) :
    match settings.fault?, SiteIndex.locate settings text with
    | some fault, _ => patchText settings text desired = .error (.refused (.invalidSettings fault))
    | none, .error error => patchText settings text desired = .error (.refused error)
    | none, .ok index =>
        (∃ identifier, FirstUnknown index desired identifier ∧
          patchText settings text desired = .error (.refused (.unknownIdentifier identifier))) ∨
        (∀ identifier, desired.contains identifier → index.contains identifier) ∧
          ((∃ outer inner outerSite innerSite, Changes text index desired outer outerSite ∧
              Changes text index desired inner innerSite ∧
              (outerSite.valueStart < innerSite.valueStart ∧
                innerSite.valueEnd < outerSite.valueEnd) ∧
              patchText settings text desired =
                .error (.refused (.overlappingPatches outer inner))) ∨
            (∀ outer inner outerSite innerSite, Changes text index desired outer outerSite →
              Changes text index desired inner innerSite → outer ≠ inner →
              ¬ (outerSite.valueStart ≤ innerSite.valueStart ∧
                innerSite.valueEnd ≤ outerSite.valueEnd)) ∧
              ∃ out, patchText settings text desired = .ok out) := by
  cases hvalid : settings.fault? with
  | some fault => exact patchText_eq_error_of_fault hvalid text desired
  | none =>
      cases hlocate : SiteIndex.locate settings text with
      | error error => exact patchText_eq_error_of_locate hvalid hlocate desired
      | ok index =>
          obtain ⟨-, -, hfields, -⟩ := settings.fault?_eq_none_iff.mp hvalid
          obtain ⟨blanks, tree, after, hlocated⟩ := SiteIndex.exists_located hfields hlocate
          dsimp only
          rw [patchText_eq_update hvalid hlocate]
          refine (Patch.update_cases hlocated desired).imp_right fun ⟨hknown, hcases⟩ => ?_
          refine ⟨hknown, hcases.imp_left ?_⟩
          rintro ⟨outer, inner, outerSite, innerSite, houter, hinner, hwithin, hoverlap⟩
          have hkey := hwithin.low_lt
          have hvalue := hwithin.keyStart_lt
          exact ⟨outer, inner, outerSite, innerSite, houter, hinner,
            ⟨Nat.lt_trans hkey hvalue, hwithin.lt_high⟩, hoverlap⟩

end ArrayPatch
