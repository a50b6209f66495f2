import ArrayPatch.Document
import ArrayPatch.Proofs.Catalog
import Mathlib.Data.List.Forall2
import Mathlib.Data.List.ReduceOption

/-!
# Which patches are built

Every patch that is built belongs to an entry of the desired state and to the
site of the entry's identifier.  It puts the rendering of the entry in the place
of the array of the site, which reads differently so far.  Patching a text is
building these patches and applying them.
-/

namespace ArrayPatch

section Results

variable {ε α β γ : Type}

theorem except_bind_eq_ok_iff {first : Except ε α} {next : α → Except ε β} {b : β} :
    first >>= next = .ok b ↔ ∃ a, first = .ok a ∧ next a = .ok b := by
  cases first with
  | error failure =>
      constructor
      · intro heq
        cases heq
      · rintro ⟨a, heq, -⟩
        cases heq
  | ok a =>
      constructor
      · intro hnext
        exact ⟨a, rfl, hnext⟩
      · rintro ⟨_, heq, hnext⟩
        cases heq
        exact hnext

theorem except_pure_eq_ok_iff {a b : α} : (pure a : Except ε α) = .ok b ↔ b = a := by
  constructor
  · intro heq
    cases heq
    rfl
  · rintro rfl
    rfl

theorem except_mapM_eq_ok_iff {f : α → Except ε β} {as : List α} {bs : List β} :
    as.mapM f = .ok bs ↔ List.Forall₂ (fun a b => f a = .ok b) as bs := by
  induction as generalizing bs with
  | nil => rw [List.mapM_nil, List.forall₂_nil_left_iff, except_pure_eq_ok_iff]
  | cons a as ih =>
      simp only [List.mapM_cons, List.forall₂_cons_left_iff, except_bind_eq_ok_iff,
        except_pure_eq_ok_iff, ih]
      constructor
      · rintro ⟨b, hfirst, rest, hrest, rfl⟩
        exact ⟨b, rest, hfirst, hrest, rfl⟩
      · rintro ⟨b, rest, hfirst, hrest, rfl⟩
        exact ⟨b, hfirst, rest, hrest, rfl⟩

theorem exists_except_mapM_eq_ok {f : α → Except ε β} {as : List α}
    (hall : ∀ a ∈ as, ∃ b, f a = .ok b) : ∃ bs, as.mapM f = .ok bs := by
  simp only [except_mapM_eq_ok_iff]
  induction as with
  | nil => exact ⟨[], .nil⟩
  | cons a as ih =>
      obtain ⟨⟨b, hb⟩, hrest⟩ := List.forall_mem_cons.mp hall
      obtain ⟨bs, hbs⟩ := ih hrest
      exact ⟨b :: bs, .cons hb hbs⟩

/-- Gathering results ends at the first step without one. -/
theorem except_mapM_eq_error {f : α → Except ε β} {before after : List α} {a : α} {failure : ε}
    (hbefore : ∀ a ∈ before, ∃ b, f a = .ok b) (ha : f a = .error failure) :
    (before ++ a :: after).mapM f = .error failure := by
  obtain ⟨bs, hbs⟩ := exists_except_mapM_eq_ok hbefore
  rw [List.mapM_append, List.mapM_cons, hbs, ha]
  rfl

/-- Results are mapped when they are gathered or one by one. -/
theorem except_mapM_map (f : α → Except ε β) (g : β → γ) (as : List α) :
    as.mapM (fun a => (f a).map g) = (as.mapM f).map (List.map g) := by
  induction as with
  | nil => rfl
  | cons a as ih =>
      rw [List.mapM_cons, List.mapM_cons, ih]
      cases f a with
      | error failure => rfl
      | ok b => cases as.mapM f <;> rfl

theorem except_mapError_eq_ok_iff {ε' : Type} {result : Except ε α} {f : ε → ε'} {a : α} :
    result.mapError f = .ok a ↔ result = .ok a := by
  cases result with
  | error => simp [Except.mapError]
  | ok => simp [Except.mapError]

theorem exists_mem_of_forall₂ {R : α → β → Prop} {as : List α} {bs : List β} {b : β}
    (hall : List.Forall₂ R as bs) (hb : b ∈ bs) : ∃ a ∈ as, R a b := by
  induction hall with
  | nil => cases hb
  | @cons a first as bs hfirst hrest ih =>
      rcases List.mem_cons.mp hb with rfl | hb
      · exact ⟨a, List.mem_cons_self, hfirst⟩
      · obtain ⟨other, hother, hrel⟩ := ih hb
        exact ⟨other, List.mem_cons_of_mem a hother, hrel⟩

end Results

namespace Patch

variable {text : Text} {layout : Layout} {index : SiteIndex} {desired : Desired}

/-- A patch puts the rendering of a list of texts in the place of the array of a
site, which is something else so far. -/
structure Renders (text : Text) (layout : Layout) (site : Site) (values : List Text)
    (patch : Patch) : Prop where
  identifier_eq : patch.identifier = site.identifier
  start_eq : patch.start = site.valueStart
  stop_eq : patch.stop = site.valueEnd
  renderAt_eq : renderAt text layout site values = .ok patch.text
  ne_current : site.rawValue? text ≠ some patch.text

theorem renderAt_eq_ok_iff {site : Site} {values : List Text} {rendered : Text} :
    renderAt text layout site values = .ok rendered ↔
      ∃ indentation, text.indentationAt? site.keyStart = some indentation ∧
        rendered = layout.render indentation values := by
  rw [renderAt]
  cases text.indentationAt? site.keyStart with
  | none => simp
  | some indentation => simp [eq_comm]

/-- What building the patch of an entry comes to. -/
theorem build?_eq_ok_iff {identifier : Text} {values : List Text} {patch? : Option Patch} :
    build? text layout index identifier values = .ok patch? ↔
      ∃ site rendered current, index.find? identifier = some site ∧
        renderAt text layout site values = .ok rendered ∧ site.rawValue? text = some current ∧
        patch? = if rendered = current then none else
          some ⟨identifier, site.valueStart, site.valueEnd, rendered⟩ := by
  rw [build?]
  cases hsite : index.find? identifier with
  | none => simp
  | some site =>
      simp only [except_bind_eq_ok_iff, Option.some.injEq, exists_and_left, exists_eq_left']
      apply exists_congr
      intro rendered
      cases site.rawValue? text with
      | none => simp
      | some current =>
          simp only [Option.some.injEq, exists_eq_left']
          split
          · rw [except_pure_eq_ok_iff]
          · rw [except_pure_eq_ok_iff]

theorem renders_of_build? {identifier : Text} {values : List Text} {patch : Patch}
    (hbuild : build? text layout index identifier values = .ok (some patch)) :
    ∃ site, index.find? identifier = some site ∧ patch.Renders text layout site values := by
  obtain ⟨site, rendered, current, hsite, hrender, hcurrent, hpatch⟩ :=
    build?_eq_ok_iff.mp hbuild
  by_cases hsame : rendered = current
  · rw [if_pos hsame] at hpatch
    cases hpatch
  · rw [if_neg hsame] at hpatch
    cases hpatch
    refine ⟨site, hsite, ?_, rfl, rfl, hrender, ?_⟩
    · exact (Catalog.find?_eq_some_iff.mp hsite).2.symm
    · rw [hcurrent]
      rintro ⟨rfl⟩
      exact hsame rfl

theorem applyAll_nil (document : Text) : applyAll [] document = .ok document := by
  simp [applyAll, ordered, overlap?, spliceAll]

/-- The patches of all entries, those that change nothing left out. -/
theorem buildAll_eq_ok_iff {patches : List Patch} :
    buildAll text layout index desired = .ok patches ↔
      ∃ built, List.Forall₂ (fun entry patch? =>
          build? text layout index entry.1 entry.2 = .ok patch?) desired.entries built ∧
        patches = built.reduceOption := by
  simp only [buildAll, except_bind_eq_ok_iff, except_mapM_eq_ok_iff, except_pure_eq_ok_iff]

/-- A patch is built for an entry of the desired state. -/
theorem exists_build?_of_mem {patches : List Patch} {patch : Patch}
    (hbuild : buildAll text layout index desired = .ok patches) (hpatch : patch ∈ patches) :
    ∃ entry ∈ desired.entries, build? text layout index entry.1 entry.2 = .ok (some patch) := by
  obtain ⟨built, hall, rfl⟩ := buildAll_eq_ok_iff.mp hbuild
  obtain ⟨entry, hentry, hbuilt⟩ :=
    exists_mem_of_forall₂ hall (List.reduceOption_mem_iff.mp hpatch)
  exact ⟨entry, hentry, hbuilt⟩

/-- Every patch that is built renders an entry of the desired state. -/
theorem exists_renders_of_mem {patches : List Patch} {patch : Patch}
    (hbuild : buildAll text layout index desired = .ok patches) (hpatch : patch ∈ patches) :
    ∃ site values, index.find? patch.identifier = some site ∧
      desired.find? patch.identifier = some (patch.identifier, values) ∧
      patch.Renders text layout site values := by
  obtain ⟨⟨identifier, values⟩, hentry, hbuilt⟩ := exists_build?_of_mem hbuild hpatch
  obtain ⟨site, hsite, hrenders⟩ := renders_of_build? hbuilt
  obtain rfl : patch.identifier = identifier :=
    hrenders.identifier_eq.trans (Catalog.find?_eq_some_iff.mp hsite).2
  exact ⟨site, values, hsite, Catalog.find?_eq_some_iff.mpr ⟨hentry, rfl⟩, hrenders⟩

/-- Every entry of the desired state has a site in the index, and its rendering is
either there already or written by a patch. -/
theorem exists_renderAt_of_mem {patches : List Patch} {identifier : Text} {values : List Text}
    (hbuild : buildAll text layout index desired = .ok patches)
    (hdesired : desired.find? identifier = some (identifier, values)) :
    ∃ site rendered, index.find? identifier = some site ∧
      renderAt text layout site values = .ok rendered ∧
      (site.rawValue? text = some rendered ∨
        ⟨identifier, site.valueStart, site.valueEnd, rendered⟩ ∈ patches) := by
  obtain ⟨hentry, -⟩ := Catalog.find?_eq_some_iff.mp hdesired
  obtain ⟨built, hall, rfl⟩ := buildAll_eq_ok_iff.mp hbuild
  obtain ⟨patch?, hmem, hbuilt⟩ := exists_mem_of_forall₂ hall.flip hentry
  obtain ⟨site, rendered, current, hsite, hrender, hcurrent, rfl⟩ := build?_eq_ok_iff.mp hbuilt
  refine ⟨site, rendered, hsite, hrender, ?_⟩
  by_cases hsame : rendered = current
  · left
    rw [hcurrent, hsame]
  · right
    rw [if_neg hsame] at hmem
    exact List.reduceOption_mem_iff.mpr hmem

/-- The patches that are built are those that render an entry. -/
theorem mem_iff_of_buildAll {patches : List Patch} {patch : Patch}
    (hbuild : buildAll text layout index desired = .ok patches) :
    patch ∈ patches ↔ ∃ site values, index.find? patch.identifier = some site ∧
      desired.find? patch.identifier = some (patch.identifier, values) ∧
      patch.Renders text layout site values := by
  constructor
  · exact exists_renders_of_mem hbuild
  · rintro ⟨site, values, hsite, hdesired, hrenders⟩
    obtain ⟨other, rendered, hother, hrender, hwritten⟩ := exists_renderAt_of_mem hbuild hdesired
    cases hsite.symm.trans hother
    cases hrenders.renderAt_eq.symm.trans hrender
    rw [← hrenders.start_eq, ← hrenders.stop_eq] at hwritten
    exact hwritten.resolve_left hrenders.ne_current

theorem nodup_map_identifier {patches : List Patch}
    (hbuild : buildAll text layout index desired = .ok patches) :
    (patches.map Patch.identifier).Nodup := by
  obtain ⟨built, hall, rfl⟩ := buildAll_eq_ok_iff.mp hbuild
  have hsublist : (built.reduceOption.map Patch.identifier).Sublist
      (desired.entries.map Prod.fst) := by
    generalize desired.entries = entries at hall ⊢
    clear hbuild
    induction hall with
    | nil => exact .slnil
    | @cons entry patch? entries built hentry hrest ih =>
        cases patch? with
        | none => exact ih.cons entry.1
        | some patch =>
            obtain ⟨site, hsite, hrenders⟩ := renders_of_build? hentry
            have hname : patch.identifier = entry.1 :=
              hrenders.identifier_eq.trans (Catalog.find?_eq_some_iff.mp hsite).2
            rw [List.reduceOption_cons_of_some, List.map_cons, List.map_cons, hname]
            exact ih.cons_cons entry.1
  exact desired.nodup_map_name.sublist hsublist

end Patch

namespace Document

theorem scan_eq_ok_iff {settings : Settings} {text : Text} {document : Document} :
    scan settings text = .ok document ↔
      settings.fault? = none ∧ ∃ sites, SiteIndex.locate settings text = .ok sites ∧
        document = { text, settings, sites, layout := Layout.detect text } := by
  rw [scan, Settings.validate]
  cases settings.fault? with
  | none =>
      simp only [except_bind_eq_ok_iff, except_pure_eq_ok_iff, exists_const, true_and]
  | some fault => simp [except_bind_eq_ok_iff]

/-- Patching a document is building patches and applying them, also if nothing
is desired. -/
theorem patch_eq_update (document : Document) (desired : Desired) :
    document.patch desired =
      Patch.update document.text document.layout document.sites desired := by
  rw [patch]
  split
  · rename_i hempty
    have hentries : desired.entries = [] := List.isEmpty_iff.mp hempty
    have hbuild : Patch.buildAll document.text document.layout document.sites desired = .ok [] := by
      rw [Patch.buildAll, hentries]
      rfl
    rw [Patch.update, hbuild]
    exact (Patch.applyAll_nil document.text).symm
  · rfl

end Document

/-- Under valid settings a text whose sites are located is updated. -/
theorem patchText_eq_update {settings : Settings} {text : Text} {index : SiteIndex}
    (hvalid : settings.fault? = none) (hlocate : SiteIndex.locate settings text = .ok index)
    (desired : Desired) :
    patchText settings text desired =
      Patch.update text (Layout.detect text) index desired := by
  have hscan := Document.scan_eq_ok_iff.mpr ⟨hvalid, index, hlocate, rfl⟩
  rw [patchText, hscan]
  exact Document.patch_eq_update _ desired

/-- A text is patched under valid settings if its sites are located, the patches
are built, and they are applied. -/
theorem patchText_eq_ok_iff {settings : Settings} {text out : Text} {desired : Desired} :
    patchText settings text desired = .ok out ↔
      settings.fault? = none ∧ ∃ index, SiteIndex.locate settings text = .ok index ∧
        ∃ patches, Patch.buildAll text (Layout.detect text) index desired = .ok patches ∧
          Patch.applyAll patches text = .ok out := by
  simp only [patchText, except_bind_eq_ok_iff, except_mapError_eq_ok_iff, Document.scan_eq_ok_iff,
    Document.patch_eq_update, Patch.update]
  constructor
  · rintro ⟨_, ⟨hvalid, index, hlocate, rfl⟩, hpatch⟩
    exact ⟨hvalid, index, hlocate, hpatch⟩
  · rintro ⟨hvalid, index, hlocate, hpatch⟩
    exact ⟨_, ⟨hvalid, index, hlocate, rfl⟩, hpatch⟩

end ArrayPatch
