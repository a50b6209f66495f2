import ArrayPatch.Proofs.Catalog
import ArrayPatch.Site.Locate

/-!
# Indexing sites

Indexing a list of sites keeps all of them if their identifiers are distinct,
and otherwise names the first identifier that occurs before.  Both are shown
for an index that already holds the sites of a first part of the list, by
induction on the rest.
-/

namespace ArrayPatch.SiteIndex

/-- A site of a list repeats the identifier of an earlier one, and no site
before it does. -/
def FirstRepeated (sites : List Site) (site : Site) : Prop :=
  ∃ before after, sites = before ++ site :: after ∧ (before.map Site.identifier).Nodup ∧
    site.identifier ∈ before.map Site.identifier

variable {index : SiteIndex} {site : Site} {sites done : List Site}

theorem contains_iff_of_perm (hindex : index.entries.Perm done) {identifier : Text} :
    index.contains identifier ↔ identifier ∈ done.map Site.identifier := by
  rw [Catalog.contains_iff, List.mem_map]
  simp only [hindex.mem_iff]

theorem exists_insert_of_not_mem (hindex : index.entries.Perm done)
    (hnew : site.identifier ∉ done.map Site.identifier) :
    ∃ more, index.insert site = .ok more ∧ more.entries.Perm (done ++ [site]) := by
  rw [← contains_iff_of_perm hindex] at hnew
  obtain ⟨more, hadd⟩ := Catalog.exists_add?_iff.mpr hnew
  refine ⟨more, ?_, ?_⟩
  · rw [insert, offer, hadd]
    rfl
  · have hcons := (Catalog.entries_perm_of_add? hadd).trans (hindex.cons site)
    exact hcons.trans (List.perm_append_singleton site done).symm

theorem insert_eq_error_of_mem (hindex : index.entries.Perm done)
    (hold : site.identifier ∈ done.map Site.identifier) :
    index.insert site = .error (.duplicateIdentifier site.identifier) := by
  rw [← contains_iff_of_perm hindex] at hold
  rw [insert, offer, Catalog.add?, if_pos hold]
  rfl

/-- Adding more sites to an index that holds the first ones. -/
theorem foldlM_insert (hindex : index.entries.Perm done)
    (hdone : (done.map Site.identifier).Nodup) :
    (((done ++ sites).map Site.identifier).Nodup ∧
        ∃ all, sites.foldlM insert index = .ok all ∧ all.entries.Perm (done ++ sites)) ∨
      ∃ site, FirstRepeated (done ++ sites) site ∧
        sites.foldlM insert index = .error (.duplicateIdentifier site.identifier) := by
  induction sites generalizing index done with
  | nil =>
      left
      rw [List.append_nil]
      exact ⟨hdone, index, rfl, hindex⟩
  | cons site sites ih =>
      rw [List.foldlM_cons]
      by_cases hold : site.identifier ∈ done.map Site.identifier
      · right
        rw [insert_eq_error_of_mem hindex hold]
        exact ⟨site, ⟨done, sites, rfl, hdone, hold⟩, rfl⟩
      · obtain ⟨more, hinsert, hmore⟩ := exists_insert_of_not_mem hindex hold
        have hnodup : ((done ++ [site]).map Site.identifier).Nodup := by
          rw [List.map_append]
          exact hdone.append (List.nodup_singleton _) (by simpa using hold)
        have hstep := ih hmore hnodup
        rw [List.append_assoc] at hstep
        rw [hinsert]
        exact hstep

/-- Sites are indexed if their identifiers are distinct, and otherwise the
first one that is repeated is reported. -/
theorem ofSites_cases (sites : List Site) :
    ((sites.map Site.identifier).Nodup ∧
        ∃ index, ofSites sites = .ok index ∧ index.entries.Perm sites) ∨
      ∃ site, FirstRepeated sites site ∧
        ofSites sites = .error (.duplicateIdentifier site.identifier) := by
  have hempty : (Catalog.empty : SiteIndex).entries.Perm [] := List.Perm.refl []
  exact foldlM_insert hempty List.nodup_nil

theorem FirstRepeated.not_nodup (hrepeated : FirstRepeated sites site) :
    ¬ (sites.map Site.identifier).Nodup := by
  obtain ⟨before, after, rfl, -, hmem⟩ := hrepeated
  intro hnodup
  rw [List.map_append, List.map_cons] at hnodup
  exact (List.nodup_append.mp hnodup).2.2 _ hmem _ List.mem_cons_self rfl

theorem exists_ofSites_of_nodup (hnodup : (sites.map Site.identifier).Nodup) :
    ∃ index, ofSites sites = .ok index ∧ index.entries.Perm sites := by
  rcases ofSites_cases sites with ⟨-, hindex⟩ | ⟨site, hrepeated, -⟩
  · exact hindex
  · exact absurd hnodup hrepeated.not_nodup

/-- The refusal of sites whose identifiers are not distinct. -/
theorem exists_firstRepeated_of_not_nodup (hnodup : ¬ (sites.map Site.identifier).Nodup) :
    ∃ site, FirstRepeated sites site ∧
      ofSites sites = .error (.duplicateIdentifier site.identifier) := by
  rcases ofSites_cases sites with ⟨hdistinct, -⟩ | hrepeated
  · exact absurd hdistinct hnodup
  · exact hrepeated

theorem entries_perm_of_ofSites (hindex : ofSites sites = .ok index) :
    index.entries.Perm sites ∧ (sites.map Site.identifier).Nodup := by
  rcases ofSites_cases sites with ⟨hnodup, all, hall, hperm⟩ | ⟨site, -, herror⟩
  · rw [hindex] at hall
    cases hall
    exact ⟨hperm, hnodup⟩
  · rw [hindex] at herror
    cases herror

theorem exists_duplicate_of_ofSites {error : Error} (herror : ofSites sites = .error error) :
    ∃ identifier, error = .duplicateIdentifier identifier := by
  rcases ofSites_cases sites with ⟨-, index, hindex, -⟩ | ⟨site, -, hrepeated⟩
  · rw [hindex] at herror
    cases herror
  · rw [hrepeated] at herror
    cases herror
    exact ⟨site.identifier, rfl⟩

variable {settings : Settings} {text : Text}

/-- Locating fails for the form of a document exactly if its scan fails. -/
theorem kind_locate_ne_parse_iff :
    (∀ error, locate settings text = .error error → error.kind ≠ .parse) ↔
      ∃ found, Scan.document settings text = ⟨found, .ok ()⟩ := by
  rw [locate]
  rcases Scan.document settings text with ⟨found, fault | done⟩
  · constructor
    · intro hlocate
      exact absurd rfl (hlocate (.malformed fault) rfl)
    · rintro ⟨_, hscan⟩
      cases hscan
  · constructor
    · intro _
      exact ⟨found, rfl⟩
    · intro _ error herror
      obtain ⟨identifier, rfl⟩ := exists_duplicate_of_ofSites herror
      intro hkind
      cases hkind

/-- A document whose scan succeeds is located by indexing its sites. -/
theorem locate_eq_ofSites {found : List Site}
    (hscan : Scan.document settings text = ⟨found, .ok ()⟩) :
    locate settings text = ofSites found := by
  rw [locate, hscan]

/-- A document that is located has been scanned to its end. -/
theorem exists_document_of_locate (hlocate : locate settings text = .ok index) :
    ∃ found, Scan.document settings text = ⟨found, .ok ()⟩ ∧ ofSites found = .ok index := by
  rw [locate] at hlocate
  rcases hscan : Scan.document settings text with ⟨found, fault | done⟩
  · rw [hscan] at hlocate
    cases hlocate
  · rw [hscan] at hlocate
    exact ⟨found, rfl, hlocate⟩

end ArrayPatch.SiteIndex
