import ArrayPatch.Layout
import ArrayPatch.Proofs.Grammar.Document
import ArrayPatch.Proofs.Grammar.Nesting
import ArrayPatch.Proofs.Site.Index

/-!
# Located texts

A text whose sites are located is a tree between blanks, and its index holds the
sites of this tree.  So the key and the array of every site in the index lie at
boundaries of the text.  The array can be taken out of the text, and the line of
the key can be looked at.
-/

namespace ArrayPatch

open Grammar

/-- A text is a document, and an index holds the sites of its tree. -/
structure Located (settings : Settings) (text : Text) (index : SiteIndex) (blanks : Text)
    (tree : Tree) (after : Text) : Prop where
  document : IsDocument settings text blanks tree after
  entries_perm : index.entries.Perm (tree.sites settings blanks.size)

variable {settings : Settings} {text blanks after : Text} {index : SiteIndex} {tree : Tree}
variable {site : Site}

/-- A located text is located in whatever tree it is taken for. -/
theorem SiteIndex.located_of_isDocument (hfields : settings.identifierField ≠ settings.targetField)
    (hlocate : SiteIndex.locate settings text = .ok index)
    (hdocument : IsDocument settings text blanks tree after) :
    Located settings text index blanks tree after where
  document := hdocument
  entries_perm := by
    obtain ⟨found, hscan, hindex⟩ := SiteIndex.exists_document_of_locate hlocate
    obtain ⟨sites, hsame, hsites⟩ := Scan.exists_document_of_isDocument hdocument
    cases hscan.symm.trans hsame
    rw [← hsites hfields]
    exact (SiteIndex.entries_perm_of_ofSites hindex).1

/-- A text whose sites are located is a document. -/
theorem SiteIndex.exists_located (hfields : settings.identifierField ≠ settings.targetField)
    (hlocate : SiteIndex.locate settings text = .ok index) :
    ∃ blanks tree after, Located settings text index blanks tree after := by
  obtain ⟨found, hscan, -⟩ := SiteIndex.exists_document_of_locate hlocate
  obtain ⟨blanks, tree, after, hdocument⟩ := Scan.exists_isDocument_of_document hscan
  exact ⟨blanks, tree, after, SiteIndex.located_of_isDocument hfields hlocate hdocument⟩

namespace Located

variable (hlocated : Located settings text index blanks tree after)

include hlocated

theorem hasAt_tree : text.HasAt 0 tree.text blanks.size :=
  ⟨blanks, after, hlocated.document.text_eq, Nat.zero_add _⟩

theorem mem_sites (hsite : site ∈ index.entries) : site ∈ tree.sites settings blanks.size :=
  hlocated.entries_perm.mem_iff.mp hsite

/-- The key of a site in front of its array. -/
theorem between_of_mem (hsite : site ∈ index.entries) :
    site.Between blanks.size (blanks.size + tree.text.size) :=
  Tree.between_of_mem_sites (hlocated.mem_sites hsite)

/-- Two sites of the index are the same, lie apart, or lie one inside the array of
the other. -/
theorem nested_of_mem {first second : Site} (hfirst : first ∈ index.entries)
    (hsecond : second ∈ index.entries) :
    first = second ∨ first.Apart second ∨ first.Within second ∨ second.Within first :=
  Tree.nested_of_mem_sites (hlocated.mem_sites hfirst) (hlocated.mem_sites hsecond)

theorem exists_array (hsite : site ∈ index.entries) :
    ∃ array : Tree, array.isArray ∧ text.HasAt 0 array.text site.valueStart ∧
      site.valueEnd = site.valueStart + array.text.size := by
  obtain ⟨array, harray, hat, hend⟩ := Tree.exists_array_of_mem_sites (hlocated.mem_sites hsite)
  exact ⟨array, harray, hlocated.hasAt_tree.trans hat, hend⟩

theorem exists_key (hsite : site ∈ index.entries) :
    ∃ pieces, text.HasAt 0 (StringPiece.tokenText pieces) site.keyStart := by
  have hmem := hlocated.mem_sites hsite
  rw [Tree.sites_eq_filterMap_objects] at hmem
  obtain ⟨placed, hplaced, hsite⟩ := List.mem_filterMap.mp hmem
  obtain ⟨target, htarget, -, hkey, -⟩ := exists_target_of_siteOf? hsite
  obtain ⟨pieces, -, hat⟩ := (Tree.standsIn_of_mem_entries htarget).key
  rw [hkey]
  exact ⟨pieces, hlocated.hasAt_tree.trans ((Tree.hasAt_of_mem_objects tree hplaced).trans hat)⟩

theorem exists_rawValue? (hsite : site ∈ index.entries) :
    ∃ raw, site.rawValue? text = some raw := by
  obtain ⟨array, -, hat, hend⟩ := hlocated.exists_array hsite
  refine ⟨array.text, ?_⟩
  rw [Site.rawValue?, hend]
  exact hat.slice?_eq_some

theorem exists_indentationAt? (hsite : site ∈ index.entries) :
    ∃ indentation, text.indentationAt? site.keyStart = some indentation := by
  obtain ⟨pieces, before, behind, htext, hstart⟩ := hlocated.exists_key hsite
  rw [Nat.zero_add] at hstart
  rw [List.append_assoc] at htext
  have hcut := Text.splitAt?_eq_some_iff.mpr ⟨htext, hstart⟩
  rw [Text.indentationAt?, hcut]
  exact ⟨_, rfl⟩

end Located

end ArrayPatch
