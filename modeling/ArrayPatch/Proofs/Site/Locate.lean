import ArrayPatch.Proofs.Grammar.Document
import ArrayPatch.Proofs.Grammar.Objects
import ArrayPatch.Proofs.Site.Index
import ArrayPatch.Scan.Anywhere

/-!
# The sites of a text are those of its objects

A scan from the start of a text finds the sites of the objects of the syntax
tree that it reads, in the order in which the objects close.  Which members
decide is said by `siteOf?`: the last one of each key.  Scanning the text as a
document indexes these sites or names the first identifier that is repeated.
-/

namespace ArrayPatch

open Grammar

/-- A text starts with blanks and a syntax tree that ends at an offset. -/
structure Grammar.StartsWithTree (settings : Settings) (text : Text) (stop : Nat) (blanks : Text)
    (tree : Tree) (rest : Text) : Prop where
  text_eq : text = blanks ++ tree.text ++ rest
  allBlank : AllBlank blanks
  wellFormed : tree.WellFormed
  depth_le : tree.depth ≤ settings.maxDepth
  canPrecede : tree.CanPrecede rest
  stop_eq : stop = blanks.size + tree.text.size

namespace Scan

variable {settings : Settings} {text : Text} {stop : Nat}

theorem valueAt_zero_eq_ok_iff {found : List Site} :
    valueAt settings text 0 = ⟨found, .ok stop⟩ ↔
      ∃ next, (value settings settings.maxDepth (Cursor.start text)).Ends found next ∧
        stop = next.offset := by
  have htail : text.tailAt 0 = ⟨0, text⟩ := by rw [Text.tailAt]
  rw [valueAt, htail]
  simp only [if_true, bind_eq_ok_iff, pure_eq_ok_iff, Subtype.exists, Ends, Cursor.start]
  constructor
  · rintro ⟨_, next, hnext, _, hvalue, ⟨rfl, rfl⟩, rfl⟩
    rw [List.append_nil]
    exact ⟨next, ⟨hnext, hvalue⟩, rfl⟩
  · rintro ⟨next, ⟨hnext, hvalue⟩, rfl⟩
    exact ⟨found, next, hnext, [], hvalue, ⟨rfl, rfl⟩, (List.append_nil found).symm⟩

theorem exists_startsWithTree (hread : (valueAt settings text 0).result = .ok stop) :
    ∃ blanks tree rest, StartsWithTree settings text stop blanks tree rest := by
  have hscan : valueAt settings text 0 = ⟨(valueAt settings text 0).found, .ok stop⟩ :=
    ext_iff.mpr ⟨rfl, hread⟩
  obtain ⟨next, hends, rfl⟩ := valueAt_zero_eq_ok_iff.mp hscan
  obtain ⟨blanks, tree, hblanks, hpasses, hwell, hdepth, hprecede⟩ := passesValue_of_ends hends
  refine ⟨blanks, tree, next.rest, hpasses.rest_eq, hblanks, hwell, hdepth, hprecede, ?_⟩
  rw [hpasses.offset_eq, Text.size_append]
  exact Nat.zero_add _

/-- A tree behind blanks is read, and what is reported for its objects is found. -/
theorem valueAt_zero_of_startsWithTree {blanks rest : Text} {tree : Tree}
    (htree : StartsWithTree settings text stop blanks tree rest) :
    valueAt settings text 0 =
      ⟨(tree.objects blanks.size).filterMap (Placed.reported? settings), .ok stop⟩ := by
  have hblanks : (Cursor.start text).Passes blanks ⟨blanks.size, tree.text ++ rest⟩ := by
    constructor
    · rw [Cursor.start, htree.text_eq, List.append_assoc]
    · exact (Nat.zero_add _).symm
  have hpasses : (Cursor.mk blanks.size (tree.text ++ rest)).Passes tree.text
      ⟨blanks.size + tree.text.size, rest⟩ := ⟨rfl, rfl⟩
  have hskip := Cursor.skipBlanks_eq_of_tree htree.allBlank hblanks hpasses htree.wellFormed
  have hends := ends_value_of_tree settings hskip tree hpasses htree.wellFormed htree.depth_le
    htree.canPrecede
  exact valueAt_zero_eq_ok_iff.mpr ⟨_, hends, htree.stop_eq⟩

/-- The sites found behind blanks are those of the tree. -/
theorem found_valueAt_zero {blanks rest : Text} {tree : Tree}
    (hfields : settings.identifierField ≠ settings.targetField)
    (htree : StartsWithTree settings text stop blanks tree rest) :
    (valueAt settings text 0).found = tree.sites settings blanks.size := by
  rw [valueAt_zero_of_startsWithTree htree, Placed.reported?_eq_site? hfields,
    Tree.sites_eq_filterMap_objects]

end Scan

/-- A scan from the start of a text finds, for the objects of the tree that it
reads and in the order in which these close, the sites that their last members
give.  If nothing but blanks follows, locating indexes these sites, or reports
the first one whose identifier is repeated. -/
theorem found_eq_sites_of_objects {settings : Settings}
    (hfields : settings.identifierField ≠ settings.targetField) {text : Text} {stop : Nat}
    (hread : (Scan.valueAt settings text 0).result = .ok stop) :
    (∃ blanks tree rest, StartsWithTree settings text stop blanks tree rest) ∧
      ∀ blanks tree rest, StartsWithTree settings text stop blanks tree rest →
        ∀ objects found, objects = tree.objects blanks.size →
          found = (Scan.valueAt settings text 0).found →
          found = objects.filterMap (Placed.site? settings) ∧
          objects.Pairwise (fun earlier later => earlier.stop < later.stop) ∧
          (∀ object ∈ objects, text.HasAt 0 object.tree.text object.start ∧
            ∀ entry ∈ object.tree.entries object.start, entry.StandsIn text 0) ∧
          (AllBlank rest →
            ((found.map Site.identifier).Nodup →
              ∃ index, SiteIndex.locate settings text = .ok index ∧ index.entries.Perm found) ∧
            (¬ (found.map Site.identifier).Nodup →
              ∃ site, SiteIndex.FirstRepeated found site ∧
                SiteIndex.locate settings text =
                  .error (.duplicateIdentifier site.identifier))) := by
  refine ⟨Scan.exists_startsWithTree hread, ?_⟩
  rintro blanks tree rest htree _ _ rfl rfl
  have hfound := Scan.found_valueAt_zero hfields htree
  have hplace : text.HasAt 0 tree.text blanks.size :=
    ⟨blanks, rest, htree.text_eq, Nat.zero_add _⟩
  refine ⟨?_, ?_, ?_, ?_⟩
  · rw [hfound, Tree.sites_eq_filterMap_objects]
  · exact (Tree.closeInOrder_objects blanks.size tree).pairwise
  · intro object hobject
    have hstands := hplace.trans (Tree.hasAt_of_mem_objects tree hobject)
    refine ⟨hstands, ?_⟩
    intro entry hentry
    exact (Tree.standsIn_of_mem_entries hentry).trans hstands
  · intro hblank
    obtain ⟨sites, hscan, hsites⟩ := Scan.exists_document_of_isDocument
      ⟨htree.text_eq, htree.allBlank, hblank, htree.wellFormed, htree.depth_le⟩
    rw [SiteIndex.locate_eq_ofSites hscan, hsites hfields, hfound]
    constructor
    · intro hnodup
      exact SiteIndex.exists_ofSites_of_nodup hnodup
    · intro hnodup
      exact SiteIndex.exists_firstRepeated_of_not_nodup hnodup

/-- The scan of an object with a repeated key, its last members deciding. -/
theorem found_eq_sites_of_repeated_key :
    ∃ text stop blanks tree rest,
      text = "\x7b\"id\":1,\"tags\":[],\"id\":\"a\"\x7d".toList ∧ stop = 27 ∧
      StartsWithTree {} text stop blanks tree rest ∧
      (Scan.valueAt {} text 0).found =
        (tree.objects blanks.size).filterMap (Placed.site? {}) := by
  have hread : (Scan.valueAt {} "\x7b\"id\":1,\"tags\":[],\"id\":\"a\"\x7d".toList 0).result =
      .ok 27 := by
    decide +kernel
  obtain ⟨⟨blanks, tree, rest, htree⟩, hfound⟩ :=
    @found_eq_sites_of_objects {} (by decide) _ _ hread
  exact ⟨_, _, blanks, tree, rest, rfl, rfl, htree, (hfound blanks tree rest htree _ _ rfl rfl).1⟩

end ArrayPatch
