import ArrayPatch.Proofs.Grammar.Completeness
import ArrayPatch.Proofs.Grammar.Soundness
import ArrayPatch.Site.Locate
import Mathlib.Data.List.TakeWhile

/-!
# Documents are trees between blanks

The scan of a whole document succeeds exactly if the document is a well-formed
syntax tree with blanks around it.  If the two field names differ, the sites
found are those of the tree, wherever a reading of the document puts it.
-/

namespace ArrayPatch

open Grammar

/-- A text is a syntax tree between blanks, no deeper than the nesting limit. -/
structure Grammar.IsDocument (settings : Settings) (text blanks : Text) (tree : Tree)
    (after : Text) : Prop where
  text_eq : text = blanks ++ tree.text ++ after
  allBlank_before : AllBlank blanks
  allBlank_after : AllBlank after
  wellFormed : tree.WellFormed
  depth_le : tree.depth ≤ settings.maxDepth

theorem Cursor.rest_skipBlanks_eq_nil_iff {cursor : Cursor} :
    cursor.skipBlanks.rest = [] ↔ AllBlank cursor.rest :=
  List.dropWhile_eq_nil_iff

namespace Scan

variable {settings : Settings} {depth : Nat} {cursor next : Cursor}

/-- The scanner finds the end of a value exactly where there is one. -/
theorem exists_ends_iff :
    (∃ found, (value settings depth cursor).Ends found next) ↔ PassesValue depth cursor next := by
  constructor
  · rintro ⟨found, hends⟩
    exact passesValue_of_ends hends
  · rintro ⟨blanks, tree, hblanks, hpasses, hwell, hdepth, hprecede⟩
    obtain ⟨start, hstart, htree⟩ := Cursor.passes_append_iff.mp hpasses
    have hskip := Cursor.skipBlanks_eq_of_tree hblanks hstart htree hwell
    obtain ⟨found, hends, -⟩ :=
      exists_ends_value settings hskip tree htree hwell hdepth hprecede
    exact ⟨found, hends⟩

/-- A document ends where its value ends and nothing but blanks follows. -/
theorem document_eq_ok_iff {text : Text} {found : List Site} :
    document settings text = ⟨found, .ok ()⟩ ↔
      ∃ next, (value settings settings.maxDepth (Cursor.start text)).Ends found next ∧
        AllBlank next.rest := by
  simp only [document, bind_eq_ok_iff, Subtype.exists, Ends]
  constructor
  · rintro ⟨first, next, hnext, second, hvalue, hrest, rfl⟩
    refine ⟨next, ?_⟩
    rw [← Cursor.rest_skipBlanks_eq_nil_iff]
    generalize next.skipBlanks = skipped at hrest ⊢
    rcases skipped with ⟨offset, _ | ⟨c, rest⟩⟩
    · obtain ⟨rfl, -⟩ := pure_eq_ok_iff.mp hrest
      rw [List.append_nil]
      exact ⟨⟨hnext, hvalue⟩, rfl⟩
    · exact absurd hrest fail_ne_ok
  · rintro ⟨next, ⟨hnext, hvalue⟩, hblank⟩
    refine ⟨found, next, hnext, [], hvalue, ?_, (List.append_nil found).symm⟩
    rw [← Cursor.rest_skipBlanks_eq_nil_iff] at hblank
    generalize next.skipBlanks = skipped at hblank ⊢
    rcases skipped with ⟨offset, _ | ⟨c, rest⟩⟩
    · rfl
    · cases hblank

/-- A document that is scanned to its end is a tree between blanks. -/
theorem exists_isDocument_of_document {text : Text} {found : List Site}
    (hscan : document settings text = ⟨found, .ok ()⟩) :
    ∃ blanks tree after, IsDocument settings text blanks tree after := by
  obtain ⟨next, hends, hafter⟩ := document_eq_ok_iff.mp hscan
  obtain ⟨blanks, tree, hblanks, hpasses, hwell, hdepth, -⟩ := passesValue_of_ends hends
  exact ⟨blanks, tree, next.rest, hpasses.rest_eq, hblanks, hafter, hwell, hdepth⟩

/-- A tree between blanks is scanned to its end, and what is reported for its
objects is found. -/
theorem document_of_isDocument {text blanks after : Text} {tree : Tree}
    (hdocument : IsDocument settings text blanks tree after) :
    document settings text =
      ⟨(tree.objects blanks.size).filterMap (Placed.reported? settings), .ok ()⟩ := by
  have hblanks : (Cursor.start text).Passes blanks ⟨blanks.size, tree.text ++ after⟩ := by
    constructor
    · rw [Cursor.start, hdocument.text_eq, List.append_assoc]
    · exact (Nat.zero_add _).symm
  have htree : (Cursor.mk blanks.size (tree.text ++ after)).Passes tree.text
      ⟨blanks.size + tree.text.size, after⟩ := ⟨rfl, rfl⟩
  have hskip :=
    Cursor.skipBlanks_eq_of_tree hdocument.allBlank_before hblanks htree hdocument.wellFormed
  have hends := ends_value_of_tree settings hskip tree htree hdocument.wellFormed
    hdocument.depth_le (Tree.canPrecede_of_delimited hdocument.allBlank_after.delimited)
  exact document_eq_ok_iff.mpr ⟨_, hends, hdocument.allBlank_after⟩

/-- A tree between blanks is scanned to its end, and its sites are found. -/
theorem exists_document_of_isDocument {text blanks after : Text} {tree : Tree}
    (hdocument : IsDocument settings text blanks tree after) :
    ∃ found, document settings text = ⟨found, .ok ()⟩ ∧
      (settings.identifierField ≠ settings.targetField →
        found = tree.sites settings blanks.size) := by
  refine ⟨_, document_of_isDocument hdocument, ?_⟩
  intro hfields
  rw [Placed.reported?_eq_site? hfields, Tree.sites_eq_filterMap_objects]

end Scan

end ArrayPatch
