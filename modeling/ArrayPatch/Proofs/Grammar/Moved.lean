import ArrayPatch.Proofs.Grammar.Nesting
import ArrayPatch.Proofs.Grammar.Relocated
import ArrayPatch.Proofs.Grammar.Replace
import ArrayPatch.Proofs.Patch.Moves

/-!
# The sites of a tree with new arrays

A site survives if no patch covers it, that is, if it does not lie inside a
replaced array.  The sites of the new tree are the surviving sites of the old
tree, in the same order, each of them with its offsets moved.
-/

namespace ArrayPatch

open Grammar Patch

/-- A site lies strictly inside the range of a patch. -/
def Patch.Covers (patch : Patch) (site : Site) : Prop :=
  patch.start < site.keyStart ∧ site.valueEnd < patch.stop

instance (patch : Patch) (site : Site) : Decidable (patch.Covers site) :=
  inferInstanceAs (Decidable (_ ∧ _))

/-- A site that no patch covers. -/
def Site.Survives (patches : List Patch) (site : Site) : Prop :=
  ∀ patch ∈ patches, ¬ patch.Covers site

instance (patches : List Patch) (site : Site) : Decidable (site.Survives patches) :=
  inferInstanceAs (Decidable (∀ patch ∈ patches, ¬ patch.Covers site))

/-- A site and the same site with its offsets moved. -/
structure Site.MovesTo (patches : List Patch) (site moved : Site) : Prop where
  identifier_eq : moved.identifier = site.identifier
  keyStart : Moves patches site.keyStart moved.keyStart
  valueStart : Moves patches site.valueStart moved.valueStart
  valueEnd : Moves patches site.valueEnd moved.valueEnd

namespace Grammar

/-- An entry and the same entry with its offsets moved.  No patch crosses the
key. -/
structure Entry.MovesTo (patches : List Patch) (entry moved : Entry) : Prop
    extends Entry.Relocated (Moves patches) entry moved where
  clear : ∀ patch ∈ patches, patch.stop ≤ entry.keyStart ∨ entry.valueStart ≤ patch.start

variable {new? : Nat → Option Replacement} (hflat : Flat new?)

include hflat

theorem Tree.isArray_replace (offset : Nat) (tree : Tree) :
    (tree.replace new? offset).isArray = tree.isArray := by
  cases tree with
  | literal | string | emptyObject | object => rfl
  | emptyArray blanks =>
      rw [Tree.replace]
      cases hnew : new? offset with
      | none => rfl
      | some new => exact hflat.isArray offset new hnew
  | array blanks first more =>
      rw [Tree.replace]
      cases hnew : new? offset with
      | none => rfl
      | some new => exact hflat.isArray offset new hnew

theorem Tree.meaning?_replace (offset : Nat) (tree : Tree) :
    (tree.replace new? offset).meaning? = tree.meaning? := by
  have harray := Tree.isArray_replace hflat offset tree
  cases tree with
  | literal | string | emptyObject | object => rfl
  | emptyArray | array =>
      rw [Tree.meaning?_eq_none_of_isArray harray, Tree.meaning?_eq_none_of_isArray rfl]

omit hflat in
/-- The value of a member is the last part of it. -/
theorem Member.part_value {all : List Patch} {offset moved : Nat} {key : List StringPiece}
    {before after : Text} {value : Tree}
    (hpart : RewritesPart all ((Member.mk key before after value).patches new? offset) offset moved
      (Member.mk key before after value).text
      ((Member.mk key before after value).replace new? offset).text) :
    RewritesPart all
      (value.patches new? ((Member.mk key before after value).valueStart offset))
      ((Member.mk key before after value).valueStart offset)
      ((Member.mk key before after value).valueStart moved) value.text
      (value.replace new? ((Member.mk key before after value).valueStart offset)).text := by
  apply hpart.back _ _ (Tree.rewrites_patches new? _ value)
  · exact add_size_colon (StringPiece.tokenText key) before after offset
  · exact add_size_colon (StringPiece.tokenText key) before after moved

theorem Member.entry_movesTo {all : List Patch} {offset moved : Nat} {item : Member}
    (hpart : RewritesPart all (item.patches new? offset) offset moved item.text
      (item.replace new? offset).text) :
    Entry.MovesTo all (item.entry offset) ((item.replace new? offset).entry moved) := by
  cases item with
  | mk key before after value =>
      have hvalue := Member.part_value hpart
      have hstart : ∀ patch ∈ (Member.mk key before after value).patches new? offset,
          (Member.mk key before after value).valueStart offset ≤ patch.start :=
        fun patch hpatch => (hvalue.rewrites.bounds patch hpatch).1
      have hsize : (Member.mk key before after value).valueStart offset ≤
          offset + (Member.mk key before after value).text.size := by
        rw [Member.size_text, Member.valueStart]
        omega
      refine ⟨⟨rfl, Tree.meaning?_replace hflat _ value, Tree.isArray_replace hflat _ value,
        hpart.moves, hvalue.moves, hvalue.moves_size⟩, ?_⟩
      intro patch hpatch
      exact (hpart.stop_le_or_le_start hsize hstart patch hpatch).imp_right And.left

theorem Members.entries_moveTo {all : List Patch} : (more : Members) → {offset moved : Nat} →
    RewritesPart all (more.patches new? offset) offset moved more.text
      (more.replace new? offset).text →
    List.Forall₂ (Entry.MovesTo all) (more.entries offset)
      ((more.replace new? offset).entries moved)
  | .done _, _, _, _ => .nil
  | .more before after item rest, offset, moved, hpart => by
      obtain ⟨hitem, hrest⟩ := hpart.split (add_size_comma before after offset)
        (add_size_comma before after moved) (Member.rewrites_patches new? _ item)
        (Members.rewrites_patches new? _ rest)
      exact .cons (Member.entry_movesTo hflat hitem) (Members.entries_moveTo rest hrest)

/-- The entries of an object move with it. -/
theorem Tree.entries_moveTo {all : List Patch} {offset moved : Nat} {blanks : Text}
    {first : Member} {more : Members}
    (hpart : RewritesPart all ((Tree.object blanks first more).patches new? offset) offset moved
      (Tree.object blanks first more).text
      ((Tree.object blanks first more).replace new? offset).text) :
    List.Forall₂ (Entry.MovesTo all) ((Tree.object blanks first more).entries offset)
      (((Tree.object blanks first more).replace new? offset).entries moved) := by
  obtain ⟨hfirst, hmore⟩ := hpart.split (add_size_open rfl blanks offset)
    (add_size_open rfl blanks moved) (Member.rewrites_patches new? _ first)
    (Members.rewrites_patches new? _ more)
  exact .cons (Member.entry_movesTo hflat hfirst) (Members.entries_moveTo hflat more hmore)

omit hflat

variable {settings : Settings} {all : List Patch} {entries newEntries : List Entry}

/-- The site of an object moves with its entries. -/
theorem siteOf?_movesTo (settings : Settings)
    (hentries : List.Forall₂ (Entry.MovesTo all) entries newEntries) :
    Option.Rel (Site.MovesTo all) (siteOf? settings entries) (siteOf? settings newEntries) := by
  have hrel := siteOf?_relocated settings (hentries.imp fun _ _ hentry => hentry.toRelocated)
  generalize siteOf? settings entries = site at hrel
  generalize siteOf? settings newEntries = moved at hrel
  cases hrel with
  | none => exact .none
  | some hsite =>
      exact .some ⟨hsite.identifier_eq, hsite.keyStart, hsite.valueStart, hsite.valueEnd⟩

/-- No patch crosses the key of an entry that moves. -/
theorem clear_of_mem (hentries : List.Forall₂ (Entry.MovesTo all) entries newEntries) :
    ∀ entry ∈ entries, ∀ patch ∈ all,
      patch.stop ≤ entry.keyStart ∨ entry.valueStart ≤ patch.start := by
  induction hentries with
  | nil => exact List.forall_mem_nil _
  | cons hentry hrest ih => exact List.forall_mem_cons.mpr ⟨hentry.clear, ih⟩

/-- No patch covers the site of an object, as none crosses its key. -/
theorem survives_of_siteOf? {site : Site}
    (hentries : List.Forall₂ (Entry.MovesTo all) entries newEntries)
    (hsite : siteOf? settings entries = some site) (hkey : site.keyStart < site.valueStart)
    (hvalue : site.valueStart < site.valueEnd) : site.Survives all := by
  obtain ⟨target, htarget, -, hkeyStart, hvalueStart, -⟩ := exists_target_of_siteOf? hsite
  rintro patch hpatch ⟨hbefore, hbehind⟩
  have hclear := clear_of_mem hentries target htarget patch hpatch
  omega

/-! ## The sites of a tree -/

/-- The patch in the place of an array covers all sites inside the array. -/
theorem filter_survives_eq_nil {new : Replacement} {tree : Tree} {offset moved : Nat} {new' : Text}
    (hpart : RewritesPart all [new.patch offset tree.text] offset moved tree.text new') :
    (tree.sites settings offset).filter (Site.Survives all) = [] := by
  apply List.filter_eq_nil_iff.mpr
  intro site hsite hsurvives
  have hbetween := Tree.between_of_mem_sites hsite
  obtain ⟨before, after, rfl, -, -⟩ := hpart.context
  have hpatch : new.patch offset tree.text ∈ before ++ [new.patch offset tree.text] ++ after := by
    simp
  exact of_decide_eq_true hsurvives _ hpatch ⟨hbetween.low_lt, hbetween.lt_high⟩

/-- The site of an object survives and moves with the object. -/
theorem own_site_movesTo {blanks : Text} {first : Member} {more : Members} {offset : Nat}
    (hentries : List.Forall₂ (Entry.MovesTo all) ((Tree.object blanks first more).entries offset)
      newEntries) :
    List.Forall₂ (Site.MovesTo all)
      ((siteOf? settings ((Tree.object blanks first more).entries offset)).toList.filter
        (Site.Survives all))
      (siteOf? settings newEntries).toList := by
  have hrel := siteOf?_movesTo settings hentries
  cases hsite : siteOf? settings ((Tree.object blanks first more).entries offset) with
  | none =>
      rw [hsite] at hrel
      generalize siteOf? settings newEntries = newSite at hrel
      cases hrel
      exact .nil
  | some site =>
      have hbetween : site.Between offset (offset + (Tree.object blanks first more).text.size) :=
        Placed.between_of_site? ⟨offset, _⟩ (Text.HasAt.refl _ offset) hsite
      have hsurvives := survives_of_siteOf? hentries hsite hbetween.keyStart_lt
        hbetween.valueStart_lt
      rw [hsite] at hrel
      generalize siteOf? settings newEntries = newSite at hrel
      cases hrel with
      | some hmoves =>
          have hkept : [site].filter (Site.Survives all) = [site] := by
            simpa using hsurvives
          rw [Option.toList_some, hkept]
          exact .cons hmoves .nil

mutual

/-- The sites of the new tree are the surviving ones with their offsets moved. -/
theorem Tree.sites_moveTo (hflat : Flat new?) : (tree : Tree) → {offset moved : Nat} →
    RewritesPart all (tree.patches new? offset) offset moved tree.text
      (tree.replace new? offset).text →
    List.Forall₂ (Site.MovesTo all)
      ((tree.sites settings offset).filter (Site.Survives all))
      ((tree.replace new? offset).sites settings moved)
  | .literal _, _, _, _ | .string _, _, _, _ | .emptyObject _, _, _, _ => .nil
  | .emptyArray blanks, offset, moved, hpart => by
      rw [Tree.replace]
      cases hnew : new? offset with
      | none => exact .nil
      | some new =>
          dsimp only
          rw [hflat.sites_eq offset new hnew]
          exact .nil
  | .array blanks first more, offset, moved, hpart => by
      rw [Tree.patches, Tree.replace] at hpart
      rw [Tree.replace]
      cases hnew : new? offset with
      | none =>
          rw [hnew] at hpart
          obtain ⟨hfirst, hmore⟩ := hpart.split (add_size_open rfl blanks offset)
            (add_size_open rfl blanks moved) (Tree.rewrites_patches new? _ first)
            (Elements.rewrites_patches new? _ more)
          dsimp only
          rw [Tree.sites, Tree.sites, List.filter_append]
          exact List.rel_append (Tree.sites_moveTo hflat first hfirst)
            (Elements.sites_moveTo hflat more hmore)
      | some new =>
          rw [hnew] at hpart
          dsimp only
          rw [hflat.sites_eq offset new hnew, filter_survives_eq_nil hpart]
          exact .nil
  | .object blanks first more, offset, moved, hpart => by
      have hentries := Tree.entries_moveTo hflat hpart
      obtain ⟨hfirst, hmore⟩ := hpart.split (add_size_open rfl blanks offset)
        (add_size_open rfl blanks moved) (Member.rewrites_patches new? _ first)
        (Members.rewrites_patches new? _ more)
      rw [Tree.replace, Tree.sites, Tree.sites, List.filter_append, List.filter_append]
      apply List.rel_append
      · exact List.rel_append (Member.sites_moveTo hflat first hfirst)
          (Members.sites_moveTo hflat more hmore)
      · exact own_site_movesTo hentries

theorem Member.sites_moveTo (hflat : Flat new?) : (item : Member) → {offset moved : Nat} →
    RewritesPart all (item.patches new? offset) offset moved item.text
      (item.replace new? offset).text →
    List.Forall₂ (Site.MovesTo all)
      ((item.sites settings offset).filter (Site.Survives all))
      ((item.replace new? offset).sites settings moved)
  | .mk _ _ _ value, _, _, hpart =>
      Tree.sites_moveTo hflat value (Member.part_value hpart)

theorem Elements.sites_moveTo (hflat : Flat new?) : (more : Elements) → {offset moved : Nat} →
    RewritesPart all (more.patches new? offset) offset moved more.text
      (more.replace new? offset).text →
    List.Forall₂ (Site.MovesTo all)
      ((more.sites settings offset).filter (Site.Survives all))
      ((more.replace new? offset).sites settings moved)
  | .done _, _, _, _ => .nil
  | .more before after element rest, offset, moved, hpart => by
      obtain ⟨helement, hrest⟩ := hpart.split (add_size_comma before after offset)
        (add_size_comma before after moved) (Tree.rewrites_patches new? _ element)
        (Elements.rewrites_patches new? _ rest)
      rw [Elements.replace, Elements.sites, Elements.sites, List.filter_append]
      exact List.rel_append (Tree.sites_moveTo hflat element helement)
        (Elements.sites_moveTo hflat rest hrest)

theorem Members.sites_moveTo (hflat : Flat new?) : (more : Members) → {offset moved : Nat} →
    RewritesPart all (more.patches new? offset) offset moved more.text
      (more.replace new? offset).text →
    List.Forall₂ (Site.MovesTo all)
      ((more.sites settings offset).filter (Site.Survives all))
      ((more.replace new? offset).sites settings moved)
  | .done _, _, _, _ => .nil
  | .more before after item rest, offset, moved, hpart => by
      obtain ⟨hitem, hrest⟩ := hpart.split (add_size_comma before after offset)
        (add_size_comma before after moved) (Member.rewrites_patches new? _ item)
        (Members.rewrites_patches new? _ rest)
      rw [Members.replace, Members.sites, Members.sites, List.filter_append]
      exact List.rel_append (Member.sites_moveTo hflat item hitem)
        (Members.sites_moveTo hflat rest hrest)

end

end Grammar

end ArrayPatch
