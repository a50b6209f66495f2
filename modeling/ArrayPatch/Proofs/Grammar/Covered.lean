import ArrayPatch.Proofs.Grammar.Moved
import ArrayPatch.Proofs.Patch.Order

/-!
# Which patches a tree lists

The patches of a tree are those of the replaced arrays that no other replaced
array contains.  Hence a replaced array that belongs to a site has its patch
listed, unless a listed patch covers the site.

Patches that were made for sites of the tree and that do not overlap are all
listed: then no array that is replaced contains another one.
-/

namespace ArrayPatch

open Grammar Patch

/-- The patch that puts a new array in the place of the array of a site. -/
def Grammar.Replacement.patchAt (new : Replacement) (site : Site) : Patch where
  identifier := new.identifier
  start := site.valueStart
  stop := site.valueEnd
  text := new.array.text

namespace Grammar

variable {new? : Nat → Option Replacement} {patch : Patch}

/-- A patch writes the new array for its start. -/
def Writes (new? : Nat → Option Replacement) (patch : Patch) : Prop :=
  ∃ new, new? patch.start = some new ∧ patch.identifier = new.identifier ∧
    patch.text = new.array.text

mutual

/-- The patches of a tree write new arrays. -/
theorem Tree.writes_of_mem_patches : (tree : Tree) → {offset : Nat} →
    patch ∈ tree.patches new? offset → Writes new? patch
  | .literal _, _, hpatch | .string _, _, hpatch | .emptyObject _, _, hpatch => by
      cases hpatch
  | .emptyArray blanks, offset, hpatch => by
      rw [Tree.patches] at hpatch
      cases hnew : new? offset with
      | none =>
          rw [hnew] at hpatch
          cases hpatch
      | some new =>
          rw [hnew] at hpatch
          obtain rfl := List.mem_singleton.mp hpatch
          exact ⟨new, hnew, rfl, rfl⟩
  | .array blanks first more, offset, hpatch => by
      rw [Tree.patches] at hpatch
      cases hnew : new? offset with
      | none =>
          rw [hnew] at hpatch
          rcases List.mem_append.mp hpatch with hpatch | hpatch
          · exact Tree.writes_of_mem_patches first hpatch
          · exact Elements.writes_of_mem_patches more hpatch
      | some new =>
          rw [hnew] at hpatch
          obtain rfl := List.mem_singleton.mp hpatch
          exact ⟨new, hnew, rfl, rfl⟩
  | .object blanks first more, offset, hpatch => by
      rcases List.mem_append.mp hpatch with hpatch | hpatch
      · exact Member.writes_of_mem_patches first hpatch
      · exact Members.writes_of_mem_patches more hpatch

theorem Member.writes_of_mem_patches : (item : Member) → {offset : Nat} →
    patch ∈ item.patches new? offset → Writes new? patch
  | .mk _ _ _ value, _, hpatch => Tree.writes_of_mem_patches value hpatch

theorem Elements.writes_of_mem_patches : (more : Elements) → {offset : Nat} →
    patch ∈ more.patches new? offset → Writes new? patch
  | .done _, _, hpatch => by
      cases hpatch
  | .more _ _ element rest, _, hpatch => by
      rcases List.mem_append.mp hpatch with hpatch | hpatch
      · exact Tree.writes_of_mem_patches element hpatch
      · exact Elements.writes_of_mem_patches rest hpatch

theorem Members.writes_of_mem_patches : (more : Members) → {offset : Nat} →
    patch ∈ more.patches new? offset → Writes new? patch
  | .done _, _, hpatch => by
      cases hpatch
  | .more _ _ item rest, _, hpatch => by
      rcases List.mem_append.mp hpatch with hpatch | hpatch
      · exact Member.writes_of_mem_patches item hpatch
      · exact Members.writes_of_mem_patches rest hpatch

end

variable {settings : Settings} {site : Site} {new : Replacement} {offset : Nat}

theorem Tree.patches_of_isArray {tree : Tree} (harray : tree.isArray)
    (hnew : new? offset = some new) :
    tree.patches new? offset = [new.patch offset tree.text] := by
  cases tree with
  | emptyArray | array => rw [Tree.patches, hnew]
  | literal | string | emptyObject | object => cases harray

theorem Members.patches_subset {entry : Entry} : (more : Members) → {offset : Nat} →
    entry ∈ more.entries offset →
    entry.value.patches new? entry.valueStart ⊆ more.patches new? offset
  | .done _, _, hentry => by
      cases hentry
  | .more before after item rest, offset, hentry => by
      rcases List.mem_cons.mp hentry with rfl | hentry
      · cases item
        exact List.subset_append_left _ _
      · exact List.Subset.trans (Members.patches_subset rest hentry) (List.subset_append_right _ _)

theorem Tree.patches_subset {blanks : Text} {first : Member} {more : Members} {entry : Entry}
    (hentry : entry ∈ (Tree.object blanks first more).entries offset) :
    entry.value.patches new? entry.valueStart ⊆
      (Tree.object blanks first more).patches new? offset := by
  rcases List.mem_cons.mp hentry with rfl | hentry
  · cases first
    exact List.subset_append_left _ _
  · exact List.Subset.trans (more.patches_subset hentry) (List.subset_append_right _ _)

/-- The patch of a replaced array of a site is listed, or the site is covered. -/
def ListedOrCovered (patches : List Patch) (new : Replacement) (site : Site) : Prop :=
  new.patchAt site ∈ patches ∨ ∃ patch ∈ patches, patch.Covers site

theorem ListedOrCovered.subset {patches more : List Patch}
    (hlisted : ListedOrCovered patches new site) (hsubset : patches ⊆ more) :
    ListedOrCovered more new site := by
  rcases hlisted with hpatch | ⟨patch, hpatch, hcovers⟩
  · exact .inl (hsubset hpatch)
  · exact .inr ⟨patch, hsubset hpatch, hcovers⟩

mutual

/-- Every replaced array of a site has its patch listed or lies inside another
replaced array. -/
theorem Tree.listedOrCovered (hnew : new? site.valueStart = some new) : (tree : Tree) →
    {offset : Nat} → site ∈ tree.sites settings offset →
    ListedOrCovered (tree.patches new? offset) new site
  | .literal _, _, hsite | .string _, _, hsite | .emptyObject _, _, hsite
  | .emptyArray _, _, hsite => by
      cases hsite
  | .array blanks first more, offset, hsite => by
      cases hother : new? offset with
      | some other =>
          right
          have hbetween := Tree.between_of_mem_sites hsite
          refine ⟨other.patch offset (Tree.array blanks first more).text, ?_,
            hbetween.low_lt, hbetween.lt_high⟩
          rw [Tree.patches_of_isArray rfl hother]
          exact List.mem_singleton_self _
      | none =>
          rw [Tree.patches, hother]
          rcases List.mem_append.mp hsite with hsite | hsite
          · exact (Tree.listedOrCovered hnew first hsite).subset (List.subset_append_left _ _)
          · exact (Elements.listedOrCovered hnew more hsite).subset (List.subset_append_right _ _)
  | .object blanks first more, offset, hsite => by
      rcases List.mem_append.mp hsite with hinner | hown
      · rcases List.mem_append.mp hinner with hsite | hsite
        · exact (Member.listedOrCovered hnew first hsite).subset (List.subset_append_left _ _)
        · exact (Members.listedOrCovered hnew more hsite).subset (List.subset_append_right _ _)
      · left
        obtain ⟨target, htarget, harray, -, hstart, hend⟩ :=
          exists_target_of_siteOf? (Option.mem_toList.mp hown)
        apply Tree.patches_subset htarget
        rw [hstart] at hnew
        rw [Tree.patches_of_isArray harray hnew, List.mem_singleton, Replacement.patchAt,
          Replacement.patch, hstart, hend]
        rfl

theorem Member.listedOrCovered (hnew : new? site.valueStart = some new) : (item : Member) →
    {offset : Nat} → site ∈ item.sites settings offset →
    ListedOrCovered (item.patches new? offset) new site
  | .mk _ _ _ value, _, hsite => Tree.listedOrCovered hnew value hsite

theorem Elements.listedOrCovered (hnew : new? site.valueStart = some new) : (more : Elements) →
    {offset : Nat} → site ∈ more.sites settings offset →
    ListedOrCovered (more.patches new? offset) new site
  | .done _, _, hsite => by
      cases hsite
  | .more _ _ element rest, _, hsite => by
      rcases List.mem_append.mp hsite with hsite | hsite
      · exact (Tree.listedOrCovered hnew element hsite).subset (List.subset_append_left _ _)
      · exact (Elements.listedOrCovered hnew rest hsite).subset (List.subset_append_right _ _)

theorem Members.listedOrCovered (hnew : new? site.valueStart = some new) : (more : Members) →
    {offset : Nat} → site ∈ more.sites settings offset →
    ListedOrCovered (more.patches new? offset) new site
  | .done _, _, hsite => by
      cases hsite
  | .more _ _ item rest, _, hsite => by
      rcases List.mem_append.mp hsite with hsite | hsite
      · exact (Member.listedOrCovered hnew item hsite).subset (List.subset_append_left _ _)
      · exact (Members.listedOrCovered hnew rest hsite).subset (List.subset_append_right _ _)

end

/-! ## Patches without overlaps -/

/-- The patches that a tree lists ascend. -/
theorem Tree.ascends_patches (new? : Nat → Option Replacement) (offset : Nat) (tree : Tree) :
    Ascends (tree.patches new? offset) :=
  (Tree.rewrites_patches new? offset tree).pairwise

/-- Patches that were made for sites of a tree, one for each array that is to be
replaced. -/
structure MadeFor (settings : Settings) (new? : Nat → Option Replacement) (tree : Tree)
    (offset : Nat) (patches : List Patch) : Prop where
  exists_site : ∀ patch ∈ patches, ∃ site ∈ tree.sites settings offset,
    ∃ new, new? site.valueStart = some new ∧ patch = new.patchAt site
  exists_patch : ∀ start new, new? start = some new → ∃ patch ∈ patches, patch.start = start

namespace MadeFor

variable {tree : Tree} {patches : List Patch}

theorem start_lt_stop (hmade : MadeFor settings new? tree offset patches) :
    ∀ patch ∈ patches, patch.start < patch.stop := by
  intro patch hpatch
  obtain ⟨site, hsite, new, -, rfl⟩ := hmade.exists_site patch hpatch
  exact (Tree.between_of_mem_sites hsite).valueStart_lt

theorem mem_of_mem_patches (hmade : MadeFor settings new? tree offset patches)
    (hpatch : patch ∈ tree.patches new? offset) : patch ∈ patches := by
  have hascends := tree.ascends_patches new? offset
  have hrange := ((tree.rewrites_patches new? offset).bounds patch hpatch).2.1
  obtain ⟨new, hnew, -⟩ := tree.writes_of_mem_patches hpatch
  obtain ⟨made, hmem, hstart⟩ := hmade.exists_patch patch.start new hnew
  obtain ⟨site, hsite, other, hother, rfl⟩ := hmade.exists_site made hmem
  have hbetween := Tree.between_of_mem_sites hsite
  have hkey := hbetween.keyStart_lt
  have hvalue := hbetween.valueStart_lt
  change site.valueStart = patch.start at hstart
  rcases tree.listedOrCovered hother hsite with hlisted | ⟨outer, houter, hbefore, hbehind⟩
  · have hsame : other.patchAt site = patch := by
      apply hascends.eq_of_overlap hlisted hpatch
      · change site.valueStart < patch.stop
        omega
      · change patch.start < site.valueEnd
        omega
    rwa [← hsame]
  · -- The patch around the site would start at the array as well.
    have hsame : outer = patch := by
      apply hascends.eq_of_overlap houter hpatch
      · omega
      · omega
    subst hsame
    omega

/-- A patch that was made is listed, if it does not overlap another one. -/
theorem mem_patches_of_mem (hmade : MadeFor settings new? tree offset patches)
    (hascends : Ascends (ordered patches).reverse) (hpatch : patch ∈ patches) :
    patch ∈ tree.patches new? offset := by
  obtain ⟨site, hsite, new, hnew, rfl⟩ := hmade.exists_site patch hpatch
  have hbetween := Tree.between_of_mem_sites hsite
  have hkey := hbetween.keyStart_lt
  have hvalue := hbetween.valueStart_lt
  rcases tree.listedOrCovered hnew hsite with hlisted | ⟨outer, houter, hbefore, hbehind⟩
  · exact hlisted
  · have hmem : ∀ {patch}, patch ∈ patches → patch ∈ (ordered patches).reverse :=
      fun hpatch => List.mem_reverse.mpr (mem_ordered_iff.mpr hpatch)
    have hsame : outer = new.patchAt site := by
      apply hascends.eq_of_overlap (hmem (hmade.mem_of_mem_patches houter)) (hmem hpatch)
      · change outer.start < site.valueEnd
        omega
      · change site.valueStart < outer.stop
        omega
    rw [hsame] at hbefore
    change site.valueStart < site.keyStart at hbefore
    omega

/-- Patches that were made for sites and do not overlap are those of the tree. -/
theorem reverse_ordered_eq (hmade : MadeFor settings new? tree offset patches)
    (hascends : Ascends (ordered patches).reverse) :
    (ordered patches).reverse = tree.patches new? offset := by
  have hmem (patch : Patch) : patch ∈ (ordered patches).reverse ↔ patch ∈ patches := by
    rw [List.mem_reverse, mem_ordered_iff]
  apply hascends.eq_of_mem_iff _ (tree.ascends_patches new? offset)
  · intro patch
    rw [hmem]
    exact ⟨hmade.mem_patches_of_mem hascends, hmade.mem_of_mem_patches⟩
  · intro patch hpatch
    exact hmade.start_lt_stop patch ((hmem patch).mp hpatch)

end MadeFor

end Grammar

end ArrayPatch
