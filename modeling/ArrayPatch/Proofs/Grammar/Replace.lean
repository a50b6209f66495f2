import ArrayPatch.Proofs.Grammar.Entries
import ArrayPatch.Proofs.Patch.Rewrites
import Mathlib.Order.MinMax

/-!
# Replacing arrays in a tree

`Tree.replace` puts other arrays in the place of some arrays of a tree, and
`Tree.patches` lists the patches that do the same to the text of the tree.  An
array inside a replaced one is gone with it, so the listed patches never touch
each other.  The new tree is well formed and no deeper if the new arrays are
well formed and flat.
-/

namespace ArrayPatch.Grammar

/-- A new array and the identifier of the site that it is meant for. -/
structure Replacement where
  identifier : Text
  array : Tree

/-- The patch that puts a new array in the place of a text. -/
def Replacement.patch (new : Replacement) (offset : Nat) (old : Text) : Patch where
  identifier := new.identifier
  start := offset
  stop := offset + old.size
  text := new.array.text

variable (new? : Nat → Option Replacement)

mutual

/-- A value with new arrays, given by the offsets of the old ones. -/
def Tree.replace (offset : Nat) : Tree → Tree
  | .literal text => .literal text
  | .string pieces => .string pieces
  | .emptyArray blanks =>
      match new? offset with
      | some new => new.array
      | none => .emptyArray blanks
  | .array blanks first more =>
      match new? offset with
      | some new => new.array
      | none =>
          let start := offset + 1 + blanks.size
          .array blanks (first.replace start) (more.replace (start + first.text.size))
  | .emptyObject blanks => .emptyObject blanks
  | .object blanks first more =>
      let start := offset + 1 + blanks.size
      .object blanks (first.replace start) (more.replace (start + first.text.size))

/-- A member with new arrays. -/
def Member.replace (offset : Nat) : Member → Member
  | .mk key beforeColon afterColon value =>
      .mk key beforeColon afterColon (value.replace
        (offset + (StringPiece.tokenText key).size + beforeColon.size + 1 + afterColon.size))

/-- The elements after the first one with new arrays. -/
def Elements.replace (offset : Nat) : Elements → Elements
  | .done blanks => .done blanks
  | .more beforeComma afterComma element rest =>
      let start := offset + beforeComma.size + 1 + afterComma.size
      .more beforeComma afterComma (element.replace start)
        (rest.replace (start + element.text.size))

/-- The members after the first one with new arrays. -/
def Members.replace (offset : Nat) : Members → Members
  | .done blanks => .done blanks
  | .more beforeComma afterComma item rest =>
      let start := offset + beforeComma.size + 1 + afterComma.size
      .more beforeComma afterComma (item.replace start) (rest.replace (start + item.text.size))

end

mutual

/-- The patches that put the new arrays in place, from left to right. -/
def Tree.patches (offset : Nat) : Tree → List Patch
  | .emptyArray blanks =>
      match new? offset with
      | some new => [new.patch offset (Tree.emptyArray blanks).text]
      | none => []
  | .array blanks first more =>
      match new? offset with
      | some new => [new.patch offset (Tree.array blanks first more).text]
      | none =>
          let start := offset + 1 + blanks.size
          first.patches start ++ more.patches (start + first.text.size)
  | .object blanks first more =>
      let start := offset + 1 + blanks.size
      first.patches start ++ more.patches (start + first.text.size)
  | _ => []

/-- The patches inside the value of a member. -/
def Member.patches (offset : Nat) : Member → List Patch
  | .mk key beforeColon afterColon value => value.patches
      (offset + (StringPiece.tokenText key).size + beforeColon.size + 1 + afterColon.size)

/-- The patches inside the elements after the first one. -/
def Elements.patches (offset : Nat) : Elements → List Patch
  | .done _ => []
  | .more beforeComma afterComma element rest =>
      let start := offset + beforeComma.size + 1 + afterComma.size
      element.patches start ++ rest.patches (start + element.text.size)

/-- The patches inside the members after the first one. -/
def Members.patches (offset : Nat) : Members → List Patch
  | .done _ => []
  | .more beforeComma afterComma item rest =>
      let start := offset + beforeComma.size + 1 + afterComma.size
      item.patches start ++ rest.patches (start + item.text.size)

end

/-- An item and what follows it are rewritten behind a text that is kept. -/
theorem rewrites_items {front item more newItem newMore : Text} {first second : List Patch}
    {offset start : Nat} (hstart : start = offset + front.size)
    (hitem : Patch.Rewrites first start item newItem)
    (hmore : Patch.Rewrites second (start + item.size) more newMore) :
    Patch.Rewrites (first ++ second) offset (front ++ item ++ more)
      (front ++ newItem ++ newMore) := by
  rw [List.append_assoc, List.append_assoc]
  apply Patch.Rewrites.keep
  rw [← hstart]
  exact hitem.append hmore

theorem Replacement.rewrites_patch (new : Replacement) {offset : Nat} {old : Text}
    (hold : 0 < old.size) : Patch.Rewrites [new.patch offset old] offset old new.array.text :=
  Patch.Rewrites.single rfl rfl hold

mutual

/-- The patches of a tree turn its text into that of the new tree. -/
theorem Tree.rewrites_patches (offset : Nat) : (tree : Tree) →
    Patch.Rewrites (tree.patches new? offset) offset tree.text (tree.replace new? offset).text
  | .literal _ | .string _ | .emptyObject _ => .done offset _
  | .emptyArray blanks => by
      rw [Tree.patches, Tree.replace]
      cases new? offset with
      | none => exact .done offset _
      | some new => exact new.rewrites_patch (by simp)
  | .array blanks first more => by
      rw [Tree.patches, Tree.replace]
      cases new? offset with
      | some new =>
          apply new.rewrites_patch
          rw [Tree.size_text_array]
          omega
      | none =>
          exact rewrites_items (add_size_open rfl blanks offset) (Tree.rewrites_patches _ first)
            (Elements.rewrites_patches _ more)
  | .object blanks first more => by
      rw [Tree.patches, Tree.replace]
      exact rewrites_items (add_size_open rfl blanks offset) (Member.rewrites_patches _ first)
        (Members.rewrites_patches _ more)

theorem Member.rewrites_patches (offset : Nat) : (item : Member) →
    Patch.Rewrites (item.patches new? offset) offset item.text (item.replace new? offset).text
  | .mk key before after value => by
      rw [Member.patches, Member.replace, Member.text, Member.text]
      apply Patch.Rewrites.keep
      rw [← add_size_colon]
      exact Tree.rewrites_patches _ value

theorem Elements.rewrites_patches (offset : Nat) : (more : Elements) →
    Patch.Rewrites (more.patches new? offset) offset more.text (more.replace new? offset).text
  | .done _ => .done offset _
  | .more before after element rest => by
      rw [Elements.patches, Elements.replace]
      exact rewrites_items (add_size_comma before after offset) (Tree.rewrites_patches _ element)
        (Elements.rewrites_patches _ rest)

theorem Members.rewrites_patches (offset : Nat) : (more : Members) →
    Patch.Rewrites (more.patches new? offset) offset more.text (more.replace new? offset).text
  | .done _ => .done offset _
  | .more before after item rest => by
      rw [Members.patches, Members.replace]
      exact rewrites_items (add_size_comma before after offset) (Member.rewrites_patches _ item)
        (Members.rewrites_patches _ rest)

end

/-! ## The new tree -/

/-- New arrays that are well formed arrays without nesting. -/
structure Flat (new? : Nat → Option Replacement) : Prop where
  isArray : ∀ offset new, new? offset = some new → new.array.isArray
  wellFormed : ∀ offset new, new? offset = some new → new.array.WellFormed
  depth_le : ∀ offset new, new? offset = some new → new.array.depth ≤ 1
  sites_eq : ∀ offset new, new? offset = some new →
    ∀ settings start, new.array.sites settings start = []

variable {new?}

mutual

/-- Replacing arrays keeps a tree well formed. -/
theorem Tree.wellFormed_replace (hflat : Flat new?) (offset : Nat) : (tree : Tree) →
    tree.WellFormed → (tree.replace new? offset).WellFormed
  | .literal _, hwell | .string _, hwell | .emptyObject _, hwell => hwell
  | .emptyArray blanks, hwell => by
      rw [Tree.replace]
      cases hnew : new? offset with
      | none => exact hwell
      | some new => exact hflat.wellFormed offset new hnew
  | .array blanks first more, hwell => by
      rw [Tree.replace]
      cases hnew : new? offset with
      | none => exact ⟨hwell.1, Tree.wellFormed_replace hflat _ first hwell.2.1,
          Elements.wellFormed_replace hflat _ more hwell.2.2⟩
      | some new => exact hflat.wellFormed offset new hnew
  | .object blanks first more, hwell =>
      ⟨hwell.1, Member.wellFormed_replace hflat _ first hwell.2.1,
        Members.wellFormed_replace hflat _ more hwell.2.2⟩

theorem Member.wellFormed_replace (hflat : Flat new?) (offset : Nat) : (item : Member) →
    item.WellFormed → (item.replace new? offset).WellFormed
  | .mk _ _ _ value, hwell =>
      ⟨hwell.1, hwell.2.1, hwell.2.2.1, Tree.wellFormed_replace hflat _ value hwell.2.2.2⟩

theorem Elements.wellFormed_replace (hflat : Flat new?) (offset : Nat) : (more : Elements) →
    more.WellFormed → (more.replace new? offset).WellFormed
  | .done _, hwell => hwell
  | .more _ _ element rest, hwell =>
      ⟨hwell.1, hwell.2.1, Tree.wellFormed_replace hflat _ element hwell.2.2.1,
        Elements.wellFormed_replace hflat _ rest hwell.2.2.2⟩

theorem Members.wellFormed_replace (hflat : Flat new?) (offset : Nat) : (more : Members) →
    more.WellFormed → (more.replace new? offset).WellFormed
  | .done _, hwell => hwell
  | .more _ _ item rest, hwell =>
      ⟨hwell.1, hwell.2.1, Member.wellFormed_replace hflat _ item hwell.2.2.1,
        Members.wellFormed_replace hflat _ rest hwell.2.2.2⟩

end

mutual

/-- Replacing arrays makes a tree no deeper. -/
theorem Tree.depth_replace_le (hflat : Flat new?) (offset : Nat) : (tree : Tree) →
    (tree.replace new? offset).depth ≤ tree.depth
  | .literal _ | .string _ | .emptyObject _ => Nat.le_refl _
  | .emptyArray blanks => by
      rw [Tree.replace]
      cases hnew : new? offset with
      | none => exact Nat.le_refl _
      | some new => exact hflat.depth_le offset new hnew
  | .array blanks first more => by
      rw [Tree.replace]
      cases hnew : new? offset with
      | none =>
          apply Nat.succ_le_succ
          exact max_le_max (Tree.depth_replace_le hflat _ first)
            (Elements.depth_replace_le hflat _ more)
      | some new => exact Nat.le_trans (hflat.depth_le offset new hnew) (Nat.le_add_left 1 _)
  | .object blanks first more => by
      apply Nat.succ_le_succ
      exact max_le_max (Member.depth_replace_le hflat _ first)
        (Members.depth_replace_le hflat _ more)

theorem Member.depth_replace_le (hflat : Flat new?) (offset : Nat) : (item : Member) →
    (item.replace new? offset).depth ≤ item.depth
  | .mk _ _ _ value => Tree.depth_replace_le hflat _ value

theorem Elements.depth_replace_le (hflat : Flat new?) (offset : Nat) : (more : Elements) →
    (more.replace new? offset).depth ≤ more.depth
  | .done _ => Nat.le_refl _
  | .more _ _ element rest =>
      max_le_max (Tree.depth_replace_le hflat _ element) (Elements.depth_replace_le hflat _ rest)

theorem Members.depth_replace_le (hflat : Flat new?) (offset : Nat) : (more : Members) →
    (more.replace new? offset).depth ≤ more.depth
  | .done _ => Nat.le_refl _
  | .more _ _ item rest =>
      max_le_max (Member.depth_replace_le hflat _ item) (Members.depth_replace_le hflat _ rest)

end

end ArrayPatch.Grammar
