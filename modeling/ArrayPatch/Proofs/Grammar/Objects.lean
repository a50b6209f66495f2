import ArrayPatch.Proofs.Grammar.Entries

/-!
# The objects of a syntax tree

The sites of a tree come from its objects: the objects are listed in the order
in which they close, and each of them has at most one site.  An object closes
behind every object inside it and before every object that starts later, so the
offsets at which the listed objects close increase strictly.
-/

namespace ArrayPatch.Grammar

/-- A part of a tree and the offset at which it starts. -/
structure Placed where
  start : Nat
  tree : Tree

namespace Placed

/-- The offset behind a part. -/
def stop (placed : Placed) : Nat :=
  placed.start + placed.tree.text.size

/-- The site of an object. -/
def site? (settings : Settings) (placed : Placed) : Option Site :=
  siteOf? settings (placed.tree.entries placed.start)

end Placed

mutual

/-- The objects of a value that starts at an offset, in the order in which they
close. -/
def Tree.objects (offset : Nat) : Tree → List Placed
  | .array blanks first more =>
      let start := offset + 1 + blanks.size
      first.objects start ++ more.objects (start + first.text.size)
  | .emptyObject blanks => [⟨offset, .emptyObject blanks⟩]
  | .object blanks first more =>
      let start := offset + 1 + blanks.size
      first.objects start ++ more.objects (start + first.text.size) ++
        [⟨offset, .object blanks first more⟩]
  | _ => []

/-- The objects inside the value of a member. -/
def Member.objects (offset : Nat) : Member → List Placed
  | .mk key beforeColon afterColon value =>
      value.objects
        (offset + (StringPiece.tokenText key).size + beforeColon.size + 1 + afterColon.size)

/-- The objects inside the elements after the first one. -/
def Elements.objects (offset : Nat) : Elements → List Placed
  | .done _ => []
  | .more beforeComma afterComma element rest =>
      let start := offset + beforeComma.size + 1 + afterComma.size
      element.objects start ++ rest.objects (start + element.text.size)

/-- The objects inside the members after the first one. -/
def Members.objects (offset : Nat) : Members → List Placed
  | .done _ => []
  | .more beforeComma afterComma item rest =>
      let start := offset + beforeComma.size + 1 + afterComma.size
      item.objects start ++ rest.objects (start + item.text.size)

end

theorem filterMap_singleton_eq_toList {α β : Type} (f : α → Option β) (a : α) :
    [a].filterMap f = (f a).toList := by
  cases hf : f a <;> simp [hf]

variable (settings : Settings)

mutual

/-- The sites of a tree are the sites of its objects. -/
theorem Tree.sites_eq_filterMap_objects (offset : Nat) : (tree : Tree) →
    tree.sites settings offset = (tree.objects offset).filterMap (Placed.site? settings)
  | .literal _ | .string _ | .emptyArray _ => rfl
  | .emptyObject _ => rfl
  | .array blanks first more => by
      rw [Tree.sites, Tree.objects, List.filterMap_append,
        Tree.sites_eq_filterMap_objects _ first, Elements.sites_eq_filterMap_objects _ more]
  | .object blanks first more => by
      rw [Tree.sites, Tree.objects, List.filterMap_append, List.filterMap_append,
        Member.sites_eq_filterMap_objects _ first, Members.sites_eq_filterMap_objects _ more,
        filterMap_singleton_eq_toList]
      rfl

theorem Member.sites_eq_filterMap_objects (offset : Nat) : (item : Member) →
    item.sites settings offset = (item.objects offset).filterMap (Placed.site? settings)
  | .mk _ _ _ value => by
      rw [Member.sites, Member.objects, Tree.sites_eq_filterMap_objects _ value]

theorem Elements.sites_eq_filterMap_objects (offset : Nat) : (more : Elements) →
    more.sites settings offset = (more.objects offset).filterMap (Placed.site? settings)
  | .done _ => rfl
  | .more _ _ element rest => by
      rw [Elements.sites, Elements.objects, List.filterMap_append,
        Tree.sites_eq_filterMap_objects _ element, Elements.sites_eq_filterMap_objects _ rest]

theorem Members.sites_eq_filterMap_objects (offset : Nat) : (more : Members) →
    more.sites settings offset = (more.objects offset).filterMap (Placed.site? settings)
  | .done _ => rfl
  | .more _ _ item rest => by
      rw [Members.sites, Members.objects, List.filterMap_append,
        Member.sites_eq_filterMap_objects _ item, Members.sites_eq_filterMap_objects _ rest]

end

/-- Parts that close in order behind one offset and up to another one. -/
structure CloseInOrder (low high : Nat) (parts : List Placed) : Prop where
  pairwise : parts.Pairwise fun earlier later => earlier.stop < later.stop
  low_lt : ∀ placed ∈ parts, low < placed.stop
  le_high : ∀ placed ∈ parts, placed.stop ≤ high

namespace CloseInOrder

variable {low mid high : Nat} {first second : List Placed}

theorem nil : CloseInOrder low high [] :=
  ⟨.nil, List.forall_mem_nil _, List.forall_mem_nil _⟩

theorem mono {low' high' : Nat} (hparts : CloseInOrder low high first) (hlow : low' ≤ low)
    (hhigh : high ≤ high') : CloseInOrder low' high' first where
  pairwise := hparts.pairwise
  low_lt placed hplaced := Nat.lt_of_le_of_lt hlow (hparts.low_lt placed hplaced)
  le_high placed hplaced := Nat.le_trans (hparts.le_high placed hplaced) hhigh

theorem append (hfirst : CloseInOrder low mid first) (hsecond : CloseInOrder mid high second)
    (hlow : low ≤ mid) (hhigh : mid ≤ high) : CloseInOrder low high (first ++ second) where
  pairwise := by
    apply List.pairwise_append.mpr
    refine ⟨hfirst.pairwise, hsecond.pairwise, ?_⟩
    intro earlier hearlier later hlater
    exact Nat.lt_of_le_of_lt (hfirst.le_high earlier hearlier) (hsecond.low_lt later hlater)
  low_lt := by
    intro placed hplaced
    rcases List.mem_append.mp hplaced with hplaced | hplaced
    · exact hfirst.low_lt placed hplaced
    · exact Nat.lt_of_le_of_lt hlow (hsecond.low_lt placed hplaced)
  le_high := by
    intro placed hplaced
    rcases List.mem_append.mp hplaced with hplaced | hplaced
    · exact Nat.le_trans (hfirst.le_high placed hplaced) hhigh
    · exact hsecond.le_high placed hplaced

theorem append_singleton (placed : Placed) (hfirst : CloseInOrder low mid first)
    (hlow : low ≤ mid) (hstop : mid < placed.stop) :
    CloseInOrder low placed.stop (first ++ [placed]) := by
  apply hfirst.append _ hlow (Nat.le_of_lt hstop)
  constructor
  · exact List.pairwise_singleton _ placed
  · simpa using hstop
  · simp

end CloseInOrder

mutual

/-- The objects of a tree close in order within the tree, and those of the rest of
an array or object before its closing bracket. -/
theorem Tree.closeInOrder_objects (offset : Nat) : (tree : Tree) →
    CloseInOrder offset (offset + tree.text.size) (tree.objects offset)
  | .literal _ | .string _ | .emptyArray _ => CloseInOrder.nil
  | .emptyObject blanks => by
      apply CloseInOrder.nil.append_singleton ⟨offset, .emptyObject blanks⟩ (Nat.le_refl offset)
      simp only [Placed.stop, Tree.size_text_emptyObject]
      omega
  | .array blanks first more => by
      have hfirst := Tree.closeInOrder_objects (offset + 1 + blanks.size) first
      have hmore := Elements.closeInOrder_objects
        (offset + 1 + blanks.size + first.text.size) more
      have hsize := more.one_le_size_text
      rw [Tree.objects, Tree.size_text_array]
      apply (hfirst.append hmore (by omega) (by omega)).mono
      · omega
      · omega
  | .object blanks first more => by
      have hfirst := Member.closeInOrder_objects (offset + 1 + blanks.size) first
      have hmore := Members.closeInOrder_objects
        (offset + 1 + blanks.size + first.text.size) more
      have hsize := more.one_le_size_text
      have hinner := (hfirst.append hmore (by omega) (by omega)).mono
        (show offset ≤ _ by omega) (Nat.le_refl _)
      rw [Tree.objects]
      apply hinner.append_singleton ⟨offset, .object blanks first more⟩
      · omega
      · simp only [Placed.stop, Tree.size_text_object]
        omega

theorem Member.closeInOrder_objects (offset : Nat) : (item : Member) →
    CloseInOrder offset (offset + item.text.size) (item.objects offset)
  | .mk key before after value => by
      have hvalue := Tree.closeInOrder_objects
        (offset + (StringPiece.tokenText key).size + before.size + 1 + after.size) value
      rw [Member.objects, Member.size_text]
      apply hvalue.mono
      · omega
      · omega

theorem Elements.closeInOrder_objects (offset : Nat) : (more : Elements) →
    CloseInOrder offset (offset + more.text.size - 1) (more.objects offset)
  | .done _ => CloseInOrder.nil
  | .more before after element rest => by
      have helement := Tree.closeInOrder_objects (offset + before.size + 1 + after.size) element
      have hrest := Elements.closeInOrder_objects
        (offset + before.size + 1 + after.size + element.text.size) rest
      have hsize := rest.one_le_size_text
      rw [Elements.objects, Elements.size_text_more]
      apply (helement.append hrest (by omega) (by omega)).mono
      · omega
      · omega

theorem Members.closeInOrder_objects (offset : Nat) : (more : Members) →
    CloseInOrder offset (offset + more.text.size - 1) (more.objects offset)
  | .done _ => CloseInOrder.nil
  | .more before after item rest => by
      have hitem := Member.closeInOrder_objects (offset + before.size + 1 + after.size) item
      have hrest := Members.closeInOrder_objects
        (offset + before.size + 1 + after.size + item.text.size) rest
      have hsize := rest.one_le_size_text
      rw [Members.objects, Members.size_text_more]
      apply (hitem.append hrest (by omega) (by omega)).mono
      · omega
      · omega

end

variable {offset : Nat} {placed : Placed}

mutual

/-- The objects of a tree stand in its text. -/
theorem Tree.hasAt_of_mem_objects {offset : Nat} : (tree : Tree) → placed ∈ tree.objects offset →
    tree.text.HasAt offset placed.tree.text placed.start
  | .literal _, hplaced | .string _, hplaced | .emptyArray _, hplaced => by
      cases hplaced
  | .emptyObject blanks, hplaced => by
      obtain rfl := List.mem_singleton.mp hplaced
      exact Text.HasAt.refl _ offset
  | .array blanks first more, hplaced => by
      rcases List.mem_append.mp hplaced with hplaced | hplaced
      · exact (hasAt_open_item rfl blanks first.text more.text offset).trans
          (Tree.hasAt_of_mem_objects first hplaced)
      · exact (hasAt_open_more rfl blanks first.text more.text offset).trans
          (Elements.hasAt_of_mem_objects more hplaced)
  | .object blanks first more, hplaced => by
      rcases List.mem_append.mp hplaced with hinner | hplaced
      · rcases List.mem_append.mp hinner with hplaced | hplaced
        · exact (hasAt_open_item rfl blanks first.text more.text offset).trans
            (Member.hasAt_of_mem_objects first hplaced)
        · exact (hasAt_open_more rfl blanks first.text more.text offset).trans
            (Members.hasAt_of_mem_objects more hplaced)
      · obtain rfl := List.mem_singleton.mp hplaced
        exact Text.HasAt.refl _ offset

theorem Member.hasAt_of_mem_objects {offset : Nat} : (item : Member) →
    placed ∈ item.objects offset → item.text.HasAt offset placed.tree.text placed.start
  | .mk key before after value, hplaced =>
      (hasAt_colon_value before after value.text offset (StringPiece.tokenText key)).trans
        (Tree.hasAt_of_mem_objects value hplaced)

theorem Elements.hasAt_of_mem_objects {offset : Nat} : (more : Elements) →
    placed ∈ more.objects offset → more.text.HasAt offset placed.tree.text placed.start
  | .done _, hplaced => by
      cases hplaced
  | .more before after element rest, hplaced => by
      rcases List.mem_append.mp hplaced with hplaced | hplaced
      · exact (hasAt_comma_item before after element.text rest.text offset).trans
          (Tree.hasAt_of_mem_objects element hplaced)
      · exact (hasAt_comma_more before after element.text rest.text offset).trans
          (Elements.hasAt_of_mem_objects rest hplaced)

theorem Members.hasAt_of_mem_objects {offset : Nat} : (more : Members) →
    placed ∈ more.objects offset → more.text.HasAt offset placed.tree.text placed.start
  | .done _, hplaced => by
      cases hplaced
  | .more before after item rest, hplaced => by
      rcases List.mem_append.mp hplaced with hplaced | hplaced
      · exact (hasAt_comma_item before after item.text rest.text offset).trans
          (Member.hasAt_of_mem_objects item hplaced)
      · exact (hasAt_comma_more before after item.text rest.text offset).trans
          (Members.hasAt_of_mem_objects rest hplaced)

end

mutual

/-- The objects of a well-formed tree are well formed, and none is deeper. -/
theorem Tree.wellFormed_of_mem_objects {offset : Nat} : (tree : Tree) → tree.WellFormed →
    placed ∈ tree.objects offset → placed.tree.WellFormed ∧ placed.tree.depth ≤ tree.depth
  | .literal _, _, hplaced | .string _, _, hplaced | .emptyArray _, _, hplaced => by
      cases hplaced
  | .emptyObject blanks, hwell, hplaced => by
      obtain rfl := List.mem_singleton.mp hplaced
      exact ⟨hwell, Nat.le_refl _⟩
  | .array blanks first more, ⟨_, hfirst, hmore⟩, hplaced => by
      rw [Tree.depth]
      rcases List.mem_append.mp hplaced with hplaced | hplaced
      · obtain ⟨hwell, hdepth⟩ := Tree.wellFormed_of_mem_objects first hfirst hplaced
        exact ⟨hwell, Nat.le_succ_of_le (Nat.le_trans hdepth (Nat.le_max_left _ _))⟩
      · obtain ⟨hwell, hdepth⟩ := Elements.wellFormed_of_mem_objects more hmore hplaced
        exact ⟨hwell, Nat.le_succ_of_le (Nat.le_trans hdepth (Nat.le_max_right _ _))⟩
  | .object blanks first more, hwhole, hplaced => by
      have ⟨_, hfirst, hmore⟩ := hwhole
      rcases List.mem_append.mp hplaced with hinner | hplaced
      · rw [Tree.depth]
        rcases List.mem_append.mp hinner with hplaced | hplaced
        · obtain ⟨hwell, hdepth⟩ := Member.wellFormed_of_mem_objects first hfirst hplaced
          exact ⟨hwell, Nat.le_succ_of_le (Nat.le_trans hdepth (Nat.le_max_left _ _))⟩
        · obtain ⟨hwell, hdepth⟩ := Members.wellFormed_of_mem_objects more hmore hplaced
          exact ⟨hwell, Nat.le_succ_of_le (Nat.le_trans hdepth (Nat.le_max_right _ _))⟩
      · obtain rfl := List.mem_singleton.mp hplaced
        exact ⟨hwhole, Nat.le_refl _⟩

theorem Member.wellFormed_of_mem_objects {offset : Nat} : (item : Member) → item.WellFormed →
    placed ∈ item.objects offset → placed.tree.WellFormed ∧ placed.tree.depth ≤ item.depth
  | .mk _ _ _ value, ⟨_, _, _, hvalue⟩, hplaced =>
      Tree.wellFormed_of_mem_objects value hvalue hplaced

theorem Elements.wellFormed_of_mem_objects {offset : Nat} : (more : Elements) →
    more.WellFormed → placed ∈ more.objects offset →
    placed.tree.WellFormed ∧ placed.tree.depth ≤ more.depth
  | .done _, _, hplaced => by
      cases hplaced
  | .more _ _ element rest, ⟨_, _, helement, hrest⟩, hplaced => by
      rcases List.mem_append.mp hplaced with hplaced | hplaced
      · obtain ⟨hwell, hdepth⟩ := Tree.wellFormed_of_mem_objects element helement hplaced
        exact ⟨hwell, Nat.le_trans hdepth (Nat.le_max_left _ _)⟩
      · obtain ⟨hwell, hdepth⟩ := Elements.wellFormed_of_mem_objects rest hrest hplaced
        exact ⟨hwell, Nat.le_trans hdepth (Nat.le_max_right _ _)⟩

theorem Members.wellFormed_of_mem_objects {offset : Nat} : (more : Members) →
    more.WellFormed → placed ∈ more.objects offset →
    placed.tree.WellFormed ∧ placed.tree.depth ≤ more.depth
  | .done _, _, hplaced => by
      cases hplaced
  | .more _ _ item rest, ⟨_, _, hitem, hrest⟩, hplaced => by
      rcases List.mem_append.mp hplaced with hplaced | hplaced
      · obtain ⟨hwell, hdepth⟩ := Member.wellFormed_of_mem_objects item hitem hplaced
        exact ⟨hwell, Nat.le_trans hdepth (Nat.le_max_left _ _)⟩
      · obtain ⟨hwell, hdepth⟩ := Members.wellFormed_of_mem_objects rest hrest hplaced
        exact ⟨hwell, Nat.le_trans hdepth (Nat.le_max_right _ _)⟩

end

end ArrayPatch.Grammar
