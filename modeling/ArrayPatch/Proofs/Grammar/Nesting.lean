import ArrayPatch.Proofs.Grammar.Objects

/-!
# How sites are nested

The key and the array of a site lie strictly inside the object that the site
belongs to, and hence strictly inside every value around it.

Of two objects of a tree the one that closes first lies in front of the other
one or inside the value of one of its members.  So of two sites that lie at
arrays of these objects the first one lies apart from the other one or inside
its array.
-/

namespace ArrayPatch

open Grammar

namespace Site

/-- The key and the array of a site lie strictly between two offsets. -/
structure Between (site : Site) (low high : Nat) : Prop where
  low_lt : low < site.keyStart
  keyStart_lt : site.keyStart < site.valueStart
  valueStart_lt : site.valueStart < site.valueEnd
  lt_high : site.valueEnd < high

theorem Between.mono {site : Site} {low high low' high' : Nat} (hsite : site.Between low high)
    (hlow : low' ≤ low) (hhigh : high ≤ high') : site.Between low' high' where
  low_lt := Nat.lt_of_le_of_lt hlow hsite.low_lt
  keyStart_lt := hsite.keyStart_lt
  valueStart_lt := hsite.valueStart_lt
  lt_high := Nat.lt_of_lt_of_le hsite.lt_high hhigh

/-- A site lies inside the array of another one. -/
def Within (inner outer : Site) : Prop :=
  inner.Between outer.valueStart outer.valueEnd

/-- Two sites have nothing in common. -/
def Apart (first second : Site) : Prop :=
  first.valueEnd ≤ second.keyStart ∨ second.valueEnd ≤ first.keyStart

end Site

namespace Grammar

variable {settings : Settings} {offset : Nat} {site : Site}

/-- A site comes from the last member with the target field as its key. -/
theorem exists_target_of_siteOf? {entries : List Entry}
    (hsite : siteOf? settings entries = some site) :
    ∃ target ∈ entries, target.value.isArray ∧ site.keyStart = target.keyStart ∧
      site.valueStart = target.valueStart ∧ site.valueEnd = target.valueEnd := by
  simp only [siteOf?, Option.bind_eq_bind, Option.bind_eq_some_iff] at hsite
  obtain ⟨identified, -, identifier, -, target, hlast, htarget⟩ := hsite
  by_cases harray : target.value.isArray
  · rw [if_pos harray] at htarget
    cases htarget
    refine ⟨target, ?_, harray, rfl, rfl, rfl⟩
    exact List.mem_reverse.mp (List.mem_of_find?_eq_some hlast)
  · rw [if_neg harray] at htarget
    cases htarget

/-- An array takes some bytes. -/
theorem Tree.size_pos_of_isArray {tree : Tree} (harray : tree.isArray) : 0 < tree.text.size := by
  cases tree with
  | emptyArray blanks =>
      rw [size_text_emptyArray]
      omega
  | array blanks first more =>
      rw [size_text_array]
      omega
  | literal | string | emptyObject | object => cases harray

theorem Members.valueEnd_lt_of_mem_entries {entry : Entry} : (more : Members) → {offset : Nat} →
    entry ∈ more.entries offset → entry.valueEnd < offset + more.text.size
  | .done _, _, hentry => by
      cases hentry
  | .more before after item rest, offset, hentry => by
      have hrest := rest.one_le_size_text
      rw [Members.size_text_more]
      rcases List.mem_cons.mp hentry with rfl | hentry
      · have hbounds := (item.entry_standsIn (offset + before.size + 1 + after.size)).bounds
        omega
      · have hbounds := Members.valueEnd_lt_of_mem_entries rest hentry
        omega

/-- The members of an object lie strictly inside it. -/
theorem Tree.between_of_mem_entries {tree : Tree} {entry : Entry}
    (hentry : entry ∈ tree.entries offset) :
    offset < entry.keyStart ∧ entry.valueEnd < offset + tree.text.size := by
  cases tree with
  | object blanks first more =>
      have hmore := more.one_le_size_text
      rw [Tree.size_text_object]
      rcases List.mem_cons.mp hentry with rfl | hentry
      · have hbounds := (first.entry_standsIn (offset + 1 + blanks.size)).bounds
        omega
      · have hbounds := (more.standsIn_of_mem_entries hentry).bounds
        have hend := more.valueEnd_lt_of_mem_entries hentry
        omega
  | literal | string | emptyArray | array | emptyObject => cases hentry

/-- A site is the place of an array that is the value of a member. -/
def Entry.Has (entry : Entry) (site : Site) : Prop :=
  entry.value.isArray ∧ site.keyStart = entry.keyStart ∧ site.valueStart = entry.valueStart ∧
    site.valueEnd = entry.valueEnd

/-- The site of an array of an object lies strictly inside the object. -/
theorem Entry.Has.between {tree : Tree} {entry : Entry} (hsite : entry.Has site)
    (hentry : entry ∈ tree.entries offset) : site.Between offset (offset + tree.text.size) := by
  obtain ⟨harray, hkey, hstart, hend⟩ := hsite
  have hstands := Tree.standsIn_of_mem_entries hentry
  have hstrict := Tree.between_of_mem_entries hentry
  have hsize := Tree.size_pos_of_isArray harray
  constructor
  · rw [hkey]
    exact hstrict.1
  · rw [hkey, hstart]
    exact hstands.keyStart_lt
  · rw [hstart, hend]
    exact Nat.lt_add_of_pos_right hsize
  · rw [hend]
    exact hstrict.2

theorem Placed.between_of_site? (placed : Placed) {text : Text}
    (hplaced : text.HasAt offset placed.tree.text placed.start)
    (hsite : placed.site? settings = some site) : site.Between offset (offset + text.size) := by
  obtain ⟨target, htarget, hplace⟩ := exists_target_of_siteOf? hsite
  have hbetween : site.Between placed.start (placed.start + placed.tree.text.size) :=
    Entry.Has.between hplace htarget
  exact hbetween.mono hplaced.bounds.1 hplaced.bounds.2

/-- The sites of a value lie strictly inside it. -/
theorem Tree.between_of_mem_sites {tree : Tree} (hsite : site ∈ tree.sites settings offset) :
    site.Between offset (offset + tree.text.size) := by
  rw [Tree.sites_eq_filterMap_objects] at hsite
  obtain ⟨placed, hplaced, hsite⟩ := List.mem_filterMap.mp hsite
  exact Placed.between_of_site? placed (Tree.hasAt_of_mem_objects tree hplaced) hsite

/-- At a site stands an array that is the value of a member of an object. -/
theorem Tree.exists_entry_of_mem_sites {tree : Tree} (hsite : site ∈ tree.sites settings offset) :
    ∃ placed ∈ tree.objects offset, ∃ entry ∈ placed.tree.entries placed.start,
      entry.value.isArray ∧ site.valueStart = entry.valueStart ∧
        site.valueEnd = entry.valueEnd := by
  rw [Tree.sites_eq_filterMap_objects] at hsite
  obtain ⟨placed, hplaced, hsite⟩ := List.mem_filterMap.mp hsite
  obtain ⟨target, htarget, harray, -, hstart, hend⟩ := exists_target_of_siteOf? hsite
  exact ⟨placed, hplaced, target, htarget, harray, hstart, hend⟩

theorem Tree.exists_array_of_mem_sites {tree : Tree} (hsite : site ∈ tree.sites settings offset) :
    ∃ array : Tree, array.isArray ∧ tree.text.HasAt offset array.text site.valueStart ∧
      site.valueEnd = site.valueStart + array.text.size := by
  obtain ⟨placed, hplaced, entry, hentry, harray, hstart, hend⟩ :=
    Tree.exists_entry_of_mem_sites hsite
  have hstands := (Tree.standsIn_of_mem_entries hentry).trans
    (Tree.hasAt_of_mem_objects tree hplaced)
  refine ⟨entry.value, harray, ?_, ?_⟩
  · rw [hstart]
    exact hstands.value
  · rw [hend, hstart, Entry.valueEnd]

/-! ## Objects of one tree -/

/-- A part lies before a member, inside its value, or behind it. -/
def Entry.ClearOf (entry : Entry) (placed : Placed) : Prop :=
  placed.stop ≤ entry.keyStart ∨
    (entry.valueStart ≤ placed.start ∧ placed.stop ≤ entry.valueEnd) ∨
    entry.valueEnd ≤ placed.start

/-- An object lies in front of another one or clear of the members of it. -/
def Placed.Precedes (earlier later : Placed) : Prop :=
  earlier.stop ≤ later.start ∨
    ∀ entry ∈ later.tree.entries later.start, entry.ClearOf earlier

/-- Parts that lie between two offsets. -/
def LieIn (low high : Nat) (parts : List Placed) : Prop :=
  ∀ placed ∈ parts, low ≤ placed.start ∧ placed.stop ≤ high

theorem Tree.lieIn_objects (offset : Nat) (tree : Tree) :
    LieIn offset (offset + tree.text.size) (tree.objects offset) :=
  fun _ hplaced => (Tree.hasAt_of_mem_objects tree hplaced).bounds

theorem Member.lieIn_objects (offset : Nat) (item : Member) :
    LieIn offset (offset + item.text.size) (item.objects offset) :=
  fun _ hplaced => (Member.hasAt_of_mem_objects item hplaced).bounds

theorem Elements.lieIn_objects (offset : Nat) (more : Elements) :
    LieIn offset (offset + more.text.size) (more.objects offset) :=
  fun _ hplaced => (Elements.hasAt_of_mem_objects more hplaced).bounds

theorem Members.lieIn_objects (offset : Nat) (more : Members) :
    LieIn offset (offset + more.text.size) (more.objects offset) :=
  fun _ hplaced => (Members.hasAt_of_mem_objects more hplaced).bounds

theorem pairwise_append_of_lieIn {first second : List Placed} {low mid high : Nat}
    (hfirst : first.Pairwise Placed.Precedes) (hsecond : second.Pairwise Placed.Precedes)
    (hlow : LieIn low mid first) (hhigh : LieIn mid high second) :
    (first ++ second).Pairwise Placed.Precedes := by
  apply List.pairwise_append.mpr
  refine ⟨hfirst, hsecond, ?_⟩
  intro earlier hearlier later hlater
  exact .inl (Nat.le_trans (hlow earlier hearlier).2 (hhigh later hlater).1)

/-- The objects of a member are clear of the member: they lie in its value. -/
theorem Member.clearOf_of_mem_objects {item : Member} {placed : Placed}
    (hplaced : placed ∈ item.objects offset) : (item.entry offset).ClearOf placed := by
  cases item with
  | mk key before after value => exact .inr (.inl (Tree.lieIn_objects _ value placed hplaced))

/-- The objects of the members after the first one are clear of these members. -/
theorem Members.clearOf_of_mem_objects {entry : Entry} {placed : Placed} : (more : Members) →
    {offset : Nat} → placed ∈ more.objects offset → entry ∈ more.entries offset →
    entry.ClearOf placed
  | .done _, _, hplaced, _ => by
      cases hplaced
  | .more before after item rest, offset, hplaced, hentry => by
      have hitem := (item.entry_standsIn (offset + before.size + 1 + after.size)).bounds
      rcases List.mem_append.mp hplaced with hplaced | hplaced
      · rcases List.mem_cons.mp hentry with rfl | hentry
        · exact Member.clearOf_of_mem_objects hplaced
        · have hbounds := item.lieIn_objects _ placed hplaced
          exact .inl (Nat.le_trans hbounds.2 (rest.standsIn_of_mem_entries hentry).bounds.1)
      · rcases List.mem_cons.mp hentry with rfl | hentry
        · have hbounds := rest.lieIn_objects _ placed hplaced
          exact .inr (.inr (Nat.le_trans hitem.2 hbounds.1))
        · exact Members.clearOf_of_mem_objects rest hplaced hentry

/-- The objects inside an object are clear of its members. -/
theorem Tree.clearOf_of_mem_objects {blanks : Text} {first : Member} {more : Members}
    {entry : Entry} {placed : Placed}
    (hplaced : placed ∈ first.objects (offset + 1 + blanks.size) ++
      more.objects (offset + 1 + blanks.size + first.text.size))
    (hentry : entry ∈ (Tree.object blanks first more).entries offset) :
    entry.ClearOf placed := by
  have hfirst := (first.entry_standsIn (offset + 1 + blanks.size)).bounds
  rcases List.mem_append.mp hplaced with hplaced | hplaced
  · rcases List.mem_cons.mp hentry with rfl | hentry
    · exact Member.clearOf_of_mem_objects hplaced
    · have hbounds := first.lieIn_objects _ placed hplaced
      exact .inl (Nat.le_trans hbounds.2 (more.standsIn_of_mem_entries hentry).bounds.1)
  · rcases List.mem_cons.mp hentry with rfl | hentry
    · have hbounds := more.lieIn_objects _ placed hplaced
      exact .inr (.inr (Nat.le_trans hfirst.2 hbounds.1))
    · exact more.clearOf_of_mem_objects hplaced hentry

mutual

/-- Of two objects of a tree the one that closes first precedes the other one. -/
theorem Tree.pairwise_objects (offset : Nat) : (tree : Tree) →
    (tree.objects offset).Pairwise Placed.Precedes
  | .literal _ | .string _ | .emptyArray _ => .nil
  | .emptyObject _ => List.pairwise_singleton _ _
  | .array blanks first more => by
      rw [Tree.objects]
      exact pairwise_append_of_lieIn (Tree.pairwise_objects _ first)
        (Elements.pairwise_objects _ more) (first.lieIn_objects _) (more.lieIn_objects _)
  | .object blanks first more => by
      have hinner := pairwise_append_of_lieIn
        (Member.pairwise_objects (offset + 1 + blanks.size) first)
        (Members.pairwise_objects (offset + 1 + blanks.size + first.text.size) more)
        (first.lieIn_objects _) (more.lieIn_objects _)
      rw [Tree.objects]
      apply List.pairwise_append.mpr
      refine ⟨hinner, List.pairwise_singleton _ _, ?_⟩
      intro earlier hearlier later hlater
      obtain rfl := List.mem_singleton.mp hlater
      exact .inr fun entry hentry => Tree.clearOf_of_mem_objects hearlier hentry

theorem Member.pairwise_objects (offset : Nat) : (item : Member) →
    (item.objects offset).Pairwise Placed.Precedes
  | .mk _ _ _ value => Tree.pairwise_objects _ value

theorem Elements.pairwise_objects (offset : Nat) : (more : Elements) →
    (more.objects offset).Pairwise Placed.Precedes
  | .done _ => .nil
  | .more before after element rest => by
      rw [Elements.objects]
      exact pairwise_append_of_lieIn (Tree.pairwise_objects _ element)
        (Elements.pairwise_objects _ rest) (element.lieIn_objects _) (rest.lieIn_objects _)

theorem Members.pairwise_objects (offset : Nat) : (more : Members) →
    (more.objects offset).Pairwise Placed.Precedes
  | .done _ => .nil
  | .more before after item rest => by
      rw [Members.objects]
      exact pairwise_append_of_lieIn (Member.pairwise_objects _ item)
        (Members.pairwise_objects _ rest) (item.lieIn_objects _) (rest.lieIn_objects _)

end

/-! ## Sites of one tree -/

/-- Sites at arrays of two objects, one of which precedes the other one. -/
theorem Placed.Precedes.apart_or_within {earlier later : Placed} {first second : Site}
    {firstEntry secondEntry : Entry} (hprecedes : earlier.Precedes later)
    (hfirst : firstEntry ∈ earlier.tree.entries earlier.start) (hfirstSite : firstEntry.Has first)
    (hsecond : secondEntry ∈ later.tree.entries later.start)
    (hsecondSite : secondEntry.Has second) : first.Apart second ∨ first.Within second := by
  have hinner : first.Between earlier.start earlier.stop := hfirstSite.between hfirst
  have houter := hsecondSite.between hsecond
  obtain ⟨-, hkey, hstart, hend⟩ := hsecondSite
  rcases hprecedes with hfront | hclear
  · exact .inl (.inl (Nat.le_of_lt
      (Nat.lt_of_lt_of_le hinner.lt_high (Nat.le_trans hfront (Nat.le_of_lt houter.low_lt)))))
  · rcases hclear secondEntry hsecond with hbefore | ⟨hlow, hhigh⟩ | hbehind
    · rw [← hkey] at hbefore
      exact .inl (.inl (Nat.le_trans (Nat.le_of_lt hinner.lt_high) hbefore))
    · rw [← hstart] at hlow
      rw [← hend] at hhigh
      exact .inr (hinner.mono hlow hhigh)
    · rw [← hend] at hbehind
      exact .inl (.inr (Nat.le_trans hbehind (Nat.le_of_lt hinner.low_lt)))

/-- Two sites that lie at arrays of objects of a tree are the same, lie apart, or
lie one inside the array of the other, if every object has one site at most. -/
theorem Tree.nested_of_mem_filterMap {tree : Tree} {report : Placed → Option Site}
    (hreport : ∀ {placed site}, report placed = some site →
      ∃ entry ∈ placed.tree.entries placed.start, entry.Has site)
    {first second : Site} (hfirst : first ∈ (tree.objects offset).filterMap report)
    (hsecond : second ∈ (tree.objects offset).filterMap report) :
    first = second ∨ first.Apart second ∨ first.Within second ∨ second.Within first := by
  have hpairwise : ((tree.objects offset).filterMap report).Pairwise fun earlier later =>
      earlier.Apart later ∨ earlier.Within later := by
    apply List.pairwise_filterMap.mpr
    apply (tree.pairwise_objects offset).imp
    intro earlier later hprecedes earlierSite hearlier laterSite hlater
    obtain ⟨earlierEntry, hearlierEntry, hearlierSite⟩ := hreport hearlier
    obtain ⟨laterEntry, hlaterEntry, hlaterSite⟩ := hreport hlater
    exact hprecedes.apart_or_within hearlierEntry hearlierSite hlaterEntry hlaterSite
  apply List.Pairwise.forall_of_forall_of_flip (R := fun first second =>
    first = second ∨ first.Apart second ∨ first.Within second ∨ second.Within first) _ _ _ hfirst
    hsecond
  · intro site _
    exact .inl rfl
  · apply hpairwise.imp
    rintro earlier later (hapart | hwithin)
    · exact .inr (.inl hapart)
    · exact .inr (.inr (.inl hwithin))
  · apply hpairwise.imp
    rintro earlier later (hapart | hwithin)
    · exact .inr (.inl hapart.symm)
    · exact .inr (.inr (.inr hwithin))

/-- Two sites of a tree are the same, lie apart, or lie one inside the array of
the other. -/
theorem Tree.nested_of_mem_sites {tree : Tree} {first second : Site}
    (hfirst : first ∈ tree.sites settings offset) (hsecond : second ∈ tree.sites settings offset) :
    first = second ∨ first.Apart second ∨ first.Within second ∨ second.Within first := by
  rw [Tree.sites_eq_filterMap_objects] at hfirst hsecond
  exact Tree.nested_of_mem_filterMap (fun hsite => exists_target_of_siteOf? hsite) hfirst hsecond

end Grammar

end ArrayPatch
