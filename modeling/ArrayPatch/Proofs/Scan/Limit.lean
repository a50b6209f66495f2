import ArrayPatch.Proofs.Grammar.Completion

/-!
# A wider nesting limit

What is read under a nesting limit, and every fault other than the limit itself, is
the same under all wider limits, together with the sites found by then.  The loops
over elements and members are treated for any two readers of values of which one
goes on as the other one does unless it is refused for its nesting; an induction on
the limit ties the knot.

A value that a wider limit lets through is refused before its end, if it is refused
for its nesting: what stands before the refusal can be completed to another value,
and no value is the start of another one.
-/

namespace ArrayPatch

open Grammar

namespace Scan

/-- A scan ends in one way only. -/
theorem Ends.unique {cursor next last : Cursor} {scan : Scan (After cursor)}
    {found other : List Site} (hends : scan.Ends found next) (hother : scan.Ends other last) :
    found = other ∧ next = last := by
  obtain ⟨_, hscan⟩ := hends
  obtain ⟨_, hsame⟩ := hother
  cases hscan.symm.trans hsame
  exact ⟨rfl, rfl⟩

/-- A reader of values that goes on as another one does, unless it is refused for its
nesting. -/
structure WidensTo (element wider : (cursor : Cursor) → Scan (After cursor)) : Prop where
  ends {cursor next : Cursor} {found : List Site} :
    (element cursor).Ends found next → (wider cursor).Ends found next
  fails {cursor : Cursor} {found : List Site} {fault : Fault} :
    (element cursor).Fails found fault → fault.flaw ≠ .nestingTooDeep →
      (wider cursor).Fails found fault

namespace WidensTo

variable {element wider : (cursor : Cursor) → Scan (After cursor)}
variable {opening : Nat} {cursor next : Cursor} {found : List Site} {fault : Fault}
variable (hwider : WidensTo element wider)

include hwider

theorem fails_moreElements (hflaw : fault.flaw ≠ .nestingTooDeep)
    (hfails : (moreElements element opening cursor).Fails found fault) :
    (moreElements wider opening cursor).Fails found fault := by
  induction hlength : cursor.rest.length using Nat.strongRecOn generalizing cursor found with
  | ind length ih =>
    rw [fails_moreElements_iff] at hfails ⊢
    rcases hfails with hend | ⟨offset, c, rest, hskip, hother | hend |
      ⟨hcomma, hitem, hfirst | ⟨first, mid, hfirst, more, hmore, hfound⟩⟩⟩
    · exact .inl hend
    · exact .inr ⟨offset, c, rest, hskip, .inl hother⟩
    · exact .inr ⟨offset, c, rest, hskip, .inr (.inl hend)⟩
    · refine .inr ⟨offset, c, rest, hskip, .inr (.inr ⟨hcomma, hitem, .inl ?_⟩)⟩
      exact hwider.fails hfirst hflaw
    · have hmid : mid.rest.length < length :=
        hlength ▸ Cursor.length_lt_of_item hskip hfirst.length_lt
      refine .inr ⟨offset, c, rest, hskip, .inr (.inr ⟨hcomma, hitem, .inr ?_⟩)⟩
      exact ⟨first, mid, hwider.ends hfirst, more, ih _ hmid hmore rfl, hfound⟩

theorem fails_elements (hflaw : fault.flaw ≠ .nestingTooDeep)
    (hfails : (elements element opening cursor).Fails found fault) :
    (elements wider opening cursor).Fails found fault := by
  rw [fails_elements_iff] at hfails ⊢
  rcases hfails with hend | ⟨offset, c, rest, hskip, hopen,
    hfirst | ⟨first, mid, hfirst, more, hmore, hfound⟩⟩
  · exact .inl hend
  · exact .inr ⟨offset, c, rest, hskip, hopen, .inl (hwider.fails hfirst hflaw)⟩
  · exact .inr ⟨offset, c, rest, hskip, hopen, .inr ⟨first, mid, hwider.ends hfirst, more,
      hwider.fails_moreElements hflaw hmore, hfound⟩⟩

variable {settings : Settings} {slots slotsAfter : Slots} {key : Text} {keyStart : Nat}

theorem yields_member
    (hyields : (member element opening settings slots cursor).Yields found slotsAfter next) :
    (member wider opening settings slots cursor).Yields found slotsAfter next := by
  rw [yields_member_iff] at hyields ⊢
  obtain ⟨key, behind, offset, rest, hkey, hcolon, hvalue⟩ := hyields
  refine ⟨key, behind, offset, rest, hkey, hcolon, ?_⟩
  rw [yields_memberValue_iff] at hvalue ⊢
  obtain ⟨c, hhead, hidentifier | ⟨hother, hends, hslots⟩⟩ := hvalue
  · exact ⟨c, hhead, .inl hidentifier⟩
  · exact ⟨c, hhead, .inr ⟨hother, hwider.ends hends, hslots⟩⟩

theorem fails_member (hflaw : fault.flaw ≠ .nestingTooDeep)
    (hfails : (member element opening settings slots cursor).Fails found fault) :
    (member wider opening settings slots cursor).Fails found fault := by
  rw [fails_member_iff] at hfails ⊢
  rcases hfails with hend | ⟨c, hhead, hother | ⟨hquote, hkey | ⟨key, behind, hreads, hend |
    ⟨offset, d, rest, hskip, hcolon | ⟨hcolon, hvalue⟩⟩⟩⟩⟩
  · exact .inl hend
  · exact .inr ⟨c, hhead, .inl hother⟩
  · exact .inr ⟨c, hhead, .inr ⟨hquote, .inl hkey⟩⟩
  · exact .inr ⟨c, hhead, .inr ⟨hquote, .inr ⟨key, behind, hreads, .inl hend⟩⟩⟩
  · exact .inr ⟨c, hhead, .inr ⟨hquote, .inr ⟨key, behind, hreads,
      .inr ⟨offset, d, rest, hskip, .inl hcolon⟩⟩⟩⟩
  · refine .inr ⟨c, hhead, .inr ⟨hquote, .inr ⟨key, behind, hreads,
      .inr ⟨offset, d, rest, hskip, .inr ⟨hcolon, ?_⟩⟩⟩⟩⟩
    rw [fails_memberValue_iff] at hvalue ⊢
    rcases hvalue with hend | ⟨e, hfirst, hidentifier | ⟨hother, hfails⟩⟩
    · exact .inl hend
    · exact .inr ⟨e, hfirst, .inl hidentifier⟩
    · exact .inr ⟨e, hfirst, .inr ⟨hother, hwider.fails hfails hflaw⟩⟩

theorem fails_moreMembers (hflaw : fault.flaw ≠ .nestingTooDeep)
    (hfails : (moreMembers element opening settings slots cursor).Fails found fault) :
    (moreMembers wider opening settings slots cursor).Fails found fault := by
  induction hlength : cursor.rest.length using Nat.strongRecOn
    generalizing cursor slots found with
  | ind length ih =>
    rw [fails_moreMembers_iff] at hfails ⊢
    rcases hfails with hend | ⟨offset, c, rest, hskip, hother | ⟨hcomma,
      hfirst | ⟨first, slotsAfter, mid, hfirst, more, hmore, hfound⟩⟩⟩
    · exact .inl hend
    · exact .inr ⟨offset, c, rest, hskip, .inl hother⟩
    · exact .inr ⟨offset, c, rest, hskip, .inr ⟨hcomma, .inl (hwider.fails_member hflaw hfirst)⟩⟩
    · have hmid : mid.rest.length < length :=
        hlength ▸ Cursor.length_lt_of_item hskip hfirst.length_lt
      exact .inr ⟨offset, c, rest, hskip, .inr ⟨hcomma, .inr ⟨first, slotsAfter, mid,
        hwider.yields_member hfirst, more, ih _ hmid hmore rfl, hfound⟩⟩⟩

theorem fails_members (hflaw : fault.flaw ≠ .nestingTooDeep)
    (hfails : (members element opening settings cursor).Fails found fault) :
    (members wider opening settings cursor).Fails found fault := by
  rw [fails_members_iff] at hfails ⊢
  rcases hfails with hend | ⟨offset, c, rest, hskip, hopen,
    hfirst | ⟨first, slots, mid, hfirst, more, hmore, hfound⟩⟩
  · exact .inl hend
  · exact .inr ⟨offset, c, rest, hskip, hopen, .inl (hwider.fails_member hflaw hfirst)⟩
  · exact .inr ⟨offset, c, rest, hskip, hopen, .inr ⟨first, slots, mid,
      hwider.yields_member hfirst, more, hwider.fails_moreMembers hflaw hmore, hfound⟩⟩

end WidensTo

variable {settings : Settings} {depth limit offset : Nat} {cursor start next : Cursor}
variable {found other : List Site} {fault : Fault} {tree : Tree}

theorem ends_value_of_le (hle : depth ≤ limit)
    (hends : (value settings depth cursor).Ends found next) :
    (value settings limit cursor).Ends found next := by
  obtain ⟨blanks, tree, hblanks, hpasses, hwell, hdepth, hprecede⟩ := passesValue_of_ends hends
  obtain ⟨start, hstart, htree⟩ := Cursor.passes_append_iff.mp hpasses
  have hskip := Cursor.skipBlanks_eq_of_tree hblanks hstart htree hwell
  have hagain := ends_value_of_tree settings hskip tree htree hwell hdepth hprecede
  obtain ⟨rfl, -⟩ := hends.unique hagain
  exact ends_value_of_tree settings hskip tree htree hwell (Nat.le_trans hdepth hle) hprecede

/-- Under a wider limit a value goes on as before. -/
theorem widensTo_value (settings : Settings) (hle : depth ≤ limit) :
    WidensTo (value settings depth) (value settings limit) := by
  induction depth using Nat.strongRecOn generalizing limit with
  | ind depth ih =>
    refine ⟨ends_value_of_le hle, ?_⟩
    intro cursor found fault hfails hflaw
    rw [fails_value_iff] at hfails ⊢
    rcases hfails with hend | ⟨offset, c, rest, hskip, hstep⟩
    · exact .inl hend
    · refine .inr ⟨offset, c, rest, hskip, ?_⟩
      rcases hstep with ⟨hbrace, ⟨-, -, rfl⟩ | ⟨below, rfl, hobject⟩⟩ |
        ⟨hbracket, ⟨-, -, rfl⟩ | ⟨below, rfl, harray⟩⟩ | hother
      · exact absurd rfl hflaw
      · obtain ⟨more, rfl⟩ := Nat.exists_eq_add_of_le' hle
        have hwider := ih below (Nat.lt_succ_self below) (Nat.le_add_left below more)
        exact .inl ⟨hbrace, .inr ⟨_, rfl, hwider.fails_members hflaw hobject⟩⟩
      · exact absurd rfl hflaw
      · obtain ⟨more, rfl⟩ := Nat.exists_eq_add_of_le' hle
        have hwider := ih below (Nat.lt_succ_self below) (Nat.le_add_left below more)
        exact .inr (.inl ⟨hbracket, .inr ⟨_, rfl, hwider.fails_elements hflaw harray⟩⟩)
      · exact .inr (.inr hother)

/-- What is not refused for its nesting is the same under a wider limit. -/
theorem value_eq_of_le (hle : depth ≤ limit)
    (hshallow : ∀ offset, (value settings depth cursor).result ≠ .error ⟨.nestingTooDeep, offset⟩) :
    value settings limit cursor = value settings depth cursor := by
  have hwider := widensTo_value settings hle
  rcases hscan : value settings depth cursor with ⟨found, ⟨flaw, offset⟩ | ⟨next, hnext⟩⟩
  · have hflaw : flaw ≠ .nestingTooDeep := by
      rintro rfl
      exact hshallow offset (by rw [hscan])
    exact hwider.fails hscan hflaw
  · obtain ⟨_, hends⟩ := hwider.ends ⟨hnext, hscan⟩
    exact hends

/-! ## Refusals inside a value -/

/-- A scan is refused for its nesting before an offset. -/
def RefusedBefore {α : Type} (scan : Scan α) (limit : Nat) : Prop :=
  ∃ found offset, scan.Fails found ⟨.nestingTooDeep, offset⟩ ∧ offset < limit

theorem RefusedBefore.mono {α : Type} {scan : Scan α} {limit wider : Nat}
    (hrefused : scan.RefusedBefore limit) (hle : limit ≤ wider) : scan.RefusedBefore wider := by
  obtain ⟨found, offset, hfails, hlt⟩ := hrefused
  exact ⟨found, offset, hfails, Nat.lt_of_lt_of_le hlt hle⟩

/-- No value is the start of another one: two trees at a cursor take up the same text. -/
theorem next_eq_of_trees {blanks more : Text} {tree other : Tree} {next last : Cursor}
    (hblanks : AllBlank blanks) (hpasses : cursor.Passes (blanks ++ tree.text) next)
    (hwell : tree.WellFormed) (hprecede : tree.CanPrecede next.rest) (hmore : AllBlank more)
    (hother : cursor.Passes (more ++ other.text) last) (hotherWell : other.WellFormed)
    (hotherPrecede : other.CanPrecede last.rest) : next = last := by
  obtain ⟨start, hstart, htree⟩ := Cursor.passes_append_iff.mp hpasses
  obtain ⟨otherStart, hotherStart, hotherTree⟩ := Cursor.passes_append_iff.mp hother
  have hskip := Cursor.skipBlanks_eq_of_tree hblanks hstart htree hwell
  have hotherSkip := Cursor.skipBlanks_eq_of_tree hmore hotherStart hotherTree hotherWell
  exact ((ends_value_of_tree {} hskip tree htree hwell (Nat.le_max_left _ _) hprecede).unique
    (ends_value_of_tree {} hotherSkip other hotherTree hotherWell (Nat.le_max_right _ _)
      hotherPrecede)).2

/-- Where a tree stands, a value is refused for its nesting before the end of the tree
only. -/
theorem offset_lt_of_tree (htree : start.Passes tree.text next) (hwell : tree.WellFormed)
    (hprecede : tree.CanPrecede next.rest)
    (hfails : (value settings depth start).Fails found ⟨.nestingTooDeep, offset⟩) :
    offset < next.offset := by
  have hany (rest : Text) : tree.CanPrecede rest := by
    cases tree with
    | literal text =>
        have hskip := Cursor.skipBlanks_eq_self_of_tree htree hwell
        obtain ⟨_, hends⟩ := ends_value_literal settings hskip htree hwell hprecede
        cases hfails.symm.trans hends
    | string | emptyArray | array | emptyObject | object => trivial
  obtain ⟨front, place, suffix, closed, opened, hfront, rfl, hsuffix,
    ⟨blanks, other, hcompleted, hblanks, hotherWell, -⟩, -⟩ := closes_of_fails_value hfails
  by_contra hle
  -- The tree stands in what is read before the refusal, and this is completed to a longer value.
  have hsize : Text.size tree.text ≤ Text.size front := by
    have hstop := htree.offset_eq
    have hfrontStop := hfront.offset_eq
    omega
  obtain ⟨more, rfl, -⟩ :=
    Text.exists_eq_append_of_size_le (htree.rest_eq.symm.trans hfront.rest_eq) hsize
  have hshort : (Cursor.mk start.offset (tree.text ++ more ++ suffix)).Passes ([] ++ tree.text)
      ⟨next.offset, more ++ suffix⟩ := ⟨List.append_assoc .., htree.offset_eq⟩
  have hlong : (Cursor.mk start.offset (tree.text ++ more ++ suffix)).Passes
      (blanks ++ other.text) ⟨_, []⟩ := ⟨by rw [hcompleted, List.append_nil], rfl⟩
  have hnext := next_eq_of_trees allBlank_nil hshort hwell (hany _) hblanks hlong hotherWell
    (Tree.canPrecede_of_delimited allBlank_nil.delimited)
  exact hsuffix (List.append_eq_nil_iff.mp (Cursor.mk.inj hnext).2).2

/-- Where a tree stands, a value is read under every limit, or it is refused for its
nesting before the end of the tree. -/
theorem ends_or_refusedBefore_of_tree (settings : Settings) (depth : Nat)
    (htree : start.Passes tree.text next) (hwell : tree.WellFormed)
    (hprecede : tree.CanPrecede next.rest) :
    (∃ found, (value settings depth start).Ends found next) ∨
      (value settings depth start).RefusedBefore next.offset := by
  by_cases hdeep : ∃ offset, (value settings depth start).result = .error ⟨.nestingTooDeep, offset⟩
  · obtain ⟨offset, hresult⟩ := hdeep
    have hfails : (value settings depth start).Fails (value settings depth start).found
        ⟨.nestingTooDeep, offset⟩ := ext_iff.mpr ⟨rfl, hresult⟩
    exact .inr ⟨_, offset, hfails, offset_lt_of_tree htree hwell hprecede hfails⟩
  · have hskip := Cursor.skipBlanks_eq_self_of_tree htree hwell
    have hends := ends_value_of_tree settings hskip tree htree hwell (Nat.le_max_right depth _)
      hprecede
    rw [value_eq_of_le (Nat.le_max_left depth tree.depth) (not_exists.mp hdeep)] at hends
    exact .inl ⟨_, hends⟩

end Scan

end ArrayPatch
