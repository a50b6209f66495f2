import ArrayPatch.Proofs.Scan.Passing

/-!
# What the scanner accepts is a value

Whenever a reader of the scanner succeeds, the text that it has passed over is
the text of a well-formed syntax tree no deeper than the nesting limit.  The
loops over elements and members are treated for any reader of values that has
this property; an induction on the nesting limit ties the knot.
-/

namespace ArrayPatch

open Grammar

/-- A cursor passes over blanks and a well-formed value up to some depth. -/
def PassesValue (depth : Nat) (cursor next : Cursor) : Prop :=
  ∃ (blanks : Text) (tree : Tree), AllBlank blanks ∧ cursor.Passes (blanks ++ tree.text) next ∧
    tree.WellFormed ∧ tree.depth ≤ depth ∧ tree.CanPrecede next.rest

theorem Cursor.exists_passes_skipBlanks {cursor next : Cursor} (hskip : cursor.skipBlanks = next) :
    ∃ blanks, AllBlank blanks ∧ cursor.Passes blanks next := by
  obtain ⟨blanks, hpasses, hblanks, -⟩ := Cursor.skipBlanks_eq_iff.mp hskip
  exact ⟨blanks, hblanks, hpasses⟩

theorem Cursor.exists_passes_char {cursor : Cursor} {offset : Nat} {c : Char} {rest : Text}
    (hskip : cursor.skipBlanks = ⟨offset, c :: rest⟩) (hwidth : c.utf8Size = 1) :
    ∃ blanks, AllBlank blanks ∧ cursor.Passes (blanks ++ [c]) ⟨offset + 1, rest⟩ := by
  obtain ⟨blanks, hblanks, hpasses⟩ := exists_passes_skipBlanks hskip
  refine ⟨blanks, hblanks, hpasses.trans ⟨rfl, ?_⟩⟩
  rw [Text.size_cons, hwidth]
  rfl

theorem PassesValue.of_skipBlanks {depth : Nat} {cursor next : Cursor}
    (hvalue : PassesValue depth cursor.skipBlanks next) : PassesValue depth cursor next := by
  obtain ⟨blanks, hblanks, hpasses⟩ := Cursor.exists_passes_skipBlanks (rfl : cursor.skipBlanks = _)
  obtain ⟨more, tree, hmore, hmid, htree⟩ := hvalue
  refine ⟨blanks ++ more, tree, hblanks.append hmore, ?_, htree⟩
  rw [List.append_assoc]
  exact hpasses.trans hmid

namespace Scan

section Nested

variable {element : (cursor : Cursor) → Scan (After cursor)} {opening depth : Nat}
variable {cursor next : Cursor} {found : List Site}
variable (helement : ∀ {cursor next : Cursor} {found : List Site},
  (element cursor).Ends found next → PassesValue depth cursor next)

include helement

/-- What is read behind an element is the rest of an array. -/
theorem exists_elements_of_ends (hends : (moreElements element opening cursor).Ends found next) :
    ∃ more : Elements, cursor.Passes more.text next ∧ more.WellFormed ∧ more.depth ≤ depth := by
  induction hlength : cursor.rest.length using Nat.strongRecOn generalizing cursor found with
  | ind length ih =>
    obtain ⟨offset, c, rest, hskip, hstep⟩ := ends_moreElements_iff.mp hends
    have hlt := Cursor.length_lt_of_skipBlanks_eq hskip
    rcases hstep with ⟨rfl, -, rfl⟩ | ⟨rfl, -, _, mid, _, hfirst, hmore, -⟩
    · obtain ⟨blanks, hblanks, hpasses⟩ := Cursor.exists_passes_char hskip rfl
      exact ⟨.done blanks, hpasses, hblanks, Nat.zero_le depth⟩
    · obtain ⟨before, hbefore, hcomma⟩ := Cursor.exists_passes_char hskip rfl
      obtain ⟨after, tree, hafter, hvalue, hwell, hdepth, -⟩ :=
        (helement hfirst).of_skipBlanks
      have hmid : mid.rest.length < length := by
        have hitem := hfirst.length_lt
        have hblanks := Cursor.length_skipBlanks_le ⟨offset + 1, rest⟩
        dsimp only at hblanks
        omega
      obtain ⟨rest, hrest, hrestWell, hrestDepth⟩ := ih _ hmid hmore rfl
      refine ⟨.more before after tree rest, ?_, ⟨hbefore, hafter, hwell, hrestWell⟩,
        Nat.max_le.mpr ⟨hdepth, hrestDepth⟩⟩
      have hpasses := (hcomma.trans hvalue).trans hrest
      simpa [Elements.text] using hpasses

theorem exists_array_of_ends {offset : Nat} {rest : Text}
    (hends : (elements element opening ⟨offset + 1, rest⟩).Ends found next) :
    ∃ tree : Tree, (Cursor.mk offset ('[' :: rest)).Passes tree.text next ∧ tree.WellFormed ∧
      tree.depth ≤ depth + 1 ∧ tree.CanPrecede next.rest := by
  have hopen : (Cursor.mk offset ('[' :: rest)).Passes ['['] ⟨offset + 1, rest⟩ := ⟨rfl, rfl⟩
  obtain ⟨start, c, behind, hskip, hstep⟩ := ends_elements_iff.mp hends
  rcases hstep with ⟨rfl, -, rfl⟩ | ⟨-, _, mid, _, hfirst, hmore, -⟩
  · obtain ⟨blanks, hblanks, hpasses⟩ := Cursor.exists_passes_char hskip rfl
    refine ⟨.emptyArray blanks, ?_, hblanks, Nat.le_add_left 1 depth, trivial⟩
    simpa [Tree.text] using hopen.trans hpasses
  · rw [← hskip] at hfirst
    obtain ⟨blanks, tree, hblanks, hvalue, hwell, hdepth, -⟩ := (helement hfirst).of_skipBlanks
    obtain ⟨more, hmoreText, hmoreWell, hmoreDepth⟩ := exists_elements_of_ends helement hmore
    refine ⟨.array blanks tree more, ?_, ⟨hblanks, hwell, hmoreWell⟩, ?_, trivial⟩
    · simpa [Tree.text] using (hopen.trans hvalue).trans hmoreText
    · exact Nat.succ_le_succ (Nat.max_le.mpr ⟨hdepth, hmoreDepth⟩)

variable {settings : Settings} {slots slotsAfter : Slots}

omit helement in
theorem passesValue_of_reads {value : Text}
    (hreads : StringToken.Reads (StringToken.read cursor) value next) :
    PassesValue depth cursor next := by
  obtain ⟨pieces, hpasses, hmeaning⟩ := StringToken.reads_read_iff_passes.mp hreads
  refine ⟨[], .string pieces, ?_, hpasses, ?_, Nat.zero_le depth, trivial⟩
  · intro c hc
    cases hc
  · exact Option.isSome_iff_exists.mpr ⟨value, hmeaning⟩

/-- What is read as a member is a member. -/
theorem exists_member_of_yields
    (hyields : (member element opening settings slots cursor).Yields found slotsAfter next) :
    ∃ member : Member, cursor.Passes member.text next ∧ member.WellFormed ∧
      member.depth ≤ depth := by
  obtain ⟨key, behind, offset, rest, hkey, hcolon, hvalue⟩ := yields_member_iff.mp hyields
  obtain ⟨pieces, hpieces, hmeaning⟩ := StringToken.reads_read_iff_passes.mp hkey
  obtain ⟨before, hbefore, hcolon⟩ := Cursor.exists_passes_char hcolon rfl
  have hvalue : PassesValue depth (Cursor.skipBlanks ⟨offset + 1, rest⟩) next := by
    obtain ⟨c, -, hstep⟩ := yields_memberValue_iff.mp hvalue
    rcases hstep with ⟨-, -, -, identifier, hreads, -⟩ | ⟨-, hends, -⟩
    · exact passesValue_of_reads hreads
    · exact helement hends
  obtain ⟨after, tree, hafter, htree, hwell, hdepth, -⟩ := hvalue.of_skipBlanks
  refine ⟨.mk pieces before after tree, ?_,
    ⟨Option.isSome_iff_exists.mpr ⟨key, hmeaning⟩, hbefore, hafter, hwell⟩, hdepth⟩
  have hpasses := (hpieces.trans hcolon).trans htree
  simpa [Member.text] using hpasses

/-- What is read behind a member is the rest of an object. -/
theorem exists_members_of_ends
    (hends : (moreMembers element opening settings slots cursor).Ends found next) :
    ∃ more : Members, cursor.Passes more.text next ∧ more.WellFormed ∧ more.depth ≤ depth := by
  induction hlength : cursor.rest.length using Nat.strongRecOn
    generalizing cursor found slots with
  | ind length ih =>
    obtain ⟨offset, c, rest, hskip, hstep⟩ := ends_moreMembers_iff.mp hends
    have hlt := Cursor.length_lt_of_skipBlanks_eq hskip
    rcases hstep with ⟨rfl, -, rfl⟩ | ⟨rfl, _, _, mid, _, hfirst, hmore, -⟩
    · obtain ⟨blanks, hblanks, hpasses⟩ := Cursor.exists_passes_char hskip rfl
      exact ⟨.done blanks, hpasses, hblanks, Nat.zero_le depth⟩
    · obtain ⟨before, hbefore, hcomma⟩ := Cursor.exists_passes_char hskip rfl
      obtain ⟨after, hafter, hblanks⟩ := Cursor.exists_passes_skipBlanks
        (rfl : (Cursor.mk (offset + 1) rest).skipBlanks = _)
      obtain ⟨member, hmember, hwell, hdepth⟩ := exists_member_of_yields helement hfirst
      have hmid : mid.rest.length < length := by
        have hitem := hfirst.length_lt
        have hshorter := Cursor.length_skipBlanks_le ⟨offset + 1, rest⟩
        dsimp only at hshorter
        omega
      obtain ⟨rest, hrest, hrestWell, hrestDepth⟩ := ih _ hmid hmore rfl
      refine ⟨.more before after member rest, ?_, ⟨hbefore, hafter, hwell, hrestWell⟩,
        Nat.max_le.mpr ⟨hdepth, hrestDepth⟩⟩
      have hpasses := ((hcomma.trans hblanks).trans hmember).trans hrest
      simpa [Members.text] using hpasses

theorem exists_object_of_ends {offset : Nat} {rest : Text}
    (hends : (members element opening settings ⟨offset + 1, rest⟩).Ends found next) :
    ∃ tree : Tree, (Cursor.mk offset ('\x7b' :: rest)).Passes tree.text next ∧
      tree.WellFormed ∧ tree.depth ≤ depth + 1 ∧ tree.CanPrecede next.rest := by
  have hopen : (Cursor.mk offset ('\x7b' :: rest)).Passes ['\x7b'] ⟨offset + 1, rest⟩ :=
    ⟨rfl, rfl⟩
  obtain ⟨start, c, behind, hskip, hstep⟩ := ends_members_iff.mp hends
  rcases hstep with ⟨rfl, -, rfl⟩ | ⟨-, _, _, mid, _, hfirst, hmore, -⟩
  · obtain ⟨blanks, hblanks, hpasses⟩ := Cursor.exists_passes_char hskip rfl
    refine ⟨.emptyObject blanks, ?_, hblanks, Nat.le_add_left 1 depth, trivial⟩
    simpa [Tree.text] using hopen.trans hpasses
  · obtain ⟨blanks, hblanks, hpasses⟩ := Cursor.exists_passes_skipBlanks hskip
    obtain ⟨member, hmember, hwell, hdepth⟩ := exists_member_of_yields helement hfirst
    obtain ⟨more, hmoreText, hmoreWell, hmoreDepth⟩ := exists_members_of_ends helement hmore
    refine ⟨.object blanks member more, ?_, ⟨hblanks, hwell, hmoreWell⟩, ?_, trivial⟩
    · have hpasses := ((hopen.trans hpasses).trans hmember).trans hmoreText
      simpa [Tree.text] using hpasses
    · exact Nat.succ_le_succ (Nat.max_le.mpr ⟨hdepth, hmoreDepth⟩)

end Nested

/-- Where the scanner finds the end of a value there is a value. -/
theorem passesValue_of_ends {settings : Settings} {depth : Nat} {cursor next : Cursor}
    {found : List Site} (hends : (value settings depth cursor).Ends found next) :
    PassesValue depth cursor next := by
  induction depth using Nat.strongRecOn generalizing cursor next found with
  | ind depth ih =>
    obtain ⟨offset, c, rest, hskip, hstep⟩ := ends_value_iff.mp hends
    obtain ⟨blanks, hblanks, hpasses⟩ := Cursor.exists_passes_skipBlanks hskip
    rcases hstep with ⟨rfl, below, rfl, hobject⟩ | ⟨rfl, below, rfl, harray⟩ |
      ⟨rfl, -, text, htext⟩ | ⟨hbrace, hbracket, hquote, -, hliteral⟩
    · obtain ⟨tree, htree, hwell, hdepth, hprecede⟩ :=
        exists_object_of_ends (ih below (Nat.lt_succ_self below)) hobject
      exact ⟨blanks, tree, hblanks, hpasses.trans htree, hwell, hdepth, hprecede⟩
    · obtain ⟨tree, htree, hwell, hdepth, hprecede⟩ :=
        exists_array_of_ends (ih below (Nat.lt_succ_self below)) harray
      exact ⟨blanks, tree, hblanks, hpasses.trans htree, hwell, hdepth, hprecede⟩
    · have hvalue : PassesValue depth cursor.skipBlanks next := by
        rw [hskip]
        exact passesValue_of_reads htext
      exact hvalue.of_skipBlanks
    · obtain ⟨text, htext, hnonempty, hrun, hdelimited⟩ := literal_eq_ok_iff_passes.mp hliteral
      obtain ⟨d, run, rfl⟩ := List.exists_cons_of_ne_nil hnonempty
      obtain rfl : c = d := (List.cons.inj htext.rest_eq).1
      exact ⟨blanks, .literal (c :: run), hblanks, hpasses.trans htext,
        ⟨hrun, c, run, rfl, hbrace, hbracket, hquote⟩, Nat.zero_le depth,
        Tree.canPrecede_of_delimited hdelimited⟩

end Scan

end ArrayPatch
