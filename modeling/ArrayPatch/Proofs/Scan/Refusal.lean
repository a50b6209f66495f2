import ArrayPatch.Proofs.Grammar.Opening
import ArrayPatch.Proofs.Scan.Limit
import ArrayPatch.Proofs.Scan.Scanner

/-!
# The nesting limit refuses the first bracket that is too deep

Wherever a bracket stands behind as many frames as the limit allows, it is refused or
one before it is: what is complete in the frames is read under the limit or refused
earlier, frame by frame.  So a value is refused for its nesting at the first such
bracket, and if there is none, the limit has no influence.
-/

namespace ArrayPatch

open Grammar

namespace Scan

variable {settings : Settings} {depth opening offset : Nat} {cursor start mid next : Cursor}
variable {found : List Site}

section Steps

variable {element : (cursor : Cursor) → Scan (After cursor)} {here limit : Nat} {c : Char}
variable {rest : Text} {slots slotsAfter : Slots} {item : Cursor}

theorem refusedBefore_elements (hskip : cursor.skipBlanks = ⟨here, c :: rest⟩) (hc : c ≠ ']')
    (hstep : (element ⟨here, c :: rest⟩).RefusedBefore limit ∨
      ∃ first mid, (element ⟨here, c :: rest⟩).Ends first mid ∧
        (moreElements element opening mid).RefusedBefore limit) :
    (elements element opening cursor).RefusedBefore limit := by
  rcases hstep with ⟨found, offset, hfails, hlt⟩ | ⟨first, mid, hends, more, offset, hfails, hlt⟩
  · refine ⟨found, offset, fails_elements_iff.mpr (.inr ⟨here, c, rest, hskip, hc, ?_⟩), hlt⟩
    exact .inl hfails
  · refine ⟨first ++ more, offset, ?_, hlt⟩
    refine fails_elements_iff.mpr (.inr ⟨here, c, rest, hskip, hc, ?_⟩)
    exact .inr ⟨first, mid, hends, more, hfails, rfl⟩

/-- Behind an element an array is refused in the next element or behind it. -/
theorem refusedBefore_moreElements (hskip : cursor.skipBlanks = ⟨here, ',' :: rest⟩)
    (hitem : (Cursor.mk (here + 1) rest).skipBlanks = item) (hend : item.rest ≠ [])
    (hstep : (element item).RefusedBefore limit ∨
      ∃ first mid, (element item).Ends first mid ∧
        (moreElements element opening mid).RefusedBefore limit) :
    (moreElements element opening cursor).RefusedBefore limit := by
  subst hitem
  rcases hstep with ⟨found, offset, hfails, hlt⟩ | ⟨first, mid, hends, more, offset, hfails, hlt⟩
  · refine ⟨found, offset, fails_moreElements_iff.mpr (.inr ⟨here, ',', rest, hskip, ?_⟩), hlt⟩
    exact .inr (.inr ⟨rfl, hend, .inl hfails⟩)
  · refine ⟨first ++ more, offset, ?_, hlt⟩
    refine fails_moreElements_iff.mpr (.inr ⟨here, ',', rest, hskip, ?_⟩)
    exact .inr (.inr ⟨rfl, hend, .inr ⟨first, mid, hends, more, hfails, rfl⟩⟩)

theorem refusedBefore_members (hskip : cursor.skipBlanks = ⟨here, c :: rest⟩) (hc : c ≠ '\x7d')
    (hstep : (member element opening settings {} ⟨here, c :: rest⟩).RefusedBefore limit ∨
      ∃ first slots mid,
        (member element opening settings {} ⟨here, c :: rest⟩).Yields first slots mid ∧
        (moreMembers element opening settings slots mid).RefusedBefore limit) :
    (members element opening settings cursor).RefusedBefore limit := by
  rcases hstep with
    ⟨found, offset, hfails, hlt⟩ | ⟨first, slots, mid, hends, more, offset, hfails, hlt⟩
  · refine ⟨found, offset, fails_members_iff.mpr (.inr ⟨here, c, rest, hskip, hc, ?_⟩), hlt⟩
    exact .inl hfails
  · refine ⟨first ++ more, offset, fails_members_iff.mpr (.inr ⟨here, c, rest, hskip, hc, ?_⟩), hlt⟩
    exact .inr ⟨first, slots, mid, hends, more, hfails, rfl⟩

theorem refusedBefore_moreMembers (hskip : cursor.skipBlanks = ⟨here, ',' :: rest⟩)
    (hitem : (Cursor.mk (here + 1) rest).skipBlanks = item)
    (hstep : (member element opening settings slots item).RefusedBefore limit ∨
      ∃ first slotsAfter mid,
        (member element opening settings slots item).Yields first slotsAfter mid ∧
        (moreMembers element opening settings slotsAfter mid).RefusedBefore limit) :
    (moreMembers element opening settings slots cursor).RefusedBefore limit := by
  subst hitem
  rcases hstep with
    ⟨found, offset, hfails, hlt⟩ | ⟨first, slotsAfter, mid, hends, more, offset, hfails, hlt⟩
  · refine ⟨found, offset, fails_moreMembers_iff.mpr (.inr ⟨here, ',', rest, hskip, ?_⟩), hlt⟩
    exact .inr ⟨rfl, .inl hfails⟩
  · refine ⟨first ++ more, offset, ?_, hlt⟩
    refine fails_moreMembers_iff.mpr (.inr ⟨here, ',', rest, hskip, ?_⟩)
    exact .inr ⟨rfl, .inr ⟨first, slotsAfter, mid, hends, more, hfails, rfl⟩⟩

theorem refusedBefore_memberValue {key : Text} {keyStart : Nat}
    (hhead : cursor.rest.head? = some c) (hother : ¬ (c = '"' ∧ key = settings.identifierField))
    (hrefused : (element cursor).RefusedBefore limit) :
    (memberValue element opening settings slots key keyStart cursor).RefusedBefore limit := by
  obtain ⟨found, offset, hfails, hlt⟩ := hrefused
  exact ⟨found, offset, fails_memberValue_iff.mpr (.inr ⟨c, hhead, .inr ⟨hother, hfails⟩⟩), hlt⟩

/-- A member goes on behind its key as its value does. -/
theorem exists_meaning_of_key {key : List StringPiece} {beforeColon afterColon tail : Text}
    (hkey : (StringPiece.meaning? key).isSome) (hbeforeColon : AllBlank beforeColon)
    (hafterColon : AllBlank afterColon)
    (hpasses : cursor.Passes (StringPiece.tokenText key ++ beforeColon ++ ':' :: afterColon) item)
    (hhead : item.rest = c :: tail) (hc : ¬ IsDelimiter c) :
    ∃ meaning,
      (∀ {found slotsAfter next},
        (memberValue element opening settings slots meaning cursor.offset item).Yields found
            slotsAfter next →
          (member element opening settings slots cursor).Yields found slotsAfter next) ∧
      ∀ {limit},
        (memberValue element opening settings slots meaning cursor.offset item).RefusedBefore
            limit →
          (member element opening settings slots cursor).RefusedBefore limit := by
  obtain ⟨meaning, hmeaning⟩ := Option.isSome_iff_exists.mp hkey
  obtain ⟨colon, hfront, hcolon⟩ := Cursor.passes_append_iff.mp hpasses
  obtain ⟨behind, htoken, hblanks⟩ := Cursor.passes_append_iff.mp hfront
  obtain ⟨rest, hrest, hafter⟩ := (Cursor.passes_cons_iff rfl).mp hcolon
  have hreads := StringToken.reads_read_iff_passes.mpr ⟨key, htoken, hmeaning⟩
  have hskip : behind.skipBlanks = ⟨colon.offset, ':' :: rest⟩ := by
    rw [Cursor.skipBlanks_eq_of_passes hbeforeColon hblanks hcolon rfl (by decide), ← hrest]
  obtain rfl := hafter.skipBlanks_eq hafterColon hhead hc
  refine ⟨meaning, fun hyields => yields_member_iff.mpr ?_, ?_⟩
  · exact ⟨meaning, behind, colon.offset, rest, hreads, hskip, hyields⟩
  · rintro limit ⟨found, offset, hfails, hlt⟩
    have hmark : cursor.rest.head? = some '"' := by
      rw [htoken.rest_eq]
      rfl
    refine ⟨found, offset, fails_member_iff.mpr (.inr ⟨'"', hmark, .inr ⟨rfl, .inr ?_⟩⟩), hlt⟩
    exact ⟨meaning, behind, hreads, .inr ⟨colon.offset, ':', rest, hskip, .inr ⟨rfl, hfails⟩⟩⟩

end Steps

theorem exists_comma_of_passes {text beforeComma afterComma tail : Text} {c : Char}
    (hpasses : cursor.Passes (text ++ beforeComma ++ ',' :: afterComma) next)
    (hbeforeComma : AllBlank beforeComma) (hafterComma : AllBlank afterComma)
    (hhead : next.rest = c :: tail) (hc : ¬ IsDelimiter c) :
    ∃ behind comma rest, cursor.Passes text behind ∧ Delimited behind.rest ∧
      behind.skipBlanks = ⟨comma, ',' :: rest⟩ ∧
      (Cursor.mk (comma + 1) rest).skipBlanks = next ∧ behind.offset ≤ next.offset := by
  obtain ⟨comma, hfront, hcomma⟩ := Cursor.passes_append_iff.mp hpasses
  obtain ⟨behind, hitem, hblanks⟩ := Cursor.passes_append_iff.mp hfront
  obtain ⟨rest, hrest, hafter⟩ := (Cursor.passes_cons_iff rfl).mp hcomma
  refine ⟨behind, comma.offset, rest, hitem, ?_, ?_, hafter.skipBlanks_eq hafterComma hhead hc,
    Nat.le_trans hblanks.offset_le hcomma.offset_le⟩
  · rw [hblanks.rest_eq, hrest]
    exact delimited_append hbeforeComma (delimited_cons (.inr (.inl rfl)))
  · rw [Cursor.skipBlanks_eq_of_passes hbeforeComma hblanks hcomma rfl (by decide), ← hrest]

section Complete

variable {slots : Slots} {key : Text} {keyStart : Nat}

/-- Where the value of a member stands, it is read under every limit, or it is refused
before its end. -/
theorem yields_or_refusedBefore_of_memberValue (depth opening : Nat) {tree : Tree}
    (hpasses : cursor.Passes tree.text next) (hwell : tree.WellFormed)
    (hprecede : tree.CanPrecede next.rest) :
    (∃ found slotsAfter, (memberValue (value settings depth) opening settings slots key keyStart
        cursor).Yields found slotsAfter next) ∨
      (memberValue (value settings depth) opening settings slots key keyStart
        cursor).RefusedBefore next.offset := by
  obtain ⟨c, tail, htext, -⟩ := Tree.exists_text_eq_cons hwell
  have hhead : cursor.rest.head? = some c := by
    rw [hpasses.rest_eq, htext]
    rfl
  by_cases hidentifier : c = '"' ∧ key = settings.identifierField
  · obtain ⟨rfl, hkey⟩ := hidentifier
    obtain ⟨pieces, rfl⟩ := Tree.exists_string_of_head hwell (by rw [htext]; rfl)
    obtain ⟨identifier, hmeaning⟩ := Option.isSome_iff_exists.mp hwell
    have hreads := StringToken.reads_read_iff_passes.mpr ⟨pieces, hpasses, hmeaning⟩
    exact .inl ⟨[], slots.identify identifier, yields_memberValue_iff.mpr
      ⟨'"', hhead, .inl ⟨rfl, hkey, rfl, identifier, hreads, rfl⟩⟩⟩
  · rcases ends_or_refusedBefore_of_tree settings depth hpasses hwell hprecede with
      ⟨found, hends⟩ | hrefused
    · exact .inl ⟨found, _, yields_memberValue_iff.mpr
        ⟨c, hhead, .inr ⟨hidentifier, hends, rfl⟩⟩⟩
    · exact .inr (refusedBefore_memberValue hhead hidentifier hrefused)

theorem yields_or_refusedBefore_of_member (depth opening : Nat) {item : Member}
    (hpasses : cursor.Passes item.text next) (hwell : item.WellFormed)
    (hdelimited : Delimited next.rest) :
    (∃ found slotsAfter, (member (value settings depth) opening settings slots cursor).Yields found
        slotsAfter next) ∨
      (member (value settings depth) opening settings slots cursor).RefusedBefore next.offset := by
  obtain ⟨key, beforeColon, afterColon, tree⟩ := item
  obtain ⟨hkey, hbeforeColon, hafterColon, htreeWell⟩ := hwell
  obtain ⟨start, hfront, htree⟩ := Cursor.passes_append_iff.mp hpasses
  obtain ⟨c, tail, htext, hc⟩ := Tree.exists_text_eq_cons htreeWell
  have hhead : start.rest = c :: (tail ++ next.rest) := by
    rw [htree.rest_eq, htext]
    rfl
  obtain ⟨meaning, hyields, hrefused⟩ :=
    exists_meaning_of_key hkey hbeforeColon hafterColon hfront hhead hc
  rcases yields_or_refusedBefore_of_memberValue depth opening htree htreeWell
    (Tree.canPrecede_of_delimited hdelimited) with ⟨found, slotsAfter, hvalue⟩ | hvalue
  · exact .inl ⟨found, slotsAfter, hyields hvalue⟩
  · exact .inr (hrefused hvalue)

end Complete

/-! ## Brackets inside arrays and objects -/

section Inside

variable (hmid : mid.OpensBehind depth offset)
variable (hinner : (value settings depth mid).RefusedBefore (offset + 1))

include hmid

/-- In front of a bracket stands a complete element, or the bracket and the frames
around it. -/
theorem exists_head_of_complete {complete : List ElementBefore}
    (hcomplete : ∀ before ∈ complete, before.WellFormed)
    (hpasses : cursor.Passes (complete.flatMap ElementBefore.text) mid) :
    ∃ c rest, cursor.rest = c :: rest ∧ ¬ IsDelimiter c := by
  cases complete with
  | nil => exact Cursor.passes_nil_iff.mp hpasses ▸ hmid.exists_head
  | cons before more =>
      obtain ⟨c, rest, htext, hc⟩ :=
        Tree.exists_text_eq_cons (hcomplete before List.mem_cons_self).1
      rw [hpasses.rest_eq, List.flatMap_cons, ElementBefore.text, htext]
      exact ⟨c, _, rfl, hc⟩

include hinner

theorem refusedBefore_of_complete (opening : Nat) {complete : List ElementBefore}
    (hcomplete : ∀ before ∈ complete, before.WellFormed)
    (hpasses : cursor.Passes (complete.flatMap ElementBefore.text) mid) :
    (value settings depth cursor).RefusedBefore (offset + 1) ∨
      ∃ first behind, (value settings depth cursor).Ends first behind ∧
        (moreElements (value settings depth) opening behind).RefusedBefore (offset + 1) := by
  induction complete generalizing cursor with
  | nil => exact .inl (Cursor.passes_nil_iff.mp hpasses ▸ hinner)
  | cons before more ih =>
      obtain ⟨⟨hwell, hbeforeComma, hafterComma⟩, hmore⟩ := List.forall_mem_cons.mp hcomplete
      obtain ⟨item, hbefore, hitem⟩ := Cursor.passes_append_iff.mp hpasses
      obtain ⟨c, tail, hhead, hc⟩ := exists_head_of_complete hmid hmore hitem
      obtain ⟨behind, comma, rest, helement, hdelimited, hskip, hnext, hle⟩ :=
        exists_comma_of_passes hbefore hbeforeComma hafterComma hhead hc
      rcases ends_or_refusedBefore_of_tree settings depth helement hwell
        (Tree.canPrecede_of_delimited hdelimited) with ⟨first, hends⟩ | hrefused
      · refine .inr ⟨first, behind, hends, ?_⟩
        apply refusedBefore_moreElements hskip hnext _ (ih hmore hitem)
        rw [hhead]
        exact List.cons_ne_nil c tail
      · -- The limit is met inside this element already, hence before the bracket.
        refine .inl (hrefused.mono ?_)
        calc behind.offset ≤ item.offset := hle
          _ ≤ mid.offset := hitem.offset_le
          _ ≤ offset + 1 := Nat.le_succ_of_le hmid.offset_le

/-- A bracket inside an array is refused, or one before it is. -/
theorem refusedBefore_of_array {rest blanks : Text} {complete : List ElementBefore}
    (hblanks : AllBlank blanks) (hcomplete : ∀ before ∈ complete, before.WellFormed)
    (hpasses : (Cursor.mk (opening + 1) rest).Passes
      (blanks ++ complete.flatMap ElementBefore.text) mid) :
    (elements (value settings depth) opening ⟨opening + 1, rest⟩).RefusedBefore (offset + 1) := by
  obtain ⟨item, hopen, hitem⟩ := Cursor.passes_append_iff.mp hpasses
  obtain ⟨c, tail, hhead, hc⟩ := exists_head_of_complete hmid hcomplete hitem
  have hskip := hopen.skipBlanks_eq hblanks hhead hc
  have hstep := refusedBefore_of_complete hmid hinner opening hcomplete hitem
  rcases item with ⟨here, _⟩
  obtain rfl := hhead
  apply refusedBefore_elements hskip _ hstep
  rintro rfl
  exact hc (.inr (.inr (.inl rfl)))

variable {key : List StringPiece} {beforeColon afterColon : Text}
variable (hkey : (StringPiece.meaning? key).isSome) (hbeforeColon : AllBlank beforeColon)
variable (hafterColon : AllBlank afterColon)

omit hmid hinner in
theorem exists_mark_of_complete {complete : List MemberBefore}
    (hpasses : cursor.Passes (complete.flatMap MemberBefore.text ++
      (StringPiece.tokenText key ++ beforeColon ++ ':' :: afterColon)) mid) :
    ∃ rest, cursor.rest = '"' :: rest := by
  rw [hpasses.rest_eq]
  cases complete with
  | nil => exact ⟨_, rfl⟩
  | cons before more =>
      obtain ⟨rest, htext⟩ := before.member.exists_text_eq_cons
      rw [List.flatMap_cons, MemberBefore.text, htext]
      exact ⟨_, rfl⟩

include hkey hbeforeColon hafterColon

theorem refusedBefore_of_member (opening : Nat) (slots : Slots)
    (hpasses : cursor.Passes
      (StringPiece.tokenText key ++ beforeColon ++ ':' :: afterColon) mid) :
    (member (value settings depth) opening settings slots cursor).RefusedBefore (offset + 1) := by
  obtain ⟨c, tail, hhead, hc⟩ := hmid.exists_head
  obtain ⟨meaning, -, hrefused⟩ :=
    exists_meaning_of_key hkey hbeforeColon hafterColon hpasses hhead hc
  obtain ⟨bracket, inside, hbracket, hmark⟩ := hmid.exists_bracket
  refine hrefused (refusedBefore_memberValue (by rw [hbracket]; rfl) ?_ hinner)
  rintro ⟨rfl, -⟩
  simp at hmark

theorem refusedBefore_of_complete_members (opening : Nat) (slots : Slots)
    {complete : List MemberBefore} (hcomplete : ∀ before ∈ complete, before.WellFormed)
    (hpasses : cursor.Passes (complete.flatMap MemberBefore.text ++
      (StringPiece.tokenText key ++ beforeColon ++ ':' :: afterColon)) mid) :
    (member (value settings depth) opening settings slots cursor).RefusedBefore (offset + 1) ∨
      ∃ first slotsAfter behind,
        (member (value settings depth) opening settings slots cursor).Yields first slotsAfter
          behind ∧
        (moreMembers (value settings depth) opening settings slotsAfter behind).RefusedBefore
          (offset + 1) := by
  induction complete generalizing cursor slots with
  | nil =>
      exact .inl (refusedBefore_of_member hmid hinner hkey hbeforeColon hafterColon opening slots
        hpasses)
  | cons before more ih =>
      obtain ⟨⟨hwell, hbeforeComma, hafterComma⟩, hmore⟩ := List.forall_mem_cons.mp hcomplete
      rw [List.flatMap_cons, List.append_assoc] at hpasses
      obtain ⟨item, hbefore, hitem⟩ := Cursor.passes_append_iff.mp hpasses
      obtain ⟨tail, hhead⟩ := exists_mark_of_complete hitem
      obtain ⟨behind, comma, rest, hmember, hdelimited, hskip, hnext, hle⟩ :=
        exists_comma_of_passes hbefore hbeforeComma hafterComma hhead
          (by simp [IsDelimiter, isBlank])
      rcases yields_or_refusedBefore_of_member depth opening hmember hwell hdelimited with
        ⟨first, slotsAfter, hyields⟩ | hrefused
      · exact .inr ⟨first, slotsAfter, behind, hyields,
          refusedBefore_moreMembers hskip hnext (ih slotsAfter hmore hitem)⟩
      · refine .inl (hrefused.mono ?_)
        calc behind.offset ≤ item.offset := hle
          _ ≤ mid.offset := hitem.offset_le
          _ ≤ offset + 1 := Nat.le_succ_of_le hmid.offset_le

theorem refusedBefore_of_object {rest blanks : Text} {complete : List MemberBefore}
    (hblanks : AllBlank blanks) (hcomplete : ∀ before ∈ complete, before.WellFormed)
    (hpasses : (Cursor.mk (opening + 1) rest).Passes
      (blanks ++ (complete.flatMap MemberBefore.text ++
        (StringPiece.tokenText key ++ beforeColon ++ ':' :: afterColon))) mid) :
    (members (value settings depth) opening settings ⟨opening + 1, rest⟩).RefusedBefore
      (offset + 1) := by
  obtain ⟨item, hopen, hitem⟩ := Cursor.passes_append_iff.mp hpasses
  obtain ⟨tail, hhead⟩ := exists_mark_of_complete hitem
  have hskip := hopen.skipBlanks_eq hblanks hhead (by simp [IsDelimiter, isBlank])
  have hstep := refusedBefore_of_complete_members hmid hinner hkey hbeforeColon hafterColon opening
    {} hcomplete hitem
  rcases item with ⟨here, _⟩
  obtain rfl := hhead
  exact refusedBefore_members hskip (by decide) hstep

end Inside

/-! ## Values -/

/-- A bracket behind as many frames as the limit allows is refused, or one before it
is. -/
theorem refusedBefore_of_opensBehind (hopens : start.OpensBehind depth offset)
    (hskip : cursor.skipBlanks = start) :
    (value settings depth cursor).RefusedBefore (offset + 1) := by
  -- The induction goes from the bracket outwards: a refusal inside a frame is one of the frame.
  induction hopens generalizing cursor with
  | @here offset bracket rest hbracket =>
      refine ⟨[], offset, fails_value_iff.mpr (.inr ⟨offset, bracket, rest, hskip, ?_⟩),
        Nat.lt_succ_self offset⟩
      rcases hbracket with rfl | rfl
      · exact .inr (.inl ⟨rfl, .inl ⟨rfl, rfl, rfl⟩⟩)
      · exact .inl ⟨rfl, .inl ⟨rfl, rfl, rfl⟩⟩
  | @inside start mid opened offset frame hwell hpasses hmid ih =>
      obtain ⟨c, tail, hhead, hc⟩ := hmid.exists_head
      have hinner : (value settings opened mid).RefusedBefore (offset + 1) :=
        ih ((Cursor.Passes.refl mid).skipBlanks_eq allBlank_nil hhead hc)
      rcases start with ⟨here, _⟩
      cases frame with
      | array blanks complete =>
          obtain ⟨hblanks, hcomplete⟩ := hwell
          obtain ⟨rest, rfl, hrest⟩ := (Cursor.passes_cons_iff rfl).mp hpasses
          obtain ⟨found, refused, hfails, hlt⟩ :=
            refusedBefore_of_array hmid hinner hblanks hcomplete hrest
          exact ⟨found, refused, fails_value_iff.mpr (.inr ⟨here, '[', rest, hskip,
            .inr (.inl ⟨rfl, .inr ⟨opened, rfl, hfails⟩⟩)⟩), hlt⟩
      | object blanks complete key beforeColon afterColon =>
          obtain ⟨hblanks, hcomplete, hkey, hbeforeColon, hafterColon⟩ := hwell
          rw [Frame.text, List.append_assoc, List.append_assoc, List.append_assoc,
            ← List.append_assoc (StringPiece.tokenText key)] at hpasses
          obtain ⟨rest, rfl, hrest⟩ := (Cursor.passes_cons_iff rfl).mp hpasses
          obtain ⟨found, refused, hfails, hlt⟩ := refusedBefore_of_object hmid hinner hkey
            hbeforeColon hafterColon hblanks hcomplete hrest
          exact ⟨found, refused, fails_value_iff.mpr (.inr ⟨here, '\x7b', rest, hskip,
            .inl ⟨rfl, .inr ⟨opened, rfl, hfails⟩⟩⟩), hlt⟩

/-- A value is refused for its nesting at the first bracket behind as many frames as the
limit allows. -/
theorem result_value_eq_nestingTooDeep_iff :
    (value settings depth cursor).result = .error ⟨.nestingTooDeep, offset⟩ ↔
      cursor.skipBlanks.OpensBehind depth offset ∧
        ∀ other, cursor.skipBlanks.OpensBehind depth other → offset ≤ other := by
  have hrefused : ∀ {offset}, (value settings depth cursor).result =
      .error ⟨.nestingTooDeep, offset⟩ → cursor.skipBlanks.OpensBehind depth offset :=
    fun hresult => opensBehind_of_value (ext_iff.mpr ⟨rfl, hresult⟩)
  have hfirst : ∀ other, cursor.skipBlanks.OpensBehind depth other →
      ∃ offset ≤ other, (value settings depth cursor).result =
        .error ⟨.nestingTooDeep, offset⟩ := by
    intro other hopens
    have hrefuses : (value settings depth cursor).RefusedBefore (other + 1) :=
      refusedBefore_of_opensBehind hopens rfl
    obtain ⟨found, offset, hfails, hlt⟩ := hrefuses
    exact ⟨offset, Nat.le_of_lt_succ hlt, congrArg Scan.result hfails⟩
  constructor
  · intro hresult
    refine ⟨hrefused hresult, fun other hother => ?_⟩
    obtain ⟨first, hle, hsame⟩ := hfirst other hother
    cases hresult.symm.trans hsame
    exact hle
  · rintro ⟨hopens, hleast⟩
    obtain ⟨first, hle, hresult⟩ := hfirst offset hopens
    rwa [Nat.le_antisymm (hleast first (hrefused hresult)) hle]

end Scan

namespace Scan

variable {settings : Settings} {text : Text} {start offset : Nat}

theorem result_valueAt_eq_error_iff {fault : Fault} :
    (valueAt settings text start).result = .error fault ↔ (text.tailAt start).fragment = 0 ∧
      (value settings settings.maxDepth ⟨start, (text.tailAt start).rest⟩).result =
        .error fault := by
  rw [valueAt]
  dsimp only
  by_cases hboundary : (text.tailAt start).fragment = 0
  · rw [if_pos hboundary, result_bind]
    simp only [hboundary, true_and]
    cases (value settings settings.maxDepth ⟨start, (text.tailAt start).rest⟩).result with
    | error => simp [Except.bind]
    | ok => simp [Except.bind]
  · simp [hboundary]

/-- A value at an offset is refused for its nesting at the first bracket that is met while
as many arrays and objects are open as the limit allows. -/
theorem result_valueAt_eq_nestingTooDeep_iff :
    (valueAt settings text start).result = .error ⟨.nestingTooDeep, offset⟩ ↔
      EntersAt text start settings.maxDepth offset ∧
        ∀ other, EntersAt text start settings.maxDepth other → offset ≤ other := by
  simp only [result_valueAt_eq_error_iff, entersAt_iff, result_value_eq_nestingTooDeep_iff]
  grind

/-- What is not refused for its nesting is the same if more is allowed. -/
theorem valueAt_eq_of_below {more : Nat}
    (hshallow : ∀ offset,
      (valueAt (settings.below more) text start).result ≠ .error ⟨.nestingTooDeep, offset⟩) :
    valueAt settings text start = valueAt (settings.below more) text start := by
  simp only [ne_eq, result_valueAt_eq_error_iff, value_below] at hshallow
  rw [valueAt, valueAt]
  dsimp only
  by_cases hboundary : (text.tailAt start).fragment = 0
  · have hvalue := value_eq_of_le (Nat.sub_le settings.maxDepth more)
      fun offset hdeep => hshallow offset ⟨hboundary, hdeep⟩
    rw [if_pos hboundary, if_pos hboundary, value_below, hvalue]
    rfl
  · rw [if_neg hboundary, if_neg hboundary]

end Scan

/-! ## Requests -/

theorem Request.result_scan_value_eq_error_iff {settings : Settings} {text : Text} {start : Nat}
    {fault : Fault} :
    ((Request.value start).scan settings text).result = .error fault ↔
      (Scan.valueAt settings text start).result = .error fault := by
  rw [Request.scan, Scan.result_bind]
  cases (Scan.valueAt settings text start).result with
  | error => simp [Except.bind]
  | ok => simp [Except.bind]

/-- Under a wider limit a request for a value that is not refused for its nesting is served
as before. -/
theorem Request.scan_value_eq_of_le {settings : Settings} {text : Text} {start limit wider : Nat}
    (hle : limit ≤ wider) (hshallow : ∀ offset,
      ((Request.value start).scan { settings with maxDepth := limit } text).result ≠
        .error ⟨.nestingTooDeep, offset⟩) :
    (Request.value start).scan { settings with maxDepth := wider } text =
      (Request.value start).scan { settings with maxDepth := limit } text := by
  have hbelow : Settings.below { settings with maxDepth := wider } (wider - limit) =
      { settings with maxDepth := limit } := by
    rw [Settings.below, Nat.sub_sub_self hle]
  simp only [ne_eq, result_scan_value_eq_error_iff] at hshallow
  rw [← hbelow] at hshallow ⊢
  rw [scan, scan, Scan.valueAt_eq_of_below hshallow]

theorem Scanner.ask_new (settings : Settings) (text : Text) (request : Request) :
    ((new settings text).ask request).1 = (request.scan settings text).result ∧
      ((new settings text).ask request).2.found = (request.scan settings text).found := by
  rw [ask_eq _ rfl]
  exact ⟨rfl, List.nil_append _⟩

/-- A nesting limit adds only refusals for too much nesting.  Reading a value that is not
refused so has the same outcome and finds the same sites under every wider limit.  It is
refused exactly if a bracket is met while as many arrays and objects are open as the limit
allows, at the first such bracket; a limit as large as the text refuses nothing. -/
theorem Scanner.nestingLimit_exact (settings : Settings) (text : Text) (start limit : Nat) :
    let ask (limit : Nat) :=
      (Scanner.new { settings with maxDepth := limit } text).ask (.value start)
    (∀ wider, limit ≤ wider → (∀ offset, (ask limit).1 ≠ .error ⟨.nestingTooDeep, offset⟩) →
      (ask wider).1 = (ask limit).1 ∧ (ask wider).2.found = (ask limit).2.found) ∧
    (∀ offset, (ask limit).1 = .error ⟨.nestingTooDeep, offset⟩ ↔
      EntersAt text start limit offset ∧
        ∀ other, EntersAt text start limit other → offset ≤ other) ∧
    (text.size ≤ limit → ∀ offset, (ask limit).1 ≠ .error ⟨.nestingTooDeep, offset⟩) := by
  intro ask
  have hask (limit : Nat) :
      (ask limit).1 = ((Request.value start).scan { settings with maxDepth := limit } text).result ∧
      (ask limit).2.found =
        ((Request.value start).scan { settings with maxDepth := limit } text).found :=
    Scanner.ask_new _ text (.value start)
  have hexact (offset : Nat) : (ask limit).1 = .error ⟨.nestingTooDeep, offset⟩ ↔
      EntersAt text start limit offset ∧
        ∀ other, EntersAt text start limit other → offset ≤ other := by
    rw [(hask limit).1]
    exact Request.result_scan_value_eq_error_iff.trans Scan.result_valueAt_eq_nestingTooDeep_iff
  refine ⟨?_, hexact, ?_⟩
  · intro wider hle hshallow
    simp only [hask] at hshallow ⊢
    rw [Request.scan_value_eq_of_le hle hshallow]
    exact ⟨rfl, rfl⟩
  · intro hsize offset hdeep
    have hlt := ((hexact offset).mp hdeep).1.opened_lt_size
    omega

/-- An array that breaks off behind two siblings that are both too deep for a limit of two:
the first one is refused, and under a limit of three both are read. -/
theorem Scanner.nestingLimit_exact_of_siblings :
    ∃ (text : Text) (ask : Nat → Except Fault Answer × Scanner),
      text = "é [\x7b\"id\":\"x\",\"tags\":[]\x7d,[[]],".toList ∧
      (ask = fun limit => (Scanner.new { maxDepth := limit } text).ask (.value 2)) ∧
      (ask 2).1 = .error ⟨.nestingTooDeep, 21⟩ ∧ EntersAt text 2 2 21 ∧
      (∀ other, EntersAt text 2 2 other → 21 ≤ other) ∧
      (ask 3).1 = .error ⟨.unterminatedArray, 3⟩ ∧ (ask 3).2.found = [⟨['x'], 14, 21, 23⟩] ∧
      (ask 512).1 = .error ⟨.unterminatedArray, 3⟩ ∧ (ask 512).2.found = [⟨['x'], 14, 21, 23⟩] := by
  obtain ⟨text, htext⟩ : ∃ text : Text, text =
      "é [\x7b\"id\":\"x\",\"tags\":[]\x7d,[[]],".toList := ⟨_, rfl⟩
  have hdeep : ((Scanner.new { maxDepth := 2 } text).ask (.value 2)).1 =
      .error ⟨.nestingTooDeep, 21⟩ := by
    rw [(ask_new _ _ _).1, htext]
    decide +kernel
  have hread : ((Scanner.new { maxDepth := 3 } text).ask (.value 2)).1 =
      .error ⟨.unterminatedArray, 3⟩ := by
    rw [(ask_new _ _ _).1, htext]
    decide +kernel
  have hfound : ((Scanner.new { maxDepth := 3 } text).ask (.value 2)).2.found =
      [⟨['x'], 14, 21, 23⟩] := by
    rw [(ask_new _ _ _).2, htext]
    decide +kernel
  obtain ⟨-, hexact, -⟩ := nestingLimit_exact {} text 2 2
  obtain ⟨hwider, -, -⟩ := nestingLimit_exact {} text 2 3
  obtain ⟨henters, hfirst⟩ := (hexact 21).mp hdeep
  have hshallow (offset : Nat) : ((Scanner.new { maxDepth := 3 } text).ask (.value 2)).1 ≠
      .error ⟨.nestingTooDeep, offset⟩ := by
    intro hdeep
    cases hread.symm.trans hdeep
  obtain ⟨hsame, hsameFound⟩ := hwider 512 (by decide) hshallow
  exact ⟨text, _, htext, rfl, hdeep, henters, hfirst, hread, hfound, hsame.trans hread,
    hsameFound.trans hfound⟩

end ArrayPatch
