import ArrayPatch.Proofs.Grammar.Objects
import ArrayPatch.Proofs.Grammar.Slots
import ArrayPatch.Proofs.Scan.Passing

/-!
# Every value is accepted

The scanner accepts the text of every well-formed syntax tree that is no deeper
than the nesting limit, stops right behind it, and finds the sites that it
reports for the objects of the tree.  If the two field names differ, then these
are the sites of the tree.

The induction is on the tree.  What it says about a member includes how the
member is recorded in the slots of its object.
-/

namespace ArrayPatch

open Grammar

namespace Grammar

/-- A value starts with a character that delimits nothing. -/
theorem Tree.exists_text_eq_cons {tree : Tree} (hwell : tree.WellFormed) :
    ∃ c rest, tree.text = c :: rest ∧ ¬ IsDelimiter c := by
  cases tree with
  | literal text =>
      obtain ⟨hrun, c, rest, rfl, -⟩ := hwell
      exact ⟨c, rest, rfl, hrun c List.mem_cons_self⟩
  | string => exact ⟨'"', _, rfl, by simp [IsDelimiter, isBlank]⟩
  | emptyArray | array => exact ⟨'[', _, rfl, by simp [IsDelimiter, isBlank]⟩
  | emptyObject | object => exact ⟨'\x7b', _, rfl, by simp [IsDelimiter, isBlank]⟩

theorem Member.exists_text_eq_cons (member : Member) :
    ∃ rest, member.text = '"' :: rest := by
  cases member
  exact ⟨_, rfl⟩

theorem Elements.delimited_text_append {more : Elements} (hwell : more.WellFormed) (text : Text) :
    Delimited (more.text ++ text) := by
  cases more with
  | done blanks =>
      rw [Elements.text, List.append_assoc]
      exact delimited_append hwell (delimited_cons (.inr (.inr (.inl rfl))))
  | more before after element rest =>
      rw [Elements.text, List.append_assoc, List.append_assoc, List.append_assoc]
      exact delimited_append hwell.1 (delimited_cons (.inr (.inl rfl)))

theorem Members.delimited_text_append {more : Members} (hwell : more.WellFormed) (text : Text) :
    Delimited (more.text ++ text) := by
  cases more with
  | done blanks =>
      rw [Members.text, List.append_assoc]
      exact delimited_append hwell (delimited_cons (.inr (.inr (.inr rfl))))
  | more before after member rest =>
      rw [Members.text, List.append_assoc, List.append_assoc, List.append_assoc]
      exact delimited_append hwell.1 (delimited_cons (.inr (.inl rfl)))

end Grammar

/-- The site that the scanner reports for an object. -/
def Grammar.Placed.reported? (settings : Settings) (placed : Placed) : Option Site :=
  ((placed.tree.entries placed.start).foldl (Scan.Slots.record settings) {}).site?

/-- If the fields differ, then the site of an object is reported. -/
theorem Grammar.Placed.reported?_eq_site? {settings : Settings}
    (hfields : settings.identifierField ≠ settings.targetField) :
    Placed.reported? settings = Placed.site? settings := by
  funext placed
  rw [Placed.reported?, Scan.Slots.record_eq_enter hfields, Scan.Slots.site?_foldl_enter,
    Placed.site?]

theorem Grammar.Tree.exists_string_of_head {tree : Tree} (hwell : tree.WellFormed)
    (hhead : tree.text.head? = some '"') : ∃ pieces, tree = .string pieces := by
  cases tree with
  | literal text =>
      obtain ⟨-, c, rest, rfl, -, -, hquote⟩ := hwell
      exact absurd (Option.some.inj hhead) hquote
  | string pieces => exact ⟨pieces, rfl⟩
  | emptyArray | array | emptyObject | object => simp [Tree.text] at hhead

theorem Grammar.Tree.isArray_iff_head {tree : Tree} (hwell : tree.WellFormed) :
    tree.isArray ↔ tree.text.head? = some '[' := by
  cases tree with
  | literal text =>
      obtain ⟨-, c, rest, rfl, -, hbracket, -⟩ := hwell
      simp [Tree.isArray, Tree.text, hbracket]
  | string => simp [Tree.isArray, Tree.text, StringPiece.tokenText]
  | emptyArray | array | emptyObject | object => simp [Tree.isArray, Tree.text]

theorem Grammar.Elements.exists_text_eq_append (more : Elements) :
    ∃ front, more.text = front ++ [']'] := by
  cases more with
  | done blanks => exact ⟨blanks, rfl⟩
  | more before after element rest =>
      obtain ⟨front, hfront⟩ := rest.exists_text_eq_append
      refine ⟨before ++ ',' :: after ++ element.text ++ front, ?_⟩
      rw [Elements.text, hfront, List.append_assoc _ front]

/-- An array starts and ends with its brackets. -/
theorem Grammar.Tree.exists_brackets_of_isArray {tree : Tree} (harray : tree.isArray) :
    (∃ rest, tree.text = '[' :: rest) ∧ ∃ front, tree.text = front ++ [']'] := by
  cases tree with
  | emptyArray blanks => exact ⟨⟨_, rfl⟩, '[' :: blanks, rfl⟩
  | array blanks first more =>
      obtain ⟨front, hfront⟩ := more.exists_text_eq_append
      refine ⟨⟨_, rfl⟩, '[' :: blanks ++ first.text ++ front, ?_⟩
      rw [Tree.text, hfront, List.append_assoc _ front]
  | literal | string | emptyObject | object => cases harray

theorem Grammar.Tree.canPrecede_of_isArray {tree : Tree} (harray : tree.isArray) (after : Text) :
    tree.CanPrecede after := by
  cases tree with
  | emptyArray | array => trivial
  | literal | string | emptyObject | object => cases harray

theorem Cursor.skipBlanks_eq_of_tree {cursor start next : Cursor} {blanks : Text} {tree : Tree}
    (hblanks : AllBlank blanks) (hpasses : cursor.Passes blanks start)
    (htree : start.Passes tree.text next) (hwell : tree.WellFormed) :
    cursor.skipBlanks = start := by
  obtain ⟨c, tail, htext, hc⟩ := Tree.exists_text_eq_cons hwell
  exact skipBlanks_eq_of_passes hblanks hpasses htree htext fun hblank => hc (.inl hblank)

theorem Cursor.skipBlanks_eq_self_of_tree {start next : Cursor} {tree : Tree}
    (htree : start.Passes tree.text next) (hwell : tree.WellFormed) : start.skipBlanks = start := by
  apply skipBlanks_eq_of_tree _ (passes_nil_iff.mpr rfl) htree hwell
  intro c hc
  cases hc

namespace Scan

variable {depth : Nat} {cursor start next : Cursor}

theorem ends_value_literal (settings : Settings) {text : Text} (hskip : cursor.skipBlanks = start)
    (hpasses : start.Passes text next) (hwell : (Tree.literal text).WellFormed)
    (hprecede : (Tree.literal text).CanPrecede next.rest) :
    (value settings depth cursor).Ends [] next := by
  obtain ⟨hrun, c, tail, rfl, hbrace, hbracket, hquote⟩ := hwell
  rcases start with ⟨offset, rest⟩
  obtain rfl : rest = c :: (tail ++ next.rest) := hpasses.rest_eq
  refine ends_value_iff.mpr ⟨offset, c, _, hskip, ?_⟩
  refine .inr (.inr (.inr ⟨hbrace, hbracket, hquote, rfl, ?_⟩))
  exact literal_eq_ok_iff_passes.mpr
    ⟨_, hpasses, List.cons_ne_nil c tail, hrun, Tree.delimited_of_canPrecede hprecede⟩

theorem ends_value_string (settings : Settings) {pieces : List StringPiece}
    (hskip : cursor.skipBlanks = start) (hpasses : start.Passes (StringPiece.tokenText pieces) next)
    (hwell : (StringPiece.meaning? pieces).isSome) :
    (value settings depth cursor).Ends [] next := by
  rcases start with ⟨offset, rest⟩
  obtain ⟨tail, htail⟩ : ∃ tail, rest = '"' :: tail := ⟨_, hpasses.rest_eq⟩
  subst htail
  obtain ⟨meaning, hmeaning⟩ := Option.isSome_iff_exists.mp hwell
  refine ends_value_iff.mpr ⟨offset, '"', tail, hskip, ?_⟩
  refine .inr (.inr (.inl ⟨rfl, rfl, meaning, ?_⟩))
  exact StringToken.reads_read_iff_passes.mpr ⟨pieces, hpasses, hmeaning⟩

/-- An array is accepted if the nesting limit allows one more level and what
follows the bracket is accepted on that level. -/
theorem ends_value_array {settings : Settings} {rest : Text} {offset : Nat} {found : List Site}
    (hskip : cursor.skipBlanks = ⟨offset, '[' :: rest⟩)
    (hends : (elements (value settings depth) offset ⟨offset + 1, rest⟩).Ends found next) :
    (value settings (depth + 1) cursor).Ends found next :=
  ends_value_iff.mpr ⟨offset, '[', rest, hskip, .inr (.inl ⟨rfl, depth, rfl, hends⟩)⟩

theorem ends_value_object {settings : Settings} {rest : Text} {offset : Nat} {found : List Site}
    (hskip : cursor.skipBlanks = ⟨offset, '\x7b' :: rest⟩)
    (hends : (members (value settings depth) offset settings ⟨offset + 1, rest⟩).Ends found next) :
    (value settings (depth + 1) cursor).Ends found next :=
  ends_value_iff.mpr ⟨offset, '\x7b', rest, hskip, .inl ⟨rfl, depth, rfl, hends⟩⟩

/-- The value of a member is accepted if it is accepted as a value, and the
member is recorded in the slots. -/
theorem yields_memberValue_of_ends {settings : Settings} (opening : Nat) (slots : Slots)
    (entry : Entry) {key : Text} (hkey : entry.key = some key)
    (hstart : entry.valueStart = start.offset) (hpasses : start.Passes entry.value.text next)
    (hwell : entry.value.WellFormed)
    (hends : (value settings depth start).Ends
      ((entry.value.objects start.offset).filterMap (Placed.reported? settings)) next) :
    (memberValue (value settings depth) opening settings slots key entry.keyStart start).Yields
      ((entry.value.objects start.offset).filterMap (Placed.reported? settings))
      (slots.record settings entry) next := by
  obtain ⟨c, tail, htext, -⟩ := Tree.exists_text_eq_cons hwell
  have hhead : start.rest.head? = some c := by rw [hpasses.rest_eq, htext]; rfl
  have hvalueHead : entry.value.text.head? = some c := by rw [htext]; rfl
  apply yields_memberValue_iff.mpr
  refine ⟨c, hhead, ?_⟩
  by_cases hidentifier : c = '"' ∧ key = settings.identifierField
  · obtain ⟨rfl, rfl⟩ := hidentifier
    obtain ⟨pieces, hpieces⟩ := Tree.exists_string_of_head hwell hvalueHead
    rw [hpieces] at hpasses hwell ⊢
    obtain ⟨identifier, hmeaning⟩ := Option.isSome_iff_exists.mp hwell
    have hreads := StringToken.reads_read_iff_passes.mpr ⟨pieces, hpasses, hmeaning⟩
    have hrecord : slots.identify identifier = slots.record settings entry :=
      Slots.identify_eq_record hkey (by rw [hpieces]; exact hmeaning)
    exact .inl ⟨rfl, rfl, rfl, identifier, hreads, hrecord.symm⟩
  · refine .inr ⟨hidentifier, hends, ?_⟩
    by_cases htarget : c = '[' ∧ key = settings.targetField
    · obtain ⟨rfl, rfl⟩ := htarget
      have hend : next.offset = entry.valueEnd := by
        rw [hpasses.offset_eq, Entry.valueEnd, hstart]
      rw [if_pos ⟨rfl, rfl⟩, hend, ← hstart]
      exact (Slots.aim_eq_record hkey ((Tree.isArray_iff_head hwell).mpr hvalueHead)).symm
    · rw [if_neg htarget]
      symm
      apply Slots.pass_eq_record hkey
      · intro hfield
        cases hvalue : entry.value with
        | string =>
            rw [hvalue] at hvalueHead
            exact absurd ⟨(Option.some.inj hvalueHead).symm, hfield⟩ hidentifier
        | literal | emptyArray | array | emptyObject | object => rfl
      · intro hfield
        rw [Bool.eq_false_iff]
        intro harray
        have hbracket := (Tree.isArray_iff_head hwell).mp harray
        exact htarget ⟨Option.some.inj (hvalueHead.symm.trans hbracket), hfield⟩

mutual

/-- The scanner accepts a value and finds what it reports for its objects. -/
theorem ends_value_of_tree (settings : Settings) {depth : Nat} {cursor start next : Cursor}
    (hskip : cursor.skipBlanks = start) : (tree : Tree) → start.Passes tree.text next →
    tree.WellFormed → tree.depth ≤ depth → tree.CanPrecede next.rest →
    (value settings depth cursor).Ends
      ((tree.objects start.offset).filterMap (Placed.reported? settings)) next
  | .literal text, hpasses, hwell, _, hprecede =>
      ends_value_literal settings hskip hpasses hwell hprecede
  | .string pieces, hpasses, hwell, _, _ => ends_value_string settings hskip hpasses hwell
  | .emptyArray inner, hpasses, hwell, hdepth, _ => by
      obtain ⟨below, rfl⟩ := Nat.exists_eq_add_of_le' hdepth
      obtain ⟨rest, hstart, hclose⟩ := (Cursor.passes_cons_iff rfl).mp hpasses
      obtain ⟨close, after, hbehind, rfl⟩ := hclose.split_close rfl (by decide) hwell
      rcases start with ⟨offset, _⟩
      obtain rfl := hstart
      refine ends_value_array hskip (ends_elements_iff.mpr ?_)
      exact ⟨close, ']', after, hbehind, .inl ⟨rfl, rfl, rfl⟩⟩
  | .array inner first more, hpasses, hwell, hdepth, _ => by
      obtain ⟨hinner, hfirstWell, hmoreWell⟩ := hwell
      obtain ⟨below, rfl⟩ := Nat.exists_eq_add_of_le' (Nat.le_of_add_left_le hdepth)
      obtain ⟨hfirstDepth, hmoreDepth⟩ := Nat.max_le.mp (Nat.le_of_add_le_add_right hdepth)
      obtain ⟨rest, here, mid, hstart, hblanks, hfirstText, hmoreText⟩ := hpasses.split_open rfl
      have hhere := Cursor.skipBlanks_eq_of_tree hinner hblanks hfirstText hfirstWell
      have hself := Cursor.skipBlanks_eq_self_of_tree hfirstText hfirstWell
      have hprecede : first.CanPrecede mid.rest := by
        rw [hmoreText.rest_eq]
        exact Tree.canPrecede_of_delimited (Elements.delimited_text_append hmoreWell _)
      have hfirst := ends_value_of_tree settings hself first hfirstText hfirstWell hfirstDepth
        hprecede
      have hmore := ends_moreElements_of_elements settings start.offset more hmoreText hmoreWell
        hmoreDepth
      obtain ⟨c, tail, htext, hc⟩ := Tree.exists_text_eq_cons hfirstWell
      rw [Tree.objects, List.filterMap_append, ← hblanks.offset_eq, ← hfirstText.offset_eq]
      rw [hstart] at hskip
      rcases here with ⟨hereOffset, _⟩
      obtain rfl := hfirstText.rest_eq.trans (congrArg (· ++ mid.rest) htext)
      apply ends_value_array hskip
      refine ends_elements_iff.mpr
        ⟨hereOffset, c, _, hhere, .inr ⟨?_, _, mid, _, hfirst, hmore, rfl⟩⟩
      rintro rfl
      exact hc (.inr (.inr (.inl rfl)))
  | .emptyObject inner, hpasses, hwell, hdepth, _ => by
      obtain ⟨below, rfl⟩ := Nat.exists_eq_add_of_le' hdepth
      obtain ⟨rest, hstart, hclose⟩ := (Cursor.passes_cons_iff rfl).mp hpasses
      obtain ⟨close, after, hbehind, rfl⟩ := hclose.split_close rfl (by decide) hwell
      rcases start with ⟨offset, _⟩
      obtain rfl := hstart
      refine ends_value_object hskip (ends_members_iff.mpr ?_)
      exact ⟨close, '\x7d', after, hbehind, .inl ⟨rfl, rfl, rfl⟩⟩
  | .object inner first more, hpasses, hwell, hdepth, _ => by
      obtain ⟨hinner, hfirstWell, hmoreWell⟩ := hwell
      obtain ⟨below, rfl⟩ := Nat.exists_eq_add_of_le' (Nat.le_of_add_left_le hdepth)
      obtain ⟨hfirstDepth, hmoreDepth⟩ := Nat.max_le.mp (Nat.le_of_add_le_add_right hdepth)
      obtain ⟨rest, here, mid, hstart, hblanks, hfirstText, hmoreText⟩ := hpasses.split_open rfl
      obtain ⟨tail, htext⟩ := first.exists_text_eq_cons
      have hhere := Cursor.skipBlanks_eq_of_passes hinner hblanks hfirstText htext (by decide)
      have hdelimited : Delimited mid.rest := by
        rw [hmoreText.rest_eq]
        exact Members.delimited_text_append hmoreWell _
      have hfirst := yields_member_of_member settings start.offset {} first hfirstText hfirstWell
        hfirstDepth hdelimited
      have hmore := ends_moreMembers_of_members settings start.offset
        (Slots.record settings {} (first.entry here.offset)) more hmoreText hmoreWell hmoreDepth
      have hreported : Placed.reported? settings ⟨start.offset, .object inner first more⟩ =
          ((more.entries mid.offset).foldl (Slots.record settings)
            (Slots.record settings {} (first.entry here.offset))).site? := by
        rw [Placed.reported?, Tree.entries, List.foldl_cons, ← hblanks.offset_eq,
          ← hfirstText.offset_eq]
      rw [Tree.objects, List.filterMap_append, List.filterMap_append, ← hblanks.offset_eq,
        ← hfirstText.offset_eq, filterMap_singleton_eq_toList, hreported, List.append_assoc]
      rw [hstart] at hskip
      rcases here with ⟨hereOffset, _⟩
      obtain rfl := hfirstText.rest_eq.trans (congrArg (· ++ mid.rest) htext)
      apply ends_value_object hskip
      exact ends_members_iff.mpr ⟨hereOffset, '"', _, hhere,
        .inr ⟨by decide, _, _, mid, _, hfirst, hmore, rfl⟩⟩

/-- The scanner accepts a member, finds what it reports for its objects and
records it in the slots. -/
theorem yields_member_of_member (settings : Settings) {depth : Nat} (opening : Nat)
    (slots : Slots) {cursor next : Cursor} : (item : Member) → cursor.Passes item.text next →
    item.WellFormed → item.depth ≤ depth → Delimited next.rest →
    (member (value settings depth) opening settings slots cursor).Yields
      ((item.objects cursor.offset).filterMap (Placed.reported? settings))
      (slots.record settings (item.entry cursor.offset)) next
  | .mk key before after value, hpasses, hwell, hdepth, hdelimited => by
      obtain ⟨hkey, hbefore, hafter, hvalueWell⟩ := hwell
      obtain ⟨meaning, hmeaning⟩ := Option.isSome_iff_exists.mp hkey
      obtain ⟨start, hfront, hvalue⟩ := Cursor.passes_append_iff.mp hpasses
      obtain ⟨mid, hkeyAndBlanks, hcolon⟩ := Cursor.passes_append_iff.mp hfront
      obtain ⟨behind, htoken, hblanks⟩ := Cursor.passes_append_iff.mp hkeyAndBlanks
      obtain ⟨rest, hrest, hstart⟩ := (Cursor.passes_cons_iff rfl).mp hcolon
      have hreads := StringToken.reads_read_iff_passes.mpr ⟨key, htoken, hmeaning⟩
      have hbehind : behind.skipBlanks = ⟨mid.offset, ':' :: rest⟩ := by
        rw [Cursor.skipBlanks_eq_of_passes hbefore hblanks hcolon rfl (by decide), ← hrest]
      have hskip := Cursor.skipBlanks_eq_of_tree hafter hstart hvalue hvalueWell
      have hself := Cursor.skipBlanks_eq_self_of_tree hvalue hvalueWell
      have hends := ends_value_of_tree settings hself value hvalue hvalueWell hdepth
        (Tree.canPrecede_of_delimited hdelimited)
      have hoffset : start.offset =
          cursor.offset + (StringPiece.tokenText key).size + before.size + 1 + after.size := by
        rw [hstart.offset_eq, hblanks.offset_eq, htoken.offset_eq]
      have hyields := yields_memberValue_of_ends opening slots
        ((Member.mk key before after value).entry cursor.offset) hmeaning hoffset.symm hvalue
        hvalueWell hends
      rw [Member.objects, ← hoffset]
      apply yields_member_iff.mpr
      refine ⟨meaning, behind, mid.offset, rest, hreads, hbehind, ?_⟩
      rw [hskip]
      exact hyields

/-- The scanner accepts the rest of an array and finds what it reports for its
objects. -/
theorem ends_moreElements_of_elements (settings : Settings) {depth : Nat} (opening : Nat)
    {cursor next : Cursor} : (more : Elements) →
    cursor.Passes more.text next → more.WellFormed → more.depth ≤ depth →
    (moreElements (value settings depth) opening cursor).Ends
      ((more.objects cursor.offset).filterMap (Placed.reported? settings)) next
  | .done blanks, hpasses, hwell, hdepth => by
      obtain ⟨offset, rest, hskip, rfl⟩ := hpasses.split_close rfl (by decide) hwell
      exact ends_moreElements_iff.mpr ⟨offset, ']', rest, hskip, .inl ⟨rfl, rfl, rfl⟩⟩
  | .more before after element rest, hpasses, hwell, hdepth => by
      obtain ⟨hbefore, hafter, helementWell, hrestWell⟩ := hwell
      obtain ⟨helementDepth, hrestDepth⟩ := Nat.max_le.mp hdepth
      obtain ⟨comma, behind, start, mid, hcomma, hblanks, helement, hrest, hoffset⟩ :=
        hpasses.split_comma hbefore
      have hskip := Cursor.skipBlanks_eq_of_tree hafter hblanks helement helementWell
      have hself := Cursor.skipBlanks_eq_self_of_tree helement helementWell
      obtain ⟨c, tail, htext, -⟩ := Tree.exists_text_eq_cons helementWell
      have hprecede : element.CanPrecede mid.rest := by
        rw [hrest.rest_eq]
        exact Tree.canPrecede_of_delimited (Elements.delimited_text_append hrestWell _)
      have hends := ends_value_of_tree settings hself element helement helementWell helementDepth
        hprecede
      have hendsRest := ends_moreElements_of_elements settings opening rest hrest hrestWell
        hrestDepth
      rw [Elements.objects, List.filterMap_append, ← hoffset, ← hblanks.offset_eq,
        ← helement.offset_eq]
      apply ends_moreElements_iff.mpr
      refine ⟨comma, ',', behind, hcomma, .inr ⟨rfl, ?_, ?_⟩⟩
      · rw [hskip, helement.rest_eq, htext]
        exact List.cons_ne_nil c _
      · rw [hskip]
        exact ⟨_, mid, _, hends, hendsRest, rfl⟩

/-- The scanner accepts the rest of an object, finds what it reports for its
objects, and reports what the slots give. -/
theorem ends_moreMembers_of_members (settings : Settings) {depth : Nat} (opening : Nat)
    (slots : Slots) {cursor next : Cursor} : (more : Members) →
    cursor.Passes more.text next → more.WellFormed → more.depth ≤ depth →
    (moreMembers (value settings depth) opening settings slots cursor).Ends
      ((more.objects cursor.offset).filterMap (Placed.reported? settings) ++
        ((more.entries cursor.offset).foldl (Slots.record settings) slots).site?.toList) next
  | .done blanks, hpasses, hwell, hdepth => by
      obtain ⟨offset, rest, hskip, rfl⟩ := hpasses.split_close rfl (by decide) hwell
      exact ends_moreMembers_iff.mpr ⟨offset, '\x7d', rest, hskip, .inl ⟨rfl, rfl, rfl⟩⟩
  | .more before after item rest, hpasses, hwell, hdepth => by
      obtain ⟨hbefore, hafter, hitemWell, hrestWell⟩ := hwell
      obtain ⟨hitemDepth, hrestDepth⟩ := Nat.max_le.mp hdepth
      obtain ⟨comma, behind, start, mid, hcomma, hblanks, hitem, hrest, hoffset⟩ :=
        hpasses.split_comma hbefore
      obtain ⟨tail, htext⟩ := item.exists_text_eq_cons
      have hskip := Cursor.skipBlanks_eq_of_passes hafter hblanks hitem htext (by decide)
      have hdelimited : Delimited mid.rest := by
        rw [hrest.rest_eq]
        exact Members.delimited_text_append hrestWell _
      have hyields := yields_member_of_member settings opening slots item hitem hitemWell hitemDepth
        hdelimited
      have hendsRest := ends_moreMembers_of_members settings opening
        (slots.record settings (item.entry start.offset)) rest hrest hrestWell hrestDepth
      rw [Members.objects, Members.entries, List.filterMap_append, List.foldl_cons, ← hoffset,
        ← hblanks.offset_eq, ← hitem.offset_eq, List.append_assoc]
      apply ends_moreMembers_iff.mpr
      refine ⟨comma, ',', behind, hcomma, .inr ⟨rfl, ?_⟩⟩
      rw [hskip]
      exact ⟨_, _, mid, _, hyields, hendsRest, rfl⟩

end

/-- The scanner accepts a value, and if the fields differ it finds its sites. -/
theorem exists_ends_value (settings : Settings) (hskip : cursor.skipBlanks = start) (tree : Tree)
    (hpasses : start.Passes tree.text next) (hwell : tree.WellFormed) (hdepth : tree.depth ≤ depth)
    (hprecede : tree.CanPrecede next.rest) :
    ∃ found, (value settings depth cursor).Ends found next ∧
      (settings.identifierField ≠ settings.targetField →
        found = tree.sites settings start.offset) := by
  refine ⟨_, ends_value_of_tree settings hskip tree hpasses hwell hdepth hprecede, ?_⟩
  intro hfields
  rw [Placed.reported?_eq_site? hfields, Tree.sites_eq_filterMap_objects]

end Scan

end ArrayPatch
