import ArrayPatch.Grammar.Frame
import ArrayPatch.Proofs.Grammar.Completion
import ArrayPatch.Proofs.Text.Bytes

/-!
# Brackets that are met behind frames

The bracket at which a value is refused for its nesting stands behind as many frames
as the limit allows.  Each reader adds the frame that it has read by then, so that an
induction on the limit lists the frames from the outermost one on.
-/

namespace ArrayPatch

open Grammar

namespace Cursor

variable {cursor mid : Cursor} {text : Text}

theorem Passes.offset_le (hpasses : cursor.Passes text mid) : cursor.offset ≤ mid.offset :=
  hpasses.offset_eq ▸ Nat.le_add_right _ _

/-- Blanks in front of what is no delimiter are moved over. -/
theorem Passes.skipBlanks_eq {c : Char} {rest : Text} (hpasses : cursor.Passes text mid)
    (hblanks : AllBlank text) (hhead : mid.rest = c :: rest) (hc : ¬ IsDelimiter c) :
    cursor.skipBlanks = mid := by
  refine skipBlanks_eq_iff.mpr ⟨text, hpasses, hblanks, ?_⟩
  rw [hhead]
  rintro d ⟨rfl⟩
  exact fun hblank => hc (.inl hblank)

end Cursor

/-- At a cursor start some frames, and behind them an opening bracket stands at an
offset. -/
inductive Cursor.OpensBehind : (cursor : Cursor) → (opened offset : Nat) → Prop
  | here {offset : Nat} {bracket : Char} {rest : Text}
      (hbracket : bracket = '[' ∨ bracket = '\x7b') : OpensBehind ⟨offset, bracket :: rest⟩ 0 offset
  | inside {cursor mid : Cursor} {opened offset : Nat} {frame : Frame} (hwell : frame.WellFormed)
      (hpasses : cursor.Passes frame.text mid) (hmid : OpensBehind mid opened offset) :
      OpensBehind cursor (opened + 1) offset

namespace Cursor.OpensBehind

variable {cursor start : Cursor} {opened offset : Nat}

theorem exists_bracket (hopens : cursor.OpensBehind opened offset) :
    ∃ bracket rest, cursor.rest = bracket :: rest ∧ (bracket = '[' ∨ bracket = '\x7b') := by
  cases hopens with
  | here hbracket => exact ⟨_, _, rfl, hbracket⟩
  | @inside cursor mid opened offset frame hwell hpasses hmid =>
      cases frame with
      | array => exact ⟨'[', _, hpasses.rest_eq, .inl rfl⟩
      | object => exact ⟨'\x7b', _, hpasses.rest_eq, .inr rfl⟩

theorem exists_head (hopens : cursor.OpensBehind opened offset) :
    ∃ c rest, cursor.rest = c :: rest ∧ ¬ IsDelimiter c := by
  obtain ⟨bracket, rest, hrest, rfl | rfl⟩ := hopens.exists_bracket
  · exact ⟨'[', rest, hrest, by simp [IsDelimiter, isBlank]⟩
  · exact ⟨'\x7b', rest, hrest, by simp [IsDelimiter, isBlank]⟩

/-- A bracket inside an array. -/
theorem array {mid : Cursor} {blanks : Text} {complete : List ElementBefore}
    (hblanks : AllBlank blanks) (hcomplete : ∀ before ∈ complete, before.WellFormed)
    (hpasses : cursor.Passes ('[' :: blanks ++ complete.flatMap ElementBefore.text) mid)
    (hmid : mid.OpensBehind opened offset) : cursor.OpensBehind (opened + 1) offset :=
  .inside (show (Frame.array blanks complete).WellFormed from ⟨hblanks, hcomplete⟩) hpasses hmid

/-- A bracket inside an object, in the value of a member. -/
theorem object {mid : Cursor} {blanks beforeColon afterColon : Text}
    {complete : List MemberBefore} {key : List StringPiece} (hblanks : AllBlank blanks)
    (hcomplete : ∀ before ∈ complete, before.WellFormed)
    (hkey : (StringPiece.meaning? key).isSome) (hbeforeColon : AllBlank beforeColon)
    (hafterColon : AllBlank afterColon)
    (hpasses : cursor.Passes ('\x7b' :: blanks ++ complete.flatMap MemberBefore.text ++
      StringPiece.tokenText key ++ beforeColon ++ ':' :: afterColon) mid)
    (hmid : mid.OpensBehind opened offset) : cursor.OpensBehind (opened + 1) offset :=
  .inside (show (Frame.object blanks complete key beforeColon afterColon).WellFormed from
    ⟨hblanks, hcomplete, hkey, hbeforeColon, hafterColon⟩) hpasses hmid

theorem offset_le (hopens : cursor.OpensBehind opened offset) : cursor.offset ≤ offset := by
  induction hopens with
  | here => exact Nat.le_refl _
  | inside hwell hpasses hmid ih =>
      rw [hpasses.offset_eq] at ih
      exact Nat.le_trans (Nat.le_add_right _ _) ih

theorem opened_lt_length (hopens : cursor.OpensBehind opened offset) :
    opened < cursor.rest.length := by
  induction hopens with
  | here => exact Nat.succ_pos _
  | @inside cursor mid opened offset frame hwell hpasses hmid ih =>
      have hframe : 0 < frame.text.length := by cases frame <;> simp [Frame.text]
      rw [hpasses.rest_eq, List.length_append]
      omega

end Cursor.OpensBehind

/-- The frames may be listed. -/
theorem Cursor.opensBehind_iff {cursor : Cursor} {opened offset : Nat} :
    cursor.OpensBehind opened offset ↔
      ∃ (frames : List Frame) (bracket : Char) (rest : Text),
        cursor.Passes (frames.flatMap Frame.text) ⟨offset, bracket :: rest⟩ ∧
          (bracket = '[' ∨ bracket = '\x7b') ∧ (∀ frame ∈ frames, frame.WellFormed) ∧
          frames.length = opened := by
  constructor
  · intro hopens
    induction hopens with
    | here hbracket =>
        exact ⟨[], _, _, Cursor.Passes.refl _, hbracket, List.forall_mem_nil _, rfl⟩
    | @inside cursor mid opened offset frame hwell hpasses hmid ih =>
        obtain ⟨frames, bracket, rest, hframes, hbracket, hwells, rfl⟩ := ih
        exact ⟨frame :: frames, bracket, rest, hpasses.trans hframes, hbracket,
          List.forall_mem_cons.mpr ⟨hwell, hwells⟩, rfl⟩
  · rintro ⟨frames, bracket, rest, hpasses, hbracket, hwells, rfl⟩
    induction frames generalizing cursor with
    | nil =>
        rw [← Cursor.passes_nil_iff.mp hpasses]
        exact .here hbracket
    | cons frame frames ih =>
        obtain ⟨hwell, hwells⟩ := List.forall_mem_cons.mp hwells
        obtain ⟨mid, hframe, hframes⟩ := Cursor.passes_append_iff.mp hpasses
        exact .inside hwell hframe (ih hframes hwells)

/-- Behind blanks stand the frames of a bracket that is met from the start on. -/
theorem exists_opensAt_iff {start opened offset : Nat} {text : Text} :
    (∃ inner, OpensAt text opened inner ∧ offset = start + inner) ↔
      (Cursor.mk start text).skipBlanks.OpensBehind opened offset := by
  constructor
  · rintro ⟨_, ⟨blanks, frames, bracket, rest, rfl, hbracket, hblanks, hwells, rfl, rfl⟩, rfl⟩
    have hopens : (Cursor.mk (start + blanks.size)
        (frames.flatMap Frame.text ++ bracket :: rest)).OpensBehind frames.length
          (start + Text.size (blanks ++ frames.flatMap Frame.text)) := by
      refine Cursor.opensBehind_iff.mpr ⟨frames, bracket, rest, ⟨rfl, ?_⟩, hbracket, hwells, rfl⟩
      rw [Text.size_append, Nat.add_assoc]
    obtain ⟨c, tail, hhead, hc⟩ := hopens.exists_head
    have hpasses : (Cursor.mk start (blanks ++ frames.flatMap Frame.text ++
        bracket :: rest)).Passes blanks
          ⟨start + blanks.size, frames.flatMap Frame.text ++ bracket :: rest⟩ :=
      ⟨List.append_assoc .., rfl⟩
    rwa [hpasses.skipBlanks_eq hblanks hhead hc]
  · intro hopens
    obtain ⟨frames, bracket, rest, hpasses, hbracket, hwells, hlength⟩ :=
      Cursor.opensBehind_iff.mp hopens
    obtain ⟨blanks, hblanks, hskip⟩ :=
      Cursor.exists_passes_skipBlanks (rfl : (Cursor.mk start text).skipBlanks = _)
    have hall := hskip.trans hpasses
    refine ⟨_, ⟨blanks, frames, bracket, rest, hall.rest_eq, hbracket, hblanks, hwells, ?_⟩,
      hall.offset_eq⟩
    exact ⟨hlength, rfl⟩

/-- A bracket is met where the characters of the text start again. -/
theorem Grammar.entersAt_iff {text : Text} {start opened offset : Nat} :
    EntersAt text start opened offset ↔ (text.tailAt start).fragment = 0 ∧
      (Cursor.mk start (text.tailAt start).rest).skipBlanks.OpensBehind opened offset := by
  constructor
  · rintro ⟨before, rest, inner, rfl, rfl, hopens, rfl⟩
    rw [Text.tailAt_size_append]
    exact ⟨rfl, exists_opensAt_iff.mp ⟨inner, hopens, rfl⟩⟩
  · rintro ⟨hfragment, hopens⟩
    rcases Nat.lt_or_ge text.size start with hpast | hstart
    · rw [Text.tailAt_of_size_lt hpast] at hopens
      obtain ⟨bracket, rest, hrest, -⟩ := hopens.exists_bracket
      cases hrest
    · obtain ⟨before, htext, hbefore⟩ := Text.exists_eq_append_tailAt hstart hfragment
      obtain ⟨inner, hinner, hoffset⟩ := exists_opensAt_iff.mpr hopens
      exact ⟨before, _, inner, htext, hbefore, hinner, hoffset⟩

/-- Fewer arrays and objects are open than the text has bytes. -/
theorem Grammar.EntersAt.opened_lt_size {text : Text} {start opened offset : Nat}
    (henters : EntersAt text start opened offset) : opened < text.size := by
  obtain ⟨before, rest, inner, rfl, rfl, hopens, -⟩ := henters
  have hbehind : (Cursor.mk before.size rest).skipBlanks.OpensBehind opened (before.size + inner) :=
    exists_opensAt_iff.mp ⟨inner, hopens, rfl⟩
  calc opened < (Cursor.mk before.size rest).skipBlanks.rest.length := hbehind.opened_lt_length
    _ ≤ rest.length := Cursor.length_skipBlanks_le _
    _ ≤ rest.size := Text.length_le_size rest
    _ ≤ Text.size (before ++ rest) := by rw [Text.size_append]; exact Nat.le_add_left _ _

namespace StringToken

variable {opening offset : Nat} {text : Text} {fault : Fault}

theorem flaw_ne_of_readEscape (hread : readEscape opening offset text = .error fault) :
    fault.flaw ≠ .nestingTooDeep := by
  rcases cases_of_readEscape_eq_error hread with
    ⟨-, rfl⟩ | ⟨c, rest, -, -, -, rfl⟩ | ⟨rest, -, hunicode⟩
  · exact Flaw.noConfusion
  · exact Flaw.noConfusion
  · rcases cases_of_readUnicode_eq_error hunicode with rfl | ⟨digits, code, more, -, -, -, rfl⟩
    · exact Flaw.noConfusion
    · exact Flaw.noConfusion

theorem flaw_ne_of_readBody (hread : readBody opening offset text = .error fault) :
    fault.flaw ≠ .nestingTooDeep := by
  induction hlength : text.length using Nat.strongRecOn generalizing text offset with
  | ind length ih =>
    rcases cases_of_readBody_eq_error hread with
      ⟨-, rfl⟩ | ⟨rest, -, hescape⟩ | ⟨piece, c, rest, rfl, -, hrest⟩
    · exact Flaw.noConfusion
    · exact flaw_ne_of_readEscape hescape
    · have hshorter : rest.length < length := hlength ▸ piece.length_lt_append rest
      exact ih _ hshorter hrest rfl

/-- A token is not refused for its nesting. -/
theorem read_ne_nestingTooDeep (cursor : Cursor) :
    read cursor ≠ .error ⟨.nestingTooDeep, offset⟩ := by
  intro hread
  rcases cases_of_read_eq_error hread with ⟨-, hfault⟩ | ⟨rest, -, hbody⟩
  · cases hfault
  · exact flaw_ne_of_readBody hbody rfl

end StringToken

namespace Scan

variable {settings : Settings} {depth opening offset : Nat} {cursor start mid next : Cursor}
variable {found : List Site}

/-! ## What stands before a refusal -/

/-- A value that is read where no blanks are is the text of a tree. -/
theorem exists_tree_of_ends (hskip : cursor.skipBlanks = cursor)
    (hends : (value settings depth cursor).Ends found next) :
    ∃ tree : Tree, cursor.Passes tree.text next ∧ tree.WellFormed := by
  obtain ⟨blanks, tree, hblanks, hpasses, hwell, -⟩ := passesValue_of_ends hends
  obtain ⟨start, hstart, htree⟩ := Cursor.passes_append_iff.mp hpasses
  obtain rfl := hskip.symm.trans (Cursor.skipBlanks_eq_of_tree hblanks hstart htree hwell)
  exact ⟨tree, htree, hwell⟩

section Refused

variable (hvalue : ∀ {cursor : Cursor} {found : List Site},
  (value settings depth cursor).Fails found ⟨.nestingTooDeep, offset⟩ →
    cursor.skipBlanks.OpensBehind depth offset)

include hvalue

/-- What is refused behind an element is inside the array of the element. -/
theorem opensBehind_of_moreElements {blanks : Text} {complete : List ElementBefore} {tree : Tree}
    (hblanks : AllBlank blanks) (hcomplete : ∀ before ∈ complete, before.WellFormed)
    (hwell : tree.WellFormed)
    (hbefore : start.Passes
      ('[' :: blanks ++ complete.flatMap ElementBefore.text ++ tree.text) cursor)
    (hfails : (moreElements (value settings depth) opening cursor).Fails found
      ⟨.nestingTooDeep, offset⟩) : start.OpensBehind (depth + 1) offset := by
  induction hlength : cursor.rest.length using Nat.strongRecOn
    generalizing cursor found complete tree with
  | ind length ih =>
    rcases fails_moreElements_iff.mp hfails with ⟨-, -, hfault⟩ | ⟨comma, c, rest, hskip,
      ⟨-, -, -, hfault⟩ | ⟨-, -, -, hfault⟩ | ⟨rfl, -, hstep⟩⟩
    · cases hfault
    · cases hfault
    · cases hfault
    · obtain ⟨beforeComma, hbeforeComma, hcomma⟩ := Cursor.exists_passes_char hskip rfl
      obtain ⟨afterComma, hafterComma, hitem⟩ := Cursor.exists_passes_skipBlanks
        (rfl : (Cursor.mk (comma + 1) rest).skipBlanks = _)
      have hframe : start.Passes ('[' :: blanks ++ (complete ++
          [ElementBefore.mk tree beforeComma afterComma]).flatMap ElementBefore.text)
          (Cursor.mk (comma + 1) rest).skipBlanks := by
        simpa [ElementBefore.text] using (hbefore.trans hcomma).trans hitem
      have hlast : ElementBefore.WellFormed ⟨tree, beforeComma, afterComma⟩ :=
        ⟨hwell, hbeforeComma, hafterComma⟩
      have hcompleteNow : ∀ before ∈ complete ++ [ElementBefore.mk tree beforeComma afterComma],
          before.WellFormed :=
        List.forall_mem_append.mpr ⟨hcomplete, List.forall_mem_singleton.mpr hlast⟩
      rcases hstep with hfirst | ⟨first, mid, hfirst, more, hmore, -⟩
      · have hopens := hvalue hfirst
        rw [Cursor.skipBlanks_skipBlanks] at hopens
        exact .array hblanks hcompleteNow hframe hopens
      · obtain ⟨element, helement, helementWell⟩ :=
          exists_tree_of_ends (Cursor.skipBlanks_skipBlanks _) hfirst
        have hmid : mid.rest.length < length :=
          hlength ▸ Cursor.length_lt_of_item hskip hfirst.length_lt
        exact ih _ hmid hcompleteNow helementWell (hframe.trans helement) hmore rfl

theorem opensBehind_of_elements {rest : Text}
    (hfails : (elements (value settings depth) opening ⟨opening + 1, rest⟩).Fails found
      ⟨.nestingTooDeep, offset⟩) :
    (Cursor.mk opening ('[' :: rest)).OpensBehind (depth + 1) offset := by
  rcases fails_elements_iff.mp hfails with ⟨-, -, hfault⟩ | ⟨here, c, behind, hskip, -, hstep⟩
  · cases hfault
  · obtain ⟨blanks, hblanks, hpasses⟩ := Cursor.exists_passes_skipBlanks hskip
    have hself := Cursor.skipBlanks_skipBlanks ⟨opening + 1, rest⟩
    rw [hskip] at hself
    have hopen : (Cursor.mk opening ('[' :: rest)).Passes ('[' :: blanks ++
        ([] : List ElementBefore).flatMap ElementBefore.text) ⟨here, c :: behind⟩ := by
      have hbracket : (Cursor.mk opening ('[' :: rest)).Passes ['['] ⟨opening + 1, rest⟩ :=
        ⟨rfl, rfl⟩
      simpa using hbracket.trans hpasses
    rcases hstep with hfirst | ⟨first, mid, hfirst, more, hmore, -⟩
    · have hopens := hvalue hfirst
      rw [hself] at hopens
      exact .array hblanks (List.forall_mem_nil _) hopen hopens
    · obtain ⟨element, helement, helementWell⟩ := exists_tree_of_ends hself hfirst
      exact opensBehind_of_moreElements hvalue hblanks (List.forall_mem_nil _) helementWell
        (hopen.trans helement) hmore

variable {slots slotsAfter : Slots}

theorem opensBehind_of_member {blanks : Text} {complete : List MemberBefore}
    (hblanks : AllBlank blanks) (hcomplete : ∀ before ∈ complete, before.WellFormed)
    (hbefore : start.Passes ('\x7b' :: blanks ++ complete.flatMap MemberBefore.text) cursor)
    (hfails : (member (value settings depth) opening settings slots cursor).Fails found
      ⟨.nestingTooDeep, offset⟩) : start.OpensBehind (depth + 1) offset := by
  rcases fails_member_iff.mp hfails with ⟨-, -, hfault⟩ | ⟨c, -, ⟨-, -, hfault⟩ | ⟨-, ⟨-, hread⟩ |
    ⟨key, behind, hreads, ⟨-, -, hfault⟩ | ⟨colon, d, rest, hskip, ⟨-, -, hfault⟩ |
      ⟨rfl, hmember⟩⟩⟩⟩⟩
  · cases hfault
  · cases hfault
  · exact absurd hread (StringToken.read_ne_nestingTooDeep cursor)
  · cases hfault
  · cases hfault
  · obtain ⟨pieces, hpieces, hmeaning⟩ := StringToken.reads_read_iff_passes.mp hreads
    obtain ⟨beforeColon, hbeforeColon, hcolon⟩ := Cursor.exists_passes_char hskip rfl
    obtain ⟨afterColon, hafterColon, hitem⟩ := Cursor.exists_passes_skipBlanks
      (rfl : (Cursor.mk (colon + 1) rest).skipBlanks = _)
    rcases fails_memberValue_iff.mp hmember with ⟨-, -, hfault⟩ | ⟨e, -, ⟨-, -, -, hread⟩ |
      ⟨-, hfirst⟩⟩
    · cases hfault
    · exact absurd hread (StringToken.read_ne_nestingTooDeep _)
    · have hopens := hvalue hfirst
      rw [Cursor.skipBlanks_skipBlanks] at hopens
      have hkey : (StringPiece.meaning? pieces).isSome :=
        Option.isSome_iff_exists.mpr ⟨key, hmeaning⟩
      apply Cursor.OpensBehind.object hblanks hcomplete hkey hbeforeColon hafterColon _ hopens
      simpa using ((hbefore.trans hpieces).trans hcolon).trans hitem

/-- What is refused behind a member is inside the object of the member. -/
theorem opensBehind_of_moreMembers {blanks : Text} {complete : List MemberBefore} {item : Member}
    (hblanks : AllBlank blanks) (hcomplete : ∀ before ∈ complete, before.WellFormed)
    (hwell : item.WellFormed)
    (hbefore : start.Passes
      ('\x7b' :: blanks ++ complete.flatMap MemberBefore.text ++ item.text) cursor)
    (hfails : (moreMembers (value settings depth) opening settings slots cursor).Fails found
      ⟨.nestingTooDeep, offset⟩) : start.OpensBehind (depth + 1) offset := by
  induction hlength : cursor.rest.length using Nat.strongRecOn
    generalizing cursor found slots complete item with
  | ind length ih =>
    rcases fails_moreMembers_iff.mp hfails with ⟨-, -, hfault⟩ | ⟨comma, c, rest, hskip,
      ⟨-, -, -, hfault⟩ | ⟨rfl, hstep⟩⟩
    · cases hfault
    · cases hfault
    · obtain ⟨beforeComma, hbeforeComma, hcomma⟩ := Cursor.exists_passes_char hskip rfl
      obtain ⟨afterComma, hafterComma, hitem⟩ := Cursor.exists_passes_skipBlanks
        (rfl : (Cursor.mk (comma + 1) rest).skipBlanks = _)
      have hframe : start.Passes ('\x7b' :: blanks ++ (complete ++
          [MemberBefore.mk item beforeComma afterComma]).flatMap MemberBefore.text)
          (Cursor.mk (comma + 1) rest).skipBlanks := by
        simpa [MemberBefore.text] using (hbefore.trans hcomma).trans hitem
      have hlast : MemberBefore.WellFormed ⟨item, beforeComma, afterComma⟩ :=
        ⟨hwell, hbeforeComma, hafterComma⟩
      have hcompleteNow : ∀ before ∈ complete ++ [MemberBefore.mk item beforeComma afterComma],
          before.WellFormed :=
        List.forall_mem_append.mpr ⟨hcomplete, List.forall_mem_singleton.mpr hlast⟩
      rcases hstep with hfirst | ⟨first, slotsAfter, mid, hfirst, more, hmore, -⟩
      · exact opensBehind_of_member hvalue hblanks hcompleteNow hframe hfirst
      · obtain ⟨next, hnext, hnextWell, -⟩ := exists_member_of_yields passesValue_of_ends hfirst
        have hmid : mid.rest.length < length :=
          hlength ▸ Cursor.length_lt_of_item hskip hfirst.length_lt
        exact ih _ hmid hcompleteNow hnextWell (hframe.trans hnext) hmore rfl

theorem opensBehind_of_members {rest : Text}
    (hfails : (members (value settings depth) opening settings ⟨opening + 1, rest⟩).Fails found
      ⟨.nestingTooDeep, offset⟩) :
    (Cursor.mk opening ('\x7b' :: rest)).OpensBehind (depth + 1) offset := by
  rcases fails_members_iff.mp hfails with ⟨-, -, hfault⟩ | ⟨here, c, behind, hskip, -, hstep⟩
  · cases hfault
  · obtain ⟨blanks, hblanks, hpasses⟩ := Cursor.exists_passes_skipBlanks hskip
    have hopen : (Cursor.mk opening ('\x7b' :: rest)).Passes ('\x7b' :: blanks ++
        ([] : List MemberBefore).flatMap MemberBefore.text) ⟨here, c :: behind⟩ := by
      have hbrace : (Cursor.mk opening ('\x7b' :: rest)).Passes ['\x7b'] ⟨opening + 1, rest⟩ :=
        ⟨rfl, rfl⟩
      simpa using hbrace.trans hpasses
    rcases hstep with hfirst | ⟨first, slots, mid, hfirst, more, hmore, -⟩
    · exact opensBehind_of_member hvalue hblanks (List.forall_mem_nil _) hopen hfirst
    · obtain ⟨item, hitem, hitemWell, -⟩ := exists_member_of_yields passesValue_of_ends hfirst
      exact opensBehind_of_moreMembers hvalue hblanks (List.forall_mem_nil _) hitemWell
        (hopen.trans hitem) hmore

end Refused

/-- A value is refused for its nesting at a bracket behind as many frames as the limit
allows. -/
theorem opensBehind_of_value
    (hfails : (value settings depth cursor).Fails found ⟨.nestingTooDeep, offset⟩) :
    cursor.skipBlanks.OpensBehind depth offset := by
  induction depth using Nat.strongRecOn generalizing cursor found with
  | ind depth ih =>
    rcases fails_value_iff.mp hfails with ⟨-, -, hfault⟩ | ⟨here, c, rest, hskip, hstep⟩
    · cases hfault
    · rw [hskip]
      rcases hstep with ⟨rfl, ⟨rfl, -, hfault⟩ | ⟨below, rfl, hobject⟩⟩ |
        ⟨rfl, ⟨rfl, -, hfault⟩ | ⟨below, rfl, harray⟩⟩ | ⟨-, -, hstring⟩ |
        ⟨-, -, -, -, -, hfault⟩
      · obtain rfl := (Fault.mk.inj hfault).2
        exact .here (.inr rfl)
      · exact opensBehind_of_members (ih below (Nat.lt_succ_self below)) hobject
      · obtain rfl := (Fault.mk.inj hfault).2
        exact .here (.inl rfl)
      · exact opensBehind_of_elements (ih below (Nat.lt_succ_self below)) harray
      · exact absurd hstring (StringToken.read_ne_nestingTooDeep _)
      · cases hfault

end Scan

end ArrayPatch
