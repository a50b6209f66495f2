import ArrayPatch.Proofs.Scan.Requests
import ArrayPatch.Proofs.Scan.Tracks

/-!
# Every turn gets further

The marks of a run tell what its loops and its nesting do.  No turn starts where an
earlier one has started: each starts at a greater offset than all those before it,
whichever loops they belong to.  So a run has no more turns than the text has bytes
behind its start, and one more.  Never are more arrays and objects open than the
limit allows.  A run that succeeds ends at a boundary behind its start.

All of this is proved together, by one induction over the readers.  What is carried
through it is that a reader leaves off at a cursor that it has reached by passing
over a part of the text: the next turn starts there or later.
-/

namespace ArrayPatch

namespace Marked

open Reader

variable (settings : Settings)

mutual

theorem tracks_value (cursor : Cursor) :
    Tracks settings.maxDepth (cursor.offset + 1) cursor Subtype.val (value settings cursor) := by
  rw [value]
  split
  · exact tracks_fail _ _
  · rename_i offset c rest hskip
    have hrest := Cursor.length_lt_of_skipBlanks_eq hskip
    have htoken := Cursor.reaches_of_skipBlanks_eq hskip
    have hlow := Nat.succ_le_succ htoken.offset_le
    dsimp only
    by_cases hobject : c = '\x7b'
    · rw [if_pos hobject]
      refine Tracks.behind ?_ (Cursor.reaches_behind_mark hskip hobject rfl) hlow
      exact (tracks_object offset ⟨offset + 1, rest⟩).bind fun next _ => tracks_pure rfl
    · rw [if_neg hobject]
      by_cases harray : c = '['
      · rw [if_pos harray]
        refine Tracks.behind ?_ (Cursor.reaches_behind_mark hskip harray rfl) hlow
        exact (tracks_array offset ⟨offset + 1, rest⟩).bind fun next _ => tracks_pure rfl
      · rw [if_neg harray]
        refine Tracks.behind ?_ htoken hlow
        exact (tracks_token (fun _ => Cursor.reaches_token) Subtype.property).bind
          fun next _ => tracks_pure rfl
termination_by 6 * cursor.rest.length
decreasing_by all_goals omega

theorem tracks_array (opening : Nat) (cursor : Cursor) :
    Tracks settings.maxDepth cursor.offset cursor Subtype.val
      (array settings opening cursor) := by
  rw [array]
  exact (tracks_elements opening cursor).nested opening
termination_by 6 * cursor.rest.length + 2

theorem tracks_elements (opening : Nat) (cursor : Cursor) :
    Tracks settings.maxDepth cursor.offset cursor Subtype.val
      (elements settings opening cursor) := by
  rw [elements]
  split
  · rename_i hskip
    exact (tracks_fail _ _).turn_after (Cursor.reaches_of_skipBlanks_eq hskip)
  · rename_i offset c rest hskip
    have hrest := Cursor.length_lt_of_skipBlanks_eq hskip
    dsimp only
    by_cases hclose : c = ']'
    · rw [if_pos hclose]
      exact Tracks.after (tracks_pure rfl) (Cursor.reaches_behind_mark hskip hclose rfl)
    · rw [if_neg hclose]
      refine Tracks.turn_after ?_ (Cursor.reaches_of_skipBlanks_eq hskip)
      refine (tracks_value ⟨offset, c :: rest⟩).bind fun next _ => ?_
      have := next.2
      exact (tracks_moreElements opening next.1).bind fun last _ => tracks_pure rfl
termination_by 6 * cursor.rest.length + 1
decreasing_by all_goals (simp only [List.length_cons] at *; omega)

theorem tracks_moreElements (opening : Nat) (cursor : Cursor) :
    Tracks settings.maxDepth cursor.offset cursor Subtype.val
      (moreElements settings opening cursor) := by
  rw [moreElements]
  split
  · exact tracks_fail _ _
  · rename_i offset c rest hskip
    have hrest := Cursor.length_lt_of_skipBlanks_eq hskip
    have hlength := Cursor.length_skipBlanks_le ⟨offset + 1, rest⟩
    dsimp only
    by_cases hcomma : c = ','
    · rw [if_pos hcomma]
      have hitem := (Cursor.reaches_behind_mark hskip hcomma rfl).trans
        (Cursor.reaches_skipBlanks _)
      refine Tracks.turn_after ?_ hitem
      by_cases hend : (Cursor.skipBlanks ⟨offset + 1, rest⟩).rest = []
      · rw [if_pos hend]
        exact tracks_fail _ _
      · rw [if_neg hend]
        refine (tracks_value (Cursor.skipBlanks ⟨offset + 1, rest⟩)).bind fun next _ => ?_
        have := next.2
        exact (tracks_moreElements opening next.1).bind fun last _ => tracks_pure rfl
    · rw [if_neg hcomma]
      by_cases hclose : c = ']'
      · rw [if_pos hclose]
        exact Tracks.after (tracks_pure rfl) (Cursor.reaches_behind_mark hskip hclose rfl)
      · rw [if_neg hclose]
        exact tracks_fail _ _
termination_by 6 * cursor.rest.length
decreasing_by all_goals (dsimp only at *; omega)

theorem tracks_object (opening : Nat) (cursor : Cursor) :
    Tracks settings.maxDepth cursor.offset cursor Subtype.val
      (object settings opening cursor) := by
  rw [object]
  exact (tracks_members opening cursor).nested opening
termination_by 6 * cursor.rest.length + 5

theorem tracks_members (opening : Nat) (cursor : Cursor) :
    Tracks settings.maxDepth cursor.offset cursor Subtype.val
      (members settings opening cursor) := by
  rw [members]
  split
  · rename_i hskip
    exact (tracks_fail _ _).turn_after (Cursor.reaches_of_skipBlanks_eq hskip)
  · rename_i offset c rest hskip
    have hrest := Cursor.length_lt_of_skipBlanks_eq hskip
    dsimp only
    by_cases hclose : c = '\x7d'
    · rw [if_pos hclose]
      exact Tracks.after (tracks_pure rfl) (Cursor.reaches_behind_mark hskip hclose rfl)
    · rw [if_neg hclose]
      refine Tracks.turn_after ?_ (Cursor.reaches_of_skipBlanks_eq hskip)
      refine (tracks_member opening {} ⟨offset, c :: rest⟩).bind fun yielded _ => ?_
      obtain ⟨slots, next⟩ := yielded
      have := next.2
      exact (tracks_moreMembers opening slots next.1).bind fun last _ => tracks_pure rfl
termination_by 6 * cursor.rest.length + 4
decreasing_by all_goals (simp only [List.length_cons] at *; omega)

theorem tracks_member (opening : Nat) (slots : Scan.Slots) (cursor : Cursor) :
    Tracks settings.maxDepth (cursor.offset + 1) cursor (fun yielded => yielded.2.1)
      (member settings opening slots cursor) := by
  rw [member]
  cases cursor.rest.head? with
  | none => exact tracks_fail _ _
  | some c =>
      by_cases hquote : c = '"'
      · simp only [if_pos hquote]
        refine tracks_read.bind fun yielded _ => ?_
        obtain ⟨key, behind⟩ := yielded
        have hkey := behind.2
        dsimp only
        split
        · exact tracks_fail _ _
        · rename_i offset c rest hskip
          have hrest := Cursor.length_lt_of_skipBlanks_eq hskip
          have hlength := Cursor.length_skipBlanks_le ⟨offset + 1, rest⟩
          by_cases hcolon : c = ':'
          · rw [if_pos hcolon]
            have hvalue := (Cursor.reaches_behind_mark hskip hcolon rfl).trans
              (Cursor.reaches_skipBlanks _)
            refine Tracks.after ?_ hvalue
            exact (tracks_memberValue opening slots key cursor.offset
              (Cursor.skipBlanks ⟨offset + 1, rest⟩)).bind fun yielded _ => tracks_pure rfl
          · rw [if_neg hcolon]
            exact tracks_fail _ _
      · simp only [if_neg hquote]
        exact tracks_fail _ _
termination_by 6 * cursor.rest.length + 3
decreasing_by all_goals (dsimp only at *; omega)

theorem tracks_memberValue (opening : Nat) (slots : Scan.Slots) (key : Text) (keyStart : Nat)
    (cursor : Cursor) :
    Tracks settings.maxDepth cursor.offset cursor (fun yielded => yielded.2.1)
      (memberValue settings opening slots key keyStart cursor) := by
  rcases cursor with ⟨offset, _ | ⟨c, rest⟩⟩
  · rw [memberValue]
    exact tracks_fail _ _
  · rw [memberValue]
    dsimp only
    by_cases hidentifier : c = '"' ∧ key = settings.identifierField
    · rw [if_pos hidentifier]
      refine Tracks.behind ?_ (.refl _) (Nat.le_succ offset)
      exact tracks_read.bind fun yielded _ => tracks_pure rfl
    · rw [if_neg hidentifier]
      by_cases htarget : c = '[' ∧ key = settings.targetField
      · rw [if_pos htarget]
        have hbracket : (Cursor.mk offset (c :: rest)).Reaches ⟨offset + 1, rest⟩ :=
          Cursor.reaches_cons htarget.1 rfl
        refine Tracks.after ?_ hbracket
        exact (tracks_array offset ⟨offset + 1, rest⟩).bind fun next _ => tracks_pure rfl
      · rw [if_neg htarget]
        refine Tracks.behind ?_ (.refl _) (Nat.le_succ offset)
        exact (tracks_value ⟨offset, c :: rest⟩).bind fun next _ => tracks_pure rfl
termination_by 6 * cursor.rest.length + 1
decreasing_by all_goals (simp only [List.length_cons]; omega)

theorem tracks_moreMembers (opening : Nat) (slots : Scan.Slots) (cursor : Cursor) :
    Tracks settings.maxDepth cursor.offset cursor Subtype.val
      (moreMembers settings opening slots cursor) := by
  rw [moreMembers]
  split
  · exact tracks_fail _ _
  · rename_i offset c rest hskip
    have hrest := Cursor.length_lt_of_skipBlanks_eq hskip
    have hlength := Cursor.length_skipBlanks_le ⟨offset + 1, rest⟩
    dsimp only
    by_cases hcomma : c = ','
    · rw [if_pos hcomma]
      have hitem := (Cursor.reaches_behind_mark hskip hcomma rfl).trans
        (Cursor.reaches_skipBlanks _)
      refine Tracks.turn_after ?_ hitem
      refine (tracks_member opening slots (Cursor.skipBlanks ⟨offset + 1, rest⟩)).bind
        fun yielded _ => ?_
      obtain ⟨slots, next⟩ := yielded
      have := next.2
      exact (tracks_moreMembers opening slots next.1).bind fun last _ => tracks_pure rfl
    · rw [if_neg hcomma]
      by_cases hclose : c = '\x7d'
      · rw [if_pos hclose]
        refine Tracks.after ?_ (Cursor.reaches_behind_mark hskip hclose rfl)
        exact (tracks_report _).bind fun _ _ => tracks_pure rfl
      · rw [if_neg hclose]
        exact tracks_fail _ _
termination_by 6 * cursor.rest.length
decreasing_by all_goals (dsimp only at *; omega)

end

theorem tracks_stringElement (values : Option (List Text)) (cursor : Cursor) :
    Tracks settings.maxDepth (cursor.offset + 1) cursor (fun yielded => yielded.2.1)
      (stringElement settings values cursor) := by
  rw [stringElement.eq_def]
  split
  · exact tracks_read.bind fun yielded _ => tracks_pure rfl
  · exact (tracks_value settings cursor).bind fun next _ => tracks_pure rfl

theorem tracks_moreStrings (opening : Nat) (values : Option (List Text)) (cursor : Cursor) :
    Tracks settings.maxDepth cursor.offset cursor (fun yielded => yielded.2.1)
      (moreStrings settings opening values cursor) := by
  rw [moreStrings]
  split
  · exact tracks_fail _ _
  · rename_i offset c rest hskip
    have hrest := Cursor.length_lt_of_skipBlanks_eq hskip
    have hlength := Cursor.length_skipBlanks_le ⟨offset + 1, rest⟩
    dsimp only
    by_cases hcomma : c = ','
    · rw [if_pos hcomma]
      have hitem := (Cursor.reaches_behind_mark hskip hcomma rfl).trans
        (Cursor.reaches_skipBlanks _)
      refine Tracks.turn_after ?_ hitem
      by_cases hend : (Cursor.skipBlanks ⟨offset + 1, rest⟩).rest = []
      · rw [if_pos hend]
        exact tracks_fail _ _
      · rw [if_neg hend]
        refine (tracks_stringElement settings values
          (Cursor.skipBlanks ⟨offset + 1, rest⟩)).bind fun yielded _ => ?_
        obtain ⟨values, next⟩ := yielded
        have := next.2
        exact (tracks_moreStrings opening values next.1).bind fun last _ => tracks_pure rfl
    · rw [if_neg hcomma]
      by_cases hclose : c = ']'
      · rw [if_pos hclose]
        exact Tracks.after (tracks_pure rfl) (Cursor.reaches_behind_mark hskip hclose rfl)
      · rw [if_neg hclose]
        exact tracks_fail _ _
termination_by cursor.rest.length
decreasing_by all_goals (dsimp only at *; omega)

theorem tracks_stringElements (opening : Nat) (cursor : Cursor) :
    Tracks settings.maxDepth cursor.offset cursor (fun yielded => yielded.2.1)
      (stringElements settings opening cursor) := by
  rw [stringElements]
  split
  · rename_i hskip
    exact (tracks_fail _ _).turn_after (Cursor.reaches_of_skipBlanks_eq hskip)
  · rename_i offset c rest hskip
    dsimp only
    by_cases hclose : c = ']'
    · rw [if_pos hclose]
      exact Tracks.after (tracks_pure rfl) (Cursor.reaches_behind_mark hskip hclose rfl)
    · rw [if_neg hclose]
      refine Tracks.turn_after ?_ (Cursor.reaches_of_skipBlanks_eq hskip)
      refine (tracks_stringElement settings (some []) ⟨offset, c :: rest⟩).bind
        fun yielded _ => ?_
      obtain ⟨values, next⟩ := yielded
      exact (tracks_moreStrings settings opening values next.1).bind
        fun last _ => tracks_pure rfl

theorem tracks_strings (cursor : Cursor) :
    Tracks settings.maxDepth (cursor.offset + 1) cursor (fun yielded => yielded.2.1)
      (strings settings cursor) := by
  rw [strings]
  split
  · rename_i offset rest hskip
    have hlow := Nat.succ_le_succ (Cursor.reaches_of_skipBlanks_eq hskip).offset_le
    refine Tracks.behind ?_ (Cursor.reaches_behind_mark hskip rfl rfl) hlow
    exact ((tracks_stringElements settings offset ⟨offset + 1, rest⟩).nested offset).bind
      fun yielded _ => tracks_pure rfl
  · have htoken := cursor.reaches_skipBlanks
    refine Tracks.behind ?_ htoken (Nat.succ_le_succ htoken.offset_le)
    exact (tracks_value settings _).bind fun next _ => tracks_pure rfl

/-! ## Requests -/

variable (text : Text) (start : Nat)

theorem tracks_valueAt :
    Tracks settings.maxDepth (start + 1) (text.boundaryFrom start) text.cursorAt
      (valueAt settings text start) := by
  rw [valueAt]
  dsimp only
  by_cases hboundary : (text.tailAt start).fragment = 0
  · have hfrom := Text.boundaryFrom_of_fragment_eq_zero hboundary
    rw [if_pos hboundary, hfrom]
    exact (tracks_value settings _).bind fun next hreaches =>
      tracks_pure (Text.cursorAt_of_reaches hfrom next hreaches)
  · rw [if_neg hboundary]
    exact Tracks.behind (tracks_pure (Text.cursorAt_of_isIn (Text.isIn_fragmentEnd hboundary)))
      (text.reaches_fragmentEnd start) (Text.lt_offset_fragmentEnd hboundary)

theorem tracks_arrayAt :
    Tracks settings.maxDepth (start + 1) (text.boundaryFrom (start + 1)) text.cursorAt
      (arrayAt settings text start) := by
  rw [arrayAt]
  refine Tracks.nested ?_ start
  dsimp only
  by_cases hboundary : (text.tailAt (start + 1)).fragment = 0
  · have hfrom := Text.boundaryFrom_of_fragment_eq_zero hboundary
    rw [if_pos hboundary, hfrom]
    exact (tracks_elements settings start _).bind fun next hreaches =>
      tracks_pure (Text.cursorAt_of_reaches hfrom next hreaches)
  · rw [if_neg hboundary]
    have hend := text.reaches_fragmentEnd (start + 1)
    refine Tracks.turn ?_ (Nat.le_add_right _ _)
    refine Tracks.behind ?_ hend (Text.lt_offset_fragmentEnd hboundary)
    exact (tracks_moreElements settings start _).bind fun next hreaches =>
      tracks_pure (Text.cursorAt_of_isIn (hreaches.isIn (Text.isIn_fragmentEnd hboundary)))

theorem tracks_objectAt :
    Tracks settings.maxDepth (start + 1) (text.boundaryFrom (start + 1)) text.cursorAt
      (objectAt settings text start) := by
  rw [objectAt]
  refine Tracks.nested ?_ start
  dsimp only
  by_cases hboundary : (text.tailAt (start + 1)).fragment = 0
  · have hfrom := Text.boundaryFrom_of_fragment_eq_zero hboundary
    rw [if_pos hboundary, hfrom]
    exact (tracks_members settings start _).bind fun next hreaches =>
      tracks_pure (Text.cursorAt_of_reaches hfrom next hreaches)
  · rw [if_neg hboundary]
    exact (tracks_fail _ _).turn (Nat.le_add_right _ _)

theorem tracks_stringsAt :
    Tracks settings.maxDepth (start + 1) (text.boundaryFrom start)
      (fun read => text.cursorAt read.2) (stringsAt settings text start) := by
  rw [stringsAt]
  dsimp only
  by_cases hboundary : (text.tailAt start).fragment = 0
  · have hfrom := Text.boundaryFrom_of_fragment_eq_zero hboundary
    rw [if_pos hboundary, hfrom]
    exact (tracks_strings settings _).bind fun yielded hreaches =>
      tracks_pure (Text.cursorAt_of_reaches hfrom yielded.2 hreaches)
  · rw [if_neg hboundary]
    exact Tracks.behind (tracks_pure (Text.cursorAt_of_isIn (Text.isIn_fragmentEnd hboundary)))
      (text.reaches_fragmentEnd start) (Text.lt_offset_fragmentEnd hboundary)

end Marked

/-- A request is served from its offset on or from the byte behind that. -/
theorem Request.tracks_marked (settings : Settings) (text : Text) (request : Request) :
    ∃ first, first ≤ request.start + 1 ∧
      Marked.Tracks settings.maxDepth (request.start + 1) (text.boundaryFrom first)
        (fun answer => text.cursorAt answer.offset) (request.marked settings text) := by
  cases request with
  | value start =>
      exact ⟨start, Nat.le_succ start, (Marked.tracks_valueAt settings text start).bind
        fun _ _ => Marked.tracks_pure rfl⟩
  | array start =>
      exact ⟨start + 1, Nat.le_refl _, (Marked.tracks_arrayAt settings text start).bind
        fun _ _ => Marked.tracks_pure rfl⟩
  | object start =>
      exact ⟨start + 1, Nat.le_refl _, (Marked.tracks_objectAt settings text start).bind
        fun _ _ => Marked.tracks_pure rfl⟩
  | strings start =>
      exact ⟨start, Nat.le_succ start, (Marked.tracks_stringsAt settings text start).bind
        fun _ _ => Marked.tracks_pure rfl⟩

/-- What has been read ends behind its start, at a boundary. -/
theorem Text.isBoundary_of_reaches {text : Text} {first low offset : Nat} (hlow : 0 < low)
    (hoffset : low ≤ (text.cursorAt offset).offset) (hfirst : first ≤ low)
    (hreaches : (text.boundaryFrom first).Reaches (text.cursorAt offset)) :
    low ≤ offset ∧ text.IsBoundary offset := by
  by_cases hsize : offset ≤ text.size
  · have hcursor : text.cursorAt offset = ⟨offset, (text.tailAt offset).rest⟩ := if_pos hsize
    rw [hcursor] at hoffset hreaches
    have hfirst' := Nat.le_trans hfirst (Nat.le_trans hoffset hsize)
    obtain ⟨before, htext, hbefore⟩ := hreaches.isIn (isIn_boundaryFrom hfirst')
    exact ⟨hoffset, before, _, htext, hbefore⟩
  · rw [cursorAt, if_neg hsize] at hoffset
    exact absurd hoffset (Nat.not_le_of_lt hlow)

namespace Scanner

/-- Serving a request leaves marks that tell of progress.  What is read ends at a
boundary behind the offset of the request.  The turns of the loops start behind that
offset as well, each at a greater offset than all those before it, so that there are at
most as many of them as bytes are left, and one more.  And wherever the run is stopped,
no more arrays and objects are open than the settings allow. -/
theorem ask_progresses (scanner : Scanner) (request : Request)
    (hdepth : scanner.depth ≤ scanner.settings.maxDepth) :
    ∃ marks, request.marked scanner.settings scanner.text scanner.toScanState =
        (marks, (scanner.ask request).1, (scanner.ask request).2.toScanState) ∧
      (∀ answer, (scanner.ask request).1 = .ok answer →
        request.start < answer.offset ∧ answer.offset ≤ scanner.text.size ∧
          scanner.text.IsBoundary answer.offset) ∧
      (Mark.turns marks).Pairwise (· < ·) ∧
      (∀ offset ∈ Mark.turns marks, request.start < offset) ∧
      (Mark.turns marks).length ≤ scanner.text.size - request.start + 1 ∧
      ∀ before after, marks = before ++ after →
        Mark.depthBehind scanner.depth before ≤ scanner.settings.maxDepth := by
  obtain ⟨first, hfirst, htracks⟩ := request.tracks_marked scanner.settings scanner.text
  obtain ⟨marks, hmarked⟩ := request.exists_marks scanner.settings scanner.text scanner.toScanState
  obtain ⟨hnests, hproceeds⟩ := htracks _ _ _ _ hmarked
  have hclimbs := hproceeds.climbs
  refine ⟨marks, hmarked, fun answer hanswer => ?_, hclimbs.pairwise,
    fun offset hoffset => (hclimbs.mem_range offset hoffset).1, ?_, hnests.depthBehind_le hdepth⟩
  · obtain ⟨hlow, hreaches⟩ := hproceeds.reaches answer hanswer
    obtain ⟨hlt, hboundary⟩ :=
      Text.isBoundary_of_reaches (Nat.succ_pos request.start) hlow hfirst hreaches
    exact ⟨hlt, hboundary.le_size, hboundary⟩
  · have hstop := scanner.text.stop_boundaryFrom first
    have hlength := hclimbs.length_le.trans (Nat.sub_le_sub_right hproceeds.reach_le _)
    omega

/-- An object in an array, with as many open as the settings allow.  The second turn of
the array is at the object, and the turn of the object is at its key. -/
theorem ask_progresses_of_object_in_array :
    ∃ (scanner : Scanner) (marks : List Mark), scanner.text = "[1,\x7b\"é\":2\x7d ]".toList ∧
      scanner.depth = 0 ∧ scanner.settings.maxDepth = 2 ∧
      ((Request.value 0).marked scanner.settings scanner.text scanner.toScanState).1 = marks ∧
      marks = [.opened, .turn 1, .turn 3, .opened, .turn 4, .closed, .closed] ∧
      (Mark.turns marks).Pairwise (· < ·) ∧
      (∀ before after, marks = before ++ after → Mark.depthBehind 0 before ≤ 2) ∧
      (scanner.ask (.value 0)).1 = .ok (.stop 13) ∧ 0 < 13 ∧ scanner.text.IsBoundary 13 := by
  obtain ⟨scanner, hscanner⟩ : ∃ scanner : Scanner, scanner =
      { settings := { maxDepth := 2 }, text := "[1,\x7b\"é\":2\x7d ]".toList } := ⟨_, rfl⟩
  have htext : scanner.text = "[1,\x7b\"é\":2\x7d ]".toList := by rw [hscanner]
  have hdepth : scanner.depth = 0 := by rw [hscanner]
  have hlimit : scanner.settings.maxDepth = 2 := by rw [hscanner]
  have hmarks : ((Request.value 0).marked scanner.settings scanner.text scanner.toScanState).1 =
      [.opened, .turn 1, .turn 3, .opened, .turn 4, .closed, .closed] := by
    rw [hscanner]
    decide +kernel
  have hanswer : (scanner.ask (.value 0)).1 = .ok (.stop 13) := by
    rw [hscanner]
    decide +kernel
  obtain ⟨marks, hmarked, hends, hpairwise, -, -, hwithin⟩ :=
    ask_progresses scanner (.value 0) (by rw [hdepth]; exact Nat.zero_le _)
  obtain ⟨hlt, -, hboundary⟩ := hends _ hanswer
  rw [hdepth, hlimit] at hwithin
  have hleft := congrArg Prod.fst hmarked
  exact ⟨scanner, marks, htext, hdepth, hlimit, hleft, hleft.symm.trans hmarks, hpairwise, hwithin,
    hanswer, hlt, hboundary⟩

end Scanner

end ArrayPatch
