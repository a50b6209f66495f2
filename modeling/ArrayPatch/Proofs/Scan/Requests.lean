import ArrayPatch.Proofs.Scan.Failures
import ArrayPatch.Proofs.Scan.Scanner

/-!
# Every request reads one value

An array is read for its strings as it is read otherwise.  An array or object
whose bracket is not looked at is read as a value that starts with the bracket.
And what an offset leaves of a character is read as a literal of as many bytes.
So every request finds what reading some value finds, and it fails where that
fails.
-/

namespace ArrayPatch

namespace Scan

instance : LawfulMonad Scan :=
  LawfulMonad.mk' Scan
    (fun scan => by rcases scan with ⟨found, _ | _⟩ <;> simp [Functor.map, Scan.bind])
    (fun a next => by simp [ext_iff, Except.bind])
    bind_assoc

@[simp]
theorem found_map {α β : Type} (f : α → β) (scan : Scan α) : (f <$> scan).found = scan.found := by
  rcases scan with ⟨found, fault | a⟩
  · rfl
  · exact List.append_nil found

@[simp]
theorem result_map {α β : Type} (f : α → β) (scan : Scan α) :
    (f <$> scan).result = scan.result.map f := by
  rcases scan with ⟨found, fault | a⟩ <;> rfl

theorem fails_map_iff {α β : Type} {f : α → β} {scan : Scan α} {found : List Site}
    {fault : Fault} : (f <$> scan).Fails found fault ↔ scan.Fails found fault := by
  rw [← bind_pure_comp, fails_bind_pure_iff]

/-- What is read as a value is an object, an array, a token or a literal behind
blanks. -/
theorem map_value (settings : Settings) (depth : Nat) (cursor : Cursor) :
    (·.1) <$> value settings depth cursor =
      match cursor.skipBlanks with
      | ⟨offset, []⟩ => fail .expectedValue offset
      | ⟨offset, c :: rest⟩ =>
          if c = '\x7b' then
            (·.1) <$> within (fun below =>
              members (value settings below) offset settings ⟨offset + 1, rest⟩) offset depth
          else if c = '[' then
            (·.1) <$> within (fun below =>
              elements (value settings below) offset ⟨offset + 1, rest⟩) offset depth
          else
            (·.1) <$> ofExcept (if c = '"' then StringToken.skip ⟨offset, c :: rest⟩
              else literal ⟨offset, c :: rest⟩) := by
  rw [value]
  split
  · rename_i hskip
    rw [hskip]
    rfl
  · rename_i offset c rest hskip
    conv_rhs => rw [hskip]
    dsimp only
    by_cases hobject : c = '\x7b'
    · rw [if_pos hobject, if_pos hobject]
      cases depth with
      | zero => rfl
      | succ below => simp [within]
    · rw [if_neg hobject, if_neg hobject]
      by_cases harray : c = '['
      · rw [if_pos harray, if_pos harray]
        cases depth with
        | zero => rfl
        | succ below => simp [within]
      · rw [if_neg harray, if_neg harray]
        simp

/-- What is read as an array closes or goes on with a first element. -/
theorem map_elements {element : (cursor : Cursor) → Scan (After cursor)} (opening : Nat)
    (cursor : Cursor) :
    (·.1) <$> elements element opening cursor =
      match cursor.skipBlanks with
      | ⟨_, []⟩ => fail .unterminatedArray opening
      | ⟨offset, c :: rest⟩ =>
          if c = ']' then
            pure ⟨offset + 1, rest⟩
          else
            ((·.1) <$> element ⟨offset, c :: rest⟩) >>= fun mid =>
              (·.1) <$> moreElements element opening mid := by
  rw [elements]
  split
  · rename_i hskip
    rw [hskip]
    rfl
  · rename_i offset c rest hskip
    conv_rhs => rw [hskip]
    dsimp only
    by_cases hclose : c = ']'
    · rw [if_pos hclose, if_pos hclose, map_pure]
    · rw [if_neg hclose, if_neg hclose]
      simp

/-! ## Arrays of strings -/

theorem value_mark (settings : Settings) (depth offset : Nat) (rest : Text) :
    value settings depth ⟨offset, '"' :: rest⟩ =
      (·.2) <$> ofExcept (StringToken.read ⟨offset, '"' :: rest⟩) := by
  have hskip := Cursor.skipBlanks_cons offset rest (show ¬ isBlank '"' by decide)
  rw [value]
  split
  · rename_i hend
    cases hskip.symm.trans hend
  · rename_i hstart
    cases hskip.symm.trans hstart
    dsimp only
    rw [if_neg (by decide), if_neg (by decide), if_pos rfl, StringToken.skip_eq_map_read]
    cases StringToken.read ⟨offset, '"' :: rest⟩ with
    | error fault => rfl
    | ok reading => rfl

section Nested

variable (settings : Settings) (depth opening : Nat)

theorem map_stringElement (values : Option (List Text)) (cursor : Cursor) :
    (·.2) <$> stringElement (value settings depth) values cursor = value settings depth cursor := by
  unfold stringElement
  split
  · rename_i hhead
    rcases cursor with ⟨offset, _ | ⟨c, rest⟩⟩
    · cases hhead
    · cases hhead
      rw [value_mark]
      simp
  · simp

theorem map_moreStrings (values : Option (List Text)) (cursor : Cursor) :
    (·.2) <$> moreStrings (value settings depth) opening values cursor =
      moreElements (value settings depth) opening cursor := by
  induction hlength : cursor.rest.length using Nat.strongRecOn generalizing cursor values with
  | ind length ih =>
    generalize hscan : moreElements (value settings depth) opening cursor = scan
    rw [moreElements] at hscan
    rw [moreStrings]
    split
    · rename_i hskip
      split at hscan
      · exact hscan
      · rename_i hskip'
        cases hskip.symm.trans hskip'
    · rename_i offset c rest hskip
      split at hscan
      · rename_i hskip'
        cases hskip.symm.trans hskip'
      · rename_i hskip'
        cases hskip.symm.trans hskip'
        rw [← hscan]
        dsimp only
        by_cases hcomma : c = ','
        · rw [if_pos hcomma, if_pos hcomma]
          by_cases hend : (Cursor.skipBlanks ⟨offset + 1, rest⟩).rest = []
          · rw [if_pos hend, if_pos hend]
            rfl
          · rw [if_neg hend, if_neg hend, map_bind, ← map_stringElement settings depth values,
              bind_map_left]
            refine bind_congr fun item => ?_
            have hshorter : item.2.1.rest.length < length := by
              have hlt := Cursor.length_lt_of_skipBlanks_eq hskip
              have hblanks := Cursor.length_skipBlanks_le ⟨offset + 1, rest⟩
              have hitem := item.2.2
              dsimp only at hblanks
              omega
            rw [← ih _ hshorter item.1 item.2.1 rfl, map_bind, bind_map_left]
            rfl
        · rw [if_neg hcomma, if_neg hcomma]
          by_cases hclose : c = ']'
          · rw [if_pos hclose, if_pos hclose]
            rfl
          · rw [if_neg hclose, if_neg hclose]
            rfl

theorem map_stringElements (cursor : Cursor) :
    (·.2) <$> stringElements (value settings depth) opening cursor =
      elements (value settings depth) opening cursor := by
  generalize hscan : elements (value settings depth) opening cursor = scan
  rw [elements] at hscan
  rw [stringElements]
  split
  · rename_i hskip
    split at hscan
    · exact hscan
    · rename_i hskip'
      cases hskip.symm.trans hskip'
  · rename_i offset c rest hskip
    split at hscan
    · rename_i hskip'
      cases hskip.symm.trans hskip'
    · rename_i hskip'
      cases hskip.symm.trans hskip'
      rw [← hscan]
      dsimp only
      by_cases hclose : c = ']'
      · rw [if_pos hclose, if_pos hclose]
        rfl
      · rw [if_neg hclose, if_neg hclose, map_bind, ← map_stringElement settings depth (some []),
          bind_map_left]
        refine bind_congr fun item => ?_
        rw [← map_moreStrings settings depth opening item.1, map_bind, bind_map_left]
        rfl

/-- A value is read for its strings as it is read otherwise. -/
theorem map_strings (cursor : Cursor) :
    (·.2.1) <$> strings settings depth cursor = (·.1) <$> value settings depth cursor := by
  rw [strings]
  split
  · rename_i offset rest hskip
    conv_rhs => rw [map_value, hskip]
    dsimp only
    rw [if_neg (by decide), if_pos rfl]
    cases depth with
    | zero => rfl
    | succ below =>
        dsimp only [within]
        rw [← map_stringElements]
        simp
  · rename_i hother
    rw [map_bind]
    simp only [map_pure, bind_pure_comp]
    rw [map_value, map_value, Cursor.skipBlanks_skipBlanks]

end Nested

end Scan

/-! ## Requests -/

/-- The text at an offset, where every byte that is left of a character counts
as a character of a literal. -/
def Text.Tail.text (tail : Text.Tail) : Text :=
  List.replicate tail.fragment '0' ++ tail.rest

/-- The offset of a request. -/
def Request.start : Request → Nat
  | value start | array start | object start | strings start => start

/-- The text that a request reads as a value. -/
def Request.source (text : Text) : Request → Text
  | value start | strings start => (text.tailAt start).text
  | array start => '[' :: (text.tailAt (start + 1)).text
  | object start => '\x7b' :: (text.tailAt (start + 1)).text

@[simp]
theorem Request.source_value (before rest : Text) :
    (value before.size).source (before ++ rest) = rest := by
  rw [source, Text.tailAt_size_append]
  rfl

@[simp]
theorem Request.source_array (before rest : Text) :
    (array before.size).source (before ++ '[' :: rest) = '[' :: rest := by
  have htail := Text.tailAt_size_append (before ++ ['[']) rest
  rw [Text.size_append, List.append_assoc] at htail
  exact congrArg (fun tail : Text.Tail => '[' :: tail.text) htail

@[simp]
theorem Request.source_object (before rest : Text) :
    (object before.size).source (before ++ '\x7b' :: rest) = '\x7b' :: rest := by
  have htail := Text.tailAt_size_append (before ++ ['\x7b']) rest
  rw [Text.size_append, List.append_assoc] at htail
  exact congrArg (fun tail : Text.Tail => '\x7b' :: tail.text) htail

/-- The end of what was read. -/
def Answer.offset : Answer → Nat
  | stop offset | strings _ offset => offset

namespace Scan

variable (settings : Settings) (text : Text) (start : Nat)

/-- As many characters of a literal as there are bytes left are moved over. -/
theorem skip_replicate (count offset : Nat) (rest : Text) :
    Cursor.skip isLiteral ⟨offset, List.replicate count '0' ++ rest⟩ =
      Cursor.skip isLiteral ⟨offset + count, rest⟩ := by
  induction count generalizing offset with
  | zero => rfl
  | succ count ih =>
      have hone := ih (offset + 1)
      simp only [Cursor.skip, Cursor.mk.injEq] at hone ⊢
      have hliteral : isLiteral '0' = true := by decide
      have hwidth : '0'.utf8Size = 1 := rfl
      rw [List.replicate_succ, List.cons_append, List.takeWhile_cons_of_pos hliteral,
        List.dropWhile_cons_of_pos hliteral, Text.size_cons, hwidth]
      exact ⟨by omega, hone.2⟩

/-- What an offset leaves of a character is the start of a literal. -/
theorem exists_text_eq_cons {tail : Text.Tail} (hfragment : tail.fragment ≠ 0) :
    ∃ rest, tail.text = '0' :: rest ∧
      Cursor.skip isLiteral ⟨start + 1, rest⟩ = fragmentEnd start tail := by
  obtain ⟨count, hcount⟩ := Nat.exists_eq_succ_of_ne_zero hfragment
  refine ⟨List.replicate count '0' ++ tail.rest, ?_, ?_⟩
  · rw [Text.Tail.text, hcount, List.replicate_succ, List.cons_append]
  · rw [skip_replicate, fragmentEnd, hcount, Nat.add_assoc, Nat.add_comm 1 count]

/-- From inside a character a literal is read. -/
theorem map_value_fragment (depth : Nat) {tail : Text.Tail} (hfragment : tail.fragment ≠ 0) :
    (·.1) <$> value settings depth ⟨start, tail.text⟩ = pure (fragmentEnd start tail) := by
  obtain ⟨rest, htext, hend⟩ := exists_text_eq_cons start hfragment
  rw [map_value, htext, Cursor.skipBlanks_cons start rest (by decide)]
  dsimp only
  rw [if_neg (by decide), if_neg (by decide), if_neg (by decide), ← hend]
  rfl

/-- An array whose first element is read from inside a character. -/
theorem map_elements_fragment (depth opening : Nat) {tail : Text.Tail}
    (hfragment : tail.fragment ≠ 0) :
    (·.1) <$> elements (value settings depth) opening ⟨start, tail.text⟩ =
      (·.1) <$> moreElements (value settings depth) opening (fragmentEnd start tail) := by
  have hvalue := map_value_fragment settings start depth hfragment
  obtain ⟨rest, htext, -⟩ := exists_text_eq_cons start hfragment
  rw [htext] at hvalue ⊢
  rw [map_elements, Cursor.skipBlanks_cons start rest (by decide)]
  dsimp only
  rw [if_neg (by decide), hvalue, pure_bind]

/-- No key starts inside a character. -/
theorem members_fragment (depth opening : Nat) {tail : Text.Tail} (hfragment : tail.fragment ≠ 0) :
    members (value settings depth) opening settings ⟨start, tail.text⟩ =
      fail .expectedKey start := by
  obtain ⟨rest, htext, -⟩ := exists_text_eq_cons start hfragment
  rw [htext]
  apply fails_members_iff.mpr
  refine .inr ⟨start, '0', rest, Cursor.skipBlanks_cons start rest (by decide), by decide,
    .inl (fails_member_iff.mpr ?_)⟩
  exact .inr ⟨'0', rfl, .inl ⟨by decide, rfl, rfl⟩⟩

theorem valueAt_eq_map : valueAt settings text start =
    Cursor.offset <$> (·.1) <$> value settings settings.maxDepth
      ⟨start, (text.tailAt start).text⟩ := by
  rw [valueAt]
  dsimp only
  by_cases hboundary : (text.tailAt start).fragment = 0
  · rw [if_pos hboundary, Text.Tail.text, hboundary]
    simp
  · rw [if_neg hboundary, map_value_fragment settings start settings.maxDepth hboundary, map_pure]

theorem arrayAt_eq_map : arrayAt settings text start =
    Cursor.offset <$> (·.1) <$> value settings settings.maxDepth
      ⟨start, '[' :: (text.tailAt (start + 1)).text⟩ := by
  rw [arrayAt, map_value, Cursor.skipBlanks_cons start _ (by decide)]
  dsimp only
  rw [if_neg (by decide), if_pos rfl]
  cases settings.maxDepth with
  | zero => rfl
  | succ below =>
      dsimp only [within]
      by_cases hboundary : (text.tailAt (start + 1)).fragment = 0
      · rw [if_pos hboundary, Text.Tail.text, hboundary]
        simp
      · rw [if_neg hboundary, map_elements_fragment settings (start + 1) below start hboundary]
        simp

theorem objectAt_eq_map : objectAt settings text start =
    Cursor.offset <$> (·.1) <$> value settings settings.maxDepth
      ⟨start, '\x7b' :: (text.tailAt (start + 1)).text⟩ := by
  rw [objectAt, map_value, Cursor.skipBlanks_cons start _ (by decide)]
  dsimp only
  rw [if_pos rfl]
  cases settings.maxDepth with
  | zero => rfl
  | succ below =>
      dsimp only [within]
      by_cases hboundary : (text.tailAt (start + 1)).fragment = 0
      · rw [if_pos hboundary, Text.Tail.text, hboundary]
        simp
      · rw [if_neg hboundary, members_fragment settings (start + 1) below start hboundary]
        rfl

/-- Reading a value at an offset for its strings. -/
theorem map_stringsAt : (·.2) <$> stringsAt settings text start =
    Cursor.offset <$> (·.1) <$> value settings settings.maxDepth
      ⟨start, (text.tailAt start).text⟩ := by
  rw [stringsAt]
  dsimp only
  by_cases hboundary : (text.tailAt start).fragment = 0
  · rw [if_pos hboundary, Text.Tail.text, hboundary, List.replicate_zero, List.nil_append,
      ← map_strings]
    simp
  · rw [if_neg hboundary, map_value_fragment settings start settings.maxDepth hboundary, map_pure,
      map_pure]

end Scan

/-- A request finds and ends with what reading one value does. -/
theorem Request.map_scan (settings : Settings) (text : Text) (request : Request) :
    Answer.offset <$> request.scan settings text =
      Cursor.offset <$> (·.1) <$> Scan.value settings settings.maxDepth
        ⟨request.start, request.source text⟩ := by
  cases request with
  | value start => simp [scan, Scan.valueAt_eq_map, Answer.offset, Request.start, source]
  | array start => simp [scan, Scan.arrayAt_eq_map, Answer.offset, Request.start, source]
  | object start => simp [scan, Scan.objectAt_eq_map, Answer.offset, Request.start, source]
  | strings start =>
      rw [Request.start, source, ← Scan.map_stringsAt]
      simp [scan, Answer.offset]

end ArrayPatch
