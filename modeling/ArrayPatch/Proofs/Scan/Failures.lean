import ArrayPatch.Proofs.Scan.Steps

/-!
# Where one step of the scanner can fail

For every function of the scanner there is one equivalence that says when it
fails, with which fault, and what it has found by then: its own fault, at the
character that it does not expect, or the fault of a reader that it calls, after
the readers before this one have succeeded.  Together with the equivalences for
success these describe the scanner completely.
-/

namespace ArrayPatch

open Grammar

namespace StringToken

variable {opening offset : Nat} {text : Text} {fault : Fault}

/-- A broken escape by code unit is reported at its backslash, or at the second
backslash behind a high surrogate. -/
theorem cases_of_readUnicode_eq_error (hread : readUnicode offset text = .error fault) :
    fault = ⟨.invalidUnicodeEscape, offset⟩ ∨
      ∃ digits code rest, text = digits ++ '\\' :: 'u' :: rest ∧
        StringPiece.unitValue? digits = some code ∧ Text.isHighSurrogate code = true ∧
        fault = ⟨.invalidUnicodeEscape, offset + 6⟩ := by
  rw [readUnicode] at hread
  split at hread
  · cases hread
    exact .inl rfl
  · rename_i code rest hrest hcode
    obtain ⟨digits, rfl, hdigits⟩ := StringPiece.codeUnit_eq_some_iff.mp ⟨hrest, hcode⟩
    split at hread
    · rename_i hhigh
      split at hread
      · refine .inr ⟨digits, code, _, rfl, hdigits, hhigh, ?_⟩
        split at hread
        · exact (Except.error.inj hread).symm
        · split at hread
          · cases hread
          · exact (Except.error.inj hread).symm
      · exact .inl (Except.error.inj hread).symm
    · split at hread
      · exact .inl (Except.error.inj hread).symm
      · cases hread

/-- A broken escape is reported at its backslash, unless the text ends behind
the backslash or the escape is one by code unit. -/
theorem cases_of_readEscape_eq_error (hread : readEscape opening offset text = .error fault) :
    text = [] ∧ fault = ⟨.unterminatedString, opening⟩ ∨
      (∃ c rest, text = c :: rest ∧ c ≠ 'u' ∧ shortEscape c = none ∧
        fault = ⟨.unknownEscape c, offset⟩) ∨
        ∃ rest, text = 'u' :: rest ∧ readUnicode offset rest = .error fault := by
  rcases text with _ | ⟨c, rest⟩
  · exact .inl ⟨rfl, (Except.error.inj hread).symm⟩
  · rw [readEscape] at hread
    split at hread
    · rename_i hletter
      subst hletter
      refine .inr (.inr ⟨rest, rfl, ?_⟩)
      cases hunicode : readUnicode offset rest with
      | error other =>
          rw [hunicode] at hread
          cases hread
          rfl
      | ok reading =>
          rw [hunicode] at hread
          cases hread
    · rename_i hletter
      split at hread
      · cases hread
      · rename_i hnone
        exact .inr (.inl ⟨c, rest, rfl, hletter, hnone, (Except.error.inj hread).symm⟩)

/-- The body of a token fails at the end of the text, at an escape, or behind a
piece that is read. -/
theorem cases_of_readBody_eq_error (hread : readBody opening offset text = .error fault) :
    text = [] ∧ fault = ⟨.unterminatedString, opening⟩ ∨
      (∃ rest, text = '\\' :: rest ∧ readEscape opening offset rest = .error fault) ∨
        ∃ piece c rest, text = StringPiece.text piece ++ rest ∧ piece.value? = some c ∧
          readBody opening (offset + piece.text.size) rest = .error fault := by
  rw [readBody.eq_def] at hread
  split at hread
  · exact .inl ⟨rfl, (Except.error.inj hread).symm⟩
  · rename_i c rest
    split at hread
    · cases hread
    · rename_i hquote
      split at hread
      · rename_i hbackslash
        subst hbackslash
        cases hescape : readEscape opening offset rest with
        | error other =>
            refine .inr (.inl ⟨rest, rfl, ?_⟩)
            rw [hescape] at hread ⊢
            cases hread
            rfl
        | ok reading =>
            obtain ⟨decoded, mid, hmid⟩ := reading
            obtain ⟨piece, htext, hvalue, hoffset⟩ := reads_readEscape_iff.mp ⟨hmid, hescape⟩
            refine .inr (.inr ⟨piece, decoded, mid.rest, htext, hvalue, ?_⟩)
            rw [← hoffset]
            rw [hescape] at hread
            cases hbody : readBody opening mid.offset mid.rest with
            | error other => simpa [bind, Except.bind, hbody] using hread
            | ok body => simp [bind, Except.bind, hbody, pure, Except.pure] at hread
      · rename_i hbackslash
        refine .inr (.inr ⟨.plain c, c, rest, rfl, by simp [StringPiece.value?, *], ?_⟩)
        have hsize : Text.size (StringPiece.plain c).text = c.utf8Size := by
          simp [StringPiece.text]
        rw [hsize]
        cases hbody : readBody opening (offset + c.utf8Size) rest with
        | error other => simpa [bind, Except.bind, hbody] using hread
        | ok body => simp [bind, Except.bind, hbody, pure, Except.pure] at hread

/-- A token fails at its mark or in its body. -/
theorem cases_of_read_eq_error {cursor : Cursor} (hread : read cursor = .error fault) :
    (cursor.rest.head? ≠ some '"' ∧ fault = ⟨.expectedString, cursor.offset⟩) ∨
      ∃ rest, cursor.rest = '"' :: rest ∧
        readBody cursor.offset (cursor.offset + 1) rest = .error fault := by
  rcases cursor with ⟨offset, text⟩
  by_cases hquote : ∃ rest, text = '"' :: rest
  · obtain ⟨rest, rfl⟩ := hquote
    refine .inr ⟨rest, rfl, ?_⟩
    rw [read] at hread
    cases hbody : readBody offset (offset + 1) rest with
    | error other => simpa [bind, Except.bind, hbody] using hread
    | ok body => simp [bind, Except.bind, hbody, pure, Except.pure] at hread
  · rw [read.eq_2 offset text fun rest heq => hquote ⟨rest, heq⟩] at hread
    refine .inl ⟨?_, (Except.error.inj hread).symm⟩
    intro hhead
    obtain ⟨rest, hrest⟩ := List.head?_eq_some_iff.mp hhead
    exact hquote ⟨rest, hrest⟩

end StringToken

namespace Scan

variable {α β : Type} {fault : Fault}

/-- A scan ends with a fault and has found some sites before. -/
def Fails (scan : Scan α) (found : List Site) (fault : Fault) : Prop :=
  scan = ⟨found, .error fault⟩

variable {found : List Site}

/-! ## Faults of combined scans -/

@[simp]
theorem fails_fail_iff {flaw : Flaw} {offset : Nat} :
    (fail flaw offset : Scan α).Fails found fault ↔ found = [] ∧ fault = ⟨flaw, offset⟩ := by
  rw [Fails, fail, Scan.mk.injEq, Except.error.injEq, eq_comm, @eq_comm _ fault]

@[simp]
theorem not_fails_pure {a : α} : ¬ (pure a : Scan α).Fails found fault := by
  intro hfails
  cases hfails

@[simp]
theorem not_fails_report {site? : Option Site} : ¬ (report site?).Fails found fault := by
  intro hfails
  cases hfails

@[simp]
theorem fails_ofExcept_iff {result : Except Fault α} :
    (ofExcept result).Fails found fault ↔ found = [] ∧ result = .error fault := by
  rw [Fails, ofExcept, Scan.mk.injEq, eq_comm]

/-- Two scans in a row fail where the first one fails, or where the second one
does behind the first one. -/
theorem fails_bind_iff {scan : Scan α} {next : α → Scan β} :
    (scan >>= next).Fails found fault ↔
      scan.Fails found fault ∨
        ∃ first a more, scan = ⟨first, .ok a⟩ ∧ (next a).Fails more fault ∧
          found = first ++ more := by
  rcases scan with ⟨first, other | a⟩
  · simp [Fails, ext_iff, Except.bind]
  · rcases hnext : next a with ⟨more, result⟩
    simp [Fails, ext_iff, Except.bind, hnext, eq_comm, and_comm]

@[simp]
theorem fails_bind_pure_iff {scan : Scan α} {f : α → β} :
    (scan >>= fun a => pure (f a)).Fails found fault ↔ scan.Fails found fault := by
  simp [fails_bind_iff]

section Combining

variable {before : Cursor}

theorem fails_bind_ends_iff {scan : Scan (After before)} {next : After before → Scan β} :
    (scan >>= next).Fails found fault ↔
      scan.Fails found fault ∨
        ∃ first mid, ∃ hends : scan.Ends first mid, ∃ more,
          (next ⟨mid, hends.length_lt⟩).Fails more fault ∧ found = first ++ more := by
  simp only [fails_bind_iff, Ends, Subtype.exists]
  refine or_congr_right ⟨?_, ?_⟩
  · rintro ⟨first, mid, hmid, more, hscan, hnext⟩
    exact ⟨first, mid, ⟨hmid, hscan⟩, more, hnext⟩
  · rintro ⟨first, mid, ⟨hmid, hscan⟩, more, hnext⟩
    exact ⟨first, mid, hmid, more, hscan, hnext⟩

theorem fails_bind_yields_iff {scan : Scan (α × After before)}
    {next : α × After before → Scan β} :
    (scan >>= next).Fails found fault ↔
      scan.Fails found fault ∨
        ∃ first value mid, ∃ hyields : scan.Yields first value mid, ∃ more,
          (next (value, ⟨mid, hyields.length_lt⟩)).Fails more fault ∧ found = first ++ more := by
  simp only [fails_bind_iff, Yields, Prod.exists, Subtype.exists]
  refine or_congr_right ⟨?_, ?_⟩
  · rintro ⟨first, value, mid, hmid, more, hscan, hnext⟩
    exact ⟨first, value, mid, ⟨hmid, hscan⟩, more, hnext⟩
  · rintro ⟨first, value, mid, ⟨hmid, hscan⟩, more, hnext⟩
    exact ⟨first, value, mid, hmid, more, hscan, hnext⟩

end Combining

section Nested

variable {element : (cursor : Cursor) → Scan (After cursor)} {opening : Nat} {cursor : Cursor}

theorem fails_elements_iff :
    (elements element opening cursor).Fails found fault ↔
      cursor.skipBlanks.rest = [] ∧ found = [] ∧ fault = ⟨.unterminatedArray, opening⟩ ∨
        ∃ offset c rest, cursor.skipBlanks = ⟨offset, c :: rest⟩ ∧ c ≠ ']' ∧
          ((element ⟨offset, c :: rest⟩).Fails found fault ∨
            ∃ first mid, (element ⟨offset, c :: rest⟩).Ends first mid ∧
              ∃ more, (moreElements element opening mid).Fails more fault ∧
                found = first ++ more) := by
  rw [elements]
  split
  · rename_i hskip
    simp [hskip]
  · rename_i offset c rest hskip
    rw [exists_skipBlanks_iff hskip]
    split
    · rename_i hclose
      simp [hskip, hclose]
    · rename_i hopen
      rw [fails_bind_ends_iff]
      simp [hskip, hopen]

/-- Behind an element an array fails at the end of the text, at a character
that is neither a comma nor the bracket, at the next element, or behind it. -/
theorem fails_moreElements_iff :
    (moreElements element opening cursor).Fails found fault ↔
      cursor.skipBlanks.rest = [] ∧ found = [] ∧ fault = ⟨.unterminatedArray, opening⟩ ∨
        ∃ offset c rest, cursor.skipBlanks = ⟨offset, c :: rest⟩ ∧
          (c ≠ ',' ∧ c ≠ ']' ∧ found = [] ∧ fault = ⟨.expectedCommaOrBracket, offset⟩ ∨
            c = ',' ∧ (Cursor.skipBlanks ⟨offset + 1, rest⟩).rest = [] ∧ found = [] ∧
              fault = ⟨.unterminatedArray, opening⟩ ∨
            c = ',' ∧ (Cursor.skipBlanks ⟨offset + 1, rest⟩).rest ≠ [] ∧
              ((element (Cursor.skipBlanks ⟨offset + 1, rest⟩)).Fails found fault ∨
                ∃ first mid,
                  (element (Cursor.skipBlanks ⟨offset + 1, rest⟩)).Ends first mid ∧
                  ∃ more, (moreElements element opening mid).Fails more fault ∧
                    found = first ++ more)) := by
  rw [moreElements]
  split
  · rename_i hskip
    simp [hskip]
  · rename_i offset c rest hskip
    rw [exists_skipBlanks_iff hskip]
    dsimp only
    split
    · rename_i hcomma
      split
      · rename_i hend
        simp [hskip, hcomma, hend]
      · rename_i hmore
        rw [fails_bind_ends_iff]
        simp [hskip, hcomma, hmore]
    · rename_i hother
      split
      · rename_i hclose
        simp [hskip, hclose]
      · rename_i hopen
        simp [hskip, hother, hopen]

variable {settings : Settings} {slots : Slots} {key : Text} {keyStart : Nat}

theorem fails_memberValue_iff :
    (memberValue element opening settings slots key keyStart cursor).Fails found fault ↔
      cursor.rest = [] ∧ found = [] ∧ fault = ⟨.unterminatedObject, opening⟩ ∨
        ∃ c, cursor.rest.head? = some c ∧
          (c = '"' ∧ key = settings.identifierField ∧ found = [] ∧
              StringToken.read cursor = .error fault ∨
            ¬ (c = '"' ∧ key = settings.identifierField) ∧
              (element cursor).Fails found fault) := by
  rw [memberValue]
  cases hhead : cursor.rest.head? with
  | none => simp [List.head?_eq_none_iff.mp hhead]
  | some c =>
      have hrest : cursor.rest ≠ [] := by
        rintro hnil
        simp [hnil] at hhead
      simp only [hrest, false_and, false_or, Option.some.injEq, exists_eq_left']
      split
      · rename_i hidentifier
        simp [hidentifier, fails_bind_iff]
      · rename_i hother
        simp only [hother, fails_bind_iff, not_false_eq_true, true_and, ← and_assoc, false_and,
          false_or]
        refine or_iff_left ?_
        rintro ⟨_, _, _, ⟨_, hfails⟩, _⟩
        split at hfails <;> exact not_fails_pure hfails

/-- A member fails at a character that starts no key, as its key, where its
colon is missing, or at its value. -/
theorem fails_member_iff :
    (member element opening settings slots cursor).Fails found fault ↔
      cursor.rest = [] ∧ found = [] ∧ fault = ⟨.unterminatedObject, opening⟩ ∨
        ∃ c, cursor.rest.head? = some c ∧
          (c ≠ '"' ∧ found = [] ∧ fault = ⟨.expectedKey, cursor.offset⟩ ∨
            c = '"' ∧ (found = [] ∧ StringToken.read cursor = .error fault ∨
              ∃ key behind, StringToken.Reads (StringToken.read cursor) key behind ∧
                (behind.skipBlanks.rest = [] ∧ found = [] ∧
                    fault = ⟨.unterminatedObject, opening⟩ ∨
                  ∃ offset c rest, behind.skipBlanks = ⟨offset, c :: rest⟩ ∧
                    (c ≠ ':' ∧ found = [] ∧ fault = ⟨.expectedColon, offset⟩ ∨
                      c = ':' ∧ (memberValue element opening settings slots key cursor.offset
                        (Cursor.skipBlanks ⟨offset + 1, rest⟩)).Fails found fault)))) := by
  rw [member]
  cases hhead : cursor.rest.head? with
  | none => simp [List.head?_eq_none_iff.mp hhead]
  | some c =>
      have hrest : cursor.rest ≠ [] := by
        rintro hnil
        simp [hnil] at hhead
      simp only [hrest, false_and, false_or, Option.some.injEq, exists_eq_left']
      split
      · rename_i hquote
        simp only [hquote, ne_eq, not_true_eq_false, false_and, false_or, true_and,
          fails_bind_yields_iff, fails_ofExcept_iff, yields_ofExcept_iff]
        refine or_congr_right ⟨?_, ?_⟩
        · rintro ⟨_, key, behind, ⟨rfl, hreads⟩, _, hfails, rfl⟩
          refine ⟨key, behind, hreads, ?_⟩
          split at hfails
          · rename_i hskip
            exact .inl ⟨by rw [hskip], fails_fail_iff.mp hfails⟩
          · rename_i offset c rest hskip
            refine .inr ⟨offset, c, rest, hskip, ?_⟩
            split at hfails
            · rename_i hcolon
              exact .inr ⟨hcolon, fails_bind_pure_iff.mp hfails⟩
            · rename_i hcolon
              exact .inl ⟨hcolon, fails_fail_iff.mp hfails⟩
        · rintro ⟨key, behind, hreads, hfails⟩
          refine ⟨[], key, behind, ⟨rfl, hreads⟩, found, ?_, rfl⟩
          split
          · rename_i hskip
            simpa [hskip] using hfails
          · rename_i offset c rest hskip
            rw [exists_skipBlanks_iff hskip] at hfails
            split
            · rename_i hcolon
              simpa [hskip, hcolon] using hfails
            · rename_i hcolon
              simpa [hskip, hcolon] using hfails
      · rename_i hother
        simp [hother]

theorem fails_moreMembers_iff :
    (moreMembers element opening settings slots cursor).Fails found fault ↔
      cursor.skipBlanks.rest = [] ∧ found = [] ∧ fault = ⟨.unterminatedObject, opening⟩ ∨
        ∃ offset c rest, cursor.skipBlanks = ⟨offset, c :: rest⟩ ∧
          (c ≠ ',' ∧ c ≠ '\x7d' ∧ found = [] ∧ fault = ⟨.expectedCommaOrBrace, offset⟩ ∨
            c = ',' ∧
              ((member element opening settings slots
                  (Cursor.skipBlanks ⟨offset + 1, rest⟩)).Fails found fault ∨
                ∃ first slotsAfter mid,
                  (member element opening settings slots
                    (Cursor.skipBlanks ⟨offset + 1, rest⟩)).Yields first slotsAfter mid ∧
                  ∃ more, (moreMembers element opening settings slotsAfter mid).Fails more fault ∧
                    found = first ++ more)) := by
  rw [moreMembers]
  split
  · rename_i hskip
    simp [hskip]
  · rename_i offset c rest hskip
    rw [exists_skipBlanks_iff hskip]
    dsimp only
    split
    · rename_i hcomma
      rw [fails_bind_yields_iff]
      simp [hskip, hcomma]
    · rename_i hother
      split
      · rename_i hclose
        simp [hskip, hclose, fails_bind_iff]
      · rename_i hopen
        simp [hskip, hother, hopen]

theorem fails_members_iff :
    (members element opening settings cursor).Fails found fault ↔
      cursor.skipBlanks.rest = [] ∧ found = [] ∧ fault = ⟨.unterminatedObject, opening⟩ ∨
        ∃ offset c rest, cursor.skipBlanks = ⟨offset, c :: rest⟩ ∧ c ≠ '\x7d' ∧
          ((member element opening settings {} ⟨offset, c :: rest⟩).Fails found fault ∨
            ∃ first slots mid,
              (member element opening settings {} ⟨offset, c :: rest⟩).Yields first slots mid ∧
              ∃ more, (moreMembers element opening settings slots mid).Fails more fault ∧
                found = first ++ more) := by
  rw [members]
  split
  · rename_i hskip
    simp [hskip]
  · rename_i offset c rest hskip
    rw [exists_skipBlanks_iff hskip]
    split
    · rename_i hclose
      simp [hskip, hclose]
    · rename_i hopen
      rw [fails_bind_yields_iff]
      simp [hskip, hopen]

end Nested

/-- No literal starts at the end or at a delimiter. -/
theorem literal_eq_error_iff {cursor : Cursor} :
    literal cursor = .error fault ↔
      (∀ c ∈ cursor.rest.head?, ¬ isLiteral c) ∧ fault = ⟨.expectedValue, cursor.offset⟩ := by
  rcases cursor with ⟨offset, _ | ⟨c, rest⟩⟩
  · simp only [literal, List.head?_nil, Option.mem_def, reduceCtorEq, false_implies,
      implies_true, true_and, Except.error.injEq]
    exact eq_comm
  · simp only [literal, List.head?_cons, Option.mem_def, Option.some.injEq, forall_eq']
    by_cases hliteral : isLiteral c
    · simp [hliteral]
    · simp only [hliteral, Bool.false_eq_true, if_false, not_false_eq_true, true_and,
        Except.error.injEq]
      exact eq_comm

variable {settings : Settings} {depth : Nat} {cursor : Cursor}

/-- A value fails where there is none, where the nesting limit allows none, or
as the object, the array or the string that it is. -/
theorem fails_value_iff :
    (value settings depth cursor).Fails found fault ↔
      cursor.skipBlanks.rest = [] ∧ found = [] ∧
          fault = ⟨.expectedValue, cursor.skipBlanks.offset⟩ ∨
        ∃ offset c rest, cursor.skipBlanks = ⟨offset, c :: rest⟩ ∧
          (c = '\x7b' ∧ (depth = 0 ∧ found = [] ∧ fault = ⟨.nestingTooDeep, offset⟩ ∨
              ∃ below, depth = below + 1 ∧ (members (value settings below) offset settings
                ⟨offset + 1, rest⟩).Fails found fault) ∨
            c = '[' ∧ (depth = 0 ∧ found = [] ∧ fault = ⟨.nestingTooDeep, offset⟩ ∨
              ∃ below, depth = below + 1 ∧
                (elements (value settings below) offset ⟨offset + 1, rest⟩).Fails found fault) ∨
            c = '"' ∧ found = [] ∧ StringToken.read ⟨offset, c :: rest⟩ = .error fault ∨
            c ≠ '\x7b' ∧ c ≠ '[' ∧ c ≠ '"' ∧ found = [] ∧ ¬ isLiteral c ∧
              fault = ⟨.expectedValue, offset⟩) := by
  rw [value]
  split
  · rename_i hskip
    simp [hskip]
  · rename_i offset c rest hskip
    rw [exists_skipBlanks_iff hskip]
    dsimp only
    split
    · rename_i hobject
      cases depth with
      | zero => simp [hskip, hobject]
      | succ below => simp [hskip, hobject]
    · rename_i hobject
      split
      · rename_i harray
        cases depth with
        | zero => simp [hskip, harray]
        | succ below => simp [hskip, harray]
      · rename_i harray
        rw [fails_bind_pure_iff, fails_ofExcept_iff]
        split
        · rename_i hstring
          rw [StringToken.skip_eq_map_read]
          cases StringToken.read ⟨offset, c :: rest⟩ with
          | error other => simp [hskip, hstring, Except.map]
          | ok reading => simp [hskip, hstring, Except.map]
        · rename_i hliteral
          simp [hskip, hobject, harray, hliteral, literal_eq_error_iff]

end Scan

end ArrayPatch
