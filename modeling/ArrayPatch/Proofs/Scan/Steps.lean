import ArrayPatch.Proofs.Scan.StringToken
import ArrayPatch.Scan.Value

/-!
# What one step of the scanner can do

For every function of the scanner there is one equivalence that says when it
succeeds: which character it meets behind blanks, which readers it calls from
there, and where these end.  The proofs about whole documents use these
equivalences and do not open the functions again.

`Ends` is success of a reader that returns a cursor, `Yields` success of one
that returns a value besides.
-/

namespace ArrayPatch

namespace Scan

variable {α β : Type}

/-! ## Success of combined scans -/

@[simp]
theorem fail_ne_ok {flaw : Flaw} {offset : Nat} {found : List Site} {a : α} :
    (fail flaw offset : Scan α) ≠ ⟨found, .ok a⟩ := by
  intro heq
  cases heq

@[simp]
theorem pure_eq_ok_iff {found : List Site} {a b : α} :
    (pure a : Scan α) = ⟨found, .ok b⟩ ↔ found = [] ∧ a = b := by
  constructor
  · intro heq
    cases heq
    exact ⟨rfl, rfl⟩
  · rintro ⟨rfl, rfl⟩
    rfl

@[simp]
theorem ofExcept_eq_ok_iff {result : Except Fault α} {found : List Site} {a : α} :
    ofExcept result = ⟨found, .ok a⟩ ↔ found = [] ∧ result = .ok a := by
  constructor
  · intro heq
    cases heq
    exact ⟨rfl, rfl⟩
  · rintro ⟨rfl, rfl⟩
    rfl

@[simp]
theorem report_eq_ok_iff {site? : Option Site} {found : List Site} {done : Unit} :
    report site? = ⟨found, .ok done⟩ ↔ found = site?.toList := by
  constructor
  · intro heq
    cases heq
    rfl
  · rintro rfl
    rfl

/-- Two scans in a row succeed exactly if both do, and their sites add up. -/
theorem bind_eq_ok_iff {scan : Scan α} {next : α → Scan β} {found : List Site} {b : β} :
    scan >>= next = ⟨found, .ok b⟩ ↔
      ∃ first a second, scan = ⟨first, .ok a⟩ ∧ next a = ⟨second, .ok b⟩ ∧
        found = first ++ second := by
  rcases scan with ⟨first, fault | a⟩
  · constructor
    · intro heq
      cases heq
    · rintro ⟨_, _, _, heq, -⟩
      cases heq
  · constructor
    · intro heq
      rw [ext_iff, found_bind, result_bind] at heq
      refine ⟨first, a, (next a).found, rfl, ?_, heq.1.symm⟩
      rw [ext_iff]
      exact ⟨rfl, heq.2⟩
    · rintro ⟨_, _, second, heq, hnext, rfl⟩
      cases heq
      rw [ext_iff, found_bind, result_bind]
      simp [Except.bind, hnext]

/-- A scan finds some sites and ends at a cursor. -/
def Ends {cursor : Cursor} (scan : Scan (After cursor)) (found : List Site) (next : Cursor) :
    Prop :=
  ∃ hnext, scan = ⟨found, .ok ⟨next, hnext⟩⟩

/-- A scan finds some sites, yields a value and ends at a cursor. -/
def Yields {cursor : Cursor} (scan : Scan (α × After cursor)) (found : List Site) (value : α)
    (next : Cursor) : Prop :=
  ∃ hnext, scan = ⟨found, .ok (value, ⟨next, hnext⟩)⟩

section Combining

variable {before cursor next : Cursor} {found : List Site} {value : α}

/-- A scan that ends moves forward. -/
theorem Ends.length_lt {scan : Scan (After cursor)} (hends : scan.Ends found next) :
    next.rest.length < cursor.rest.length :=
  hends.fst

theorem Yields.length_lt {scan : Scan (α × After cursor)} (hyields : scan.Yields found value next) :
    next.rest.length < cursor.rest.length :=
  hyields.fst

@[simp]
theorem ends_pure_iff {behind : After cursor} :
    (pure behind : Scan (After cursor)).Ends found next ↔ found = [] ∧ next = behind.1 := by
  rcases behind with ⟨behind, hbehind⟩
  simp only [Ends, pure_eq_ok_iff, Subtype.mk.injEq]
  constructor
  · rintro ⟨_, hfound, rfl⟩
    exact ⟨hfound, rfl⟩
  · rintro ⟨hfound, rfl⟩
    exact ⟨hbehind, hfound, rfl⟩

@[simp]
theorem yields_pure_iff {yielded : α × After cursor} :
    (pure yielded : Scan (α × After cursor)).Yields found value next ↔
      found = [] ∧ value = yielded.1 ∧ next = yielded.2.1 := by
  rcases yielded with ⟨yielded, behind, hbehind⟩
  simp only [Yields, pure_eq_ok_iff, Prod.mk.injEq, Subtype.mk.injEq]
  constructor
  · rintro ⟨_, hfound, rfl, rfl⟩
    exact ⟨hfound, rfl, rfl⟩
  · rintro ⟨hfound, rfl, rfl⟩
    exact ⟨hbehind, hfound, rfl, rfl⟩

@[simp]
theorem not_ends_fail {flaw : Flaw} {offset : Nat} :
    ¬ (fail flaw offset : Scan (After cursor)).Ends found next := by
  rintro ⟨_, heq⟩
  exact fail_ne_ok heq

@[simp]
theorem not_yields_fail {flaw : Flaw} {offset : Nat} :
    ¬ (fail flaw offset : Scan (α × After cursor)).Yields found value next := by
  rintro ⟨_, heq⟩
  exact fail_ne_ok heq

@[simp]
theorem ends_ofExcept_iff {result : Except Fault (After cursor)} :
    (ofExcept result).Ends found next ↔ found = [] ∧ ∃ hnext, result = .ok ⟨next, hnext⟩ := by
  simp only [Ends, ofExcept_eq_ok_iff, exists_and_left]

@[simp]
theorem yields_ofExcept_iff {reading : StringToken.Reading α cursor.rest} :
    (ofExcept reading : Scan (α × After cursor)).Yields found value next ↔
      found = [] ∧ StringToken.Reads reading value next := by
  simp only [Yields, StringToken.Reads, ofExcept_eq_ok_iff, exists_and_left]

theorem ends_bind_iff {scan : Scan (After before)} {then_ : After before → Scan (After cursor)} :
    (scan >>= then_).Ends found next ↔
      ∃ first mid second, ∃ hends : scan.Ends first mid,
        (then_ ⟨mid, hends.length_lt⟩).Ends second next ∧ found = first ++ second := by
  simp only [Ends, bind_eq_ok_iff, Subtype.exists]
  constructor
  · rintro ⟨hnext, first, mid, hmid, second, hscan, hthen, rfl⟩
    exact ⟨first, mid, second, ⟨hmid, hscan⟩, ⟨hnext, hthen⟩, rfl⟩
  · rintro ⟨first, mid, second, ⟨hmid, hscan⟩, ⟨hnext, hthen⟩, rfl⟩
    exact ⟨hnext, first, mid, hmid, second, hscan, hthen, rfl⟩

theorem ends_bind_yields_iff {scan : Scan (α × After before)}
    {then_ : α × After before → Scan (After cursor)} :
    (scan >>= then_).Ends found next ↔
      ∃ first value mid second, ∃ hyields : scan.Yields first value mid,
        (then_ (value, ⟨mid, hyields.length_lt⟩)).Ends second next ∧ found = first ++ second := by
  simp only [Ends, Yields, bind_eq_ok_iff, Prod.exists, Subtype.exists]
  constructor
  · rintro ⟨hnext, first, value, mid, hmid, second, hscan, hthen, rfl⟩
    exact ⟨first, value, mid, second, ⟨hmid, hscan⟩, ⟨hnext, hthen⟩, rfl⟩
  · rintro ⟨first, value, mid, second, ⟨hmid, hscan⟩, ⟨hnext, hthen⟩, rfl⟩
    exact ⟨hnext, first, value, mid, hmid, second, hscan, hthen, rfl⟩

theorem yields_bind_ends_iff {scan : Scan (After before)}
    {then_ : After before → Scan (α × After cursor)} :
    (scan >>= then_).Yields found value next ↔
      ∃ first mid second, ∃ hends : scan.Ends first mid,
        (then_ ⟨mid, hends.length_lt⟩).Yields second value next ∧ found = first ++ second := by
  simp only [Ends, Yields, bind_eq_ok_iff, Subtype.exists]
  constructor
  · rintro ⟨hnext, first, mid, hmid, second, hscan, hthen, rfl⟩
    exact ⟨first, mid, second, ⟨hmid, hscan⟩, ⟨hnext, hthen⟩, rfl⟩
  · rintro ⟨first, mid, second, ⟨hmid, hscan⟩, ⟨hnext, hthen⟩, rfl⟩
    exact ⟨hnext, first, mid, hmid, second, hscan, hthen, rfl⟩

theorem yields_bind_iff {scan : Scan (β × After before)}
    {then_ : β × After before → Scan (α × After cursor)} :
    (scan >>= then_).Yields found value next ↔
      ∃ first b mid second, ∃ hyields : scan.Yields first b mid,
        (then_ (b, ⟨mid, hyields.length_lt⟩)).Yields second value next ∧
          found = first ++ second := by
  simp only [Yields, bind_eq_ok_iff, Prod.exists, Subtype.exists]
  constructor
  · rintro ⟨hnext, first, b, mid, hmid, second, hscan, hthen, rfl⟩
    exact ⟨first, b, mid, second, ⟨hmid, hscan⟩, ⟨hnext, hthen⟩, rfl⟩
  · rintro ⟨first, b, mid, second, ⟨hmid, hscan⟩, ⟨hnext, hthen⟩, rfl⟩
    exact ⟨hnext, first, b, mid, hmid, second, hscan, hthen, rfl⟩

@[simp]
theorem ends_bind_pure_iff {scan : Scan (After before)}
    {hlt : ∀ behind : After before, behind.1.rest.length < cursor.rest.length} :
    (scan >>= fun behind => pure ⟨behind.1, hlt behind⟩ : Scan (After cursor)).Ends found next ↔
      scan.Ends found next := by
  simp [ends_bind_iff]

@[simp]
theorem yields_bind_pure_iff {scan : Scan (α × After before)}
    {hlt : ∀ behind : α × After before, behind.2.1.rest.length < cursor.rest.length} :
    (scan >>= fun yielded => pure (yielded.1, ⟨yielded.2.1, hlt yielded⟩) :
      Scan (α × After cursor)).Yields found value next ↔ scan.Yields found value next := by
  simp [yields_bind_iff]

@[simp]
theorem ends_report_bind_iff {site? : Option Site} {behind : After cursor} :
    (report site? >>= fun _ => pure behind : Scan (After cursor)).Ends found next ↔
      found = site?.toList ∧ next = behind.1 := by
  rcases behind with ⟨behind, hbehind⟩
  simp only [Ends, bind_eq_ok_iff, report_eq_ok_iff, pure_eq_ok_iff, Subtype.mk.injEq]
  constructor
  · rintro ⟨_, _, _, _, rfl, ⟨rfl, rfl⟩, rfl⟩
    exact ⟨List.append_nil _, rfl⟩
  · rintro ⟨rfl, rfl⟩
    exact ⟨hbehind, _, (), [], rfl, ⟨rfl, rfl⟩, (List.append_nil _).symm⟩

end Combining

/-- The character behind blanks and what follows it are determined. -/
theorem exists_skipBlanks_iff {cursor : Cursor} {offset : Nat} {c : Char} {rest : Text}
    (hskip : cursor.skipBlanks = ⟨offset, c :: rest⟩) {p : Nat → Char → Text → Prop} :
    (∃ offset c rest, cursor.skipBlanks = ⟨offset, c :: rest⟩ ∧ p offset c rest) ↔
      p offset c rest := by
  constructor
  · rintro ⟨_, _, _, hskip', hp⟩
    cases hskip.symm.trans hskip'
    exact hp
  · intro hp
    exact ⟨offset, c, rest, hskip, hp⟩

section Nested

variable {element : (cursor : Cursor) → Scan (After cursor)} {opening : Nat}
variable {cursor next : Cursor} {found : List Site}

theorem ends_elements_iff :
    (elements element opening cursor).Ends found next ↔
      ∃ offset c rest, cursor.skipBlanks = ⟨offset, c :: rest⟩ ∧
        (c = ']' ∧ found = [] ∧ next = ⟨offset + 1, rest⟩ ∨
          c ≠ ']' ∧ ∃ first mid more, (element ⟨offset, c :: rest⟩).Ends first mid ∧
            (moreElements element opening mid).Ends more next ∧ found = first ++ more) := by
  rw [elements]
  split
  · rename_i hskip
    simp [hskip]
  · rename_i offset c rest hskip
    rw [exists_skipBlanks_iff hskip]
    split
    · rename_i hclose
      simp [hclose]
    · rename_i hopen
      rw [ends_bind_iff]
      simp only [hopen, false_and, false_or, ne_eq, not_false_eq_true, true_and,
        ends_bind_pure_iff, exists_prop]

/-- Behind an element an array closes or goes on with a comma and one more
element, which is not the end of the text. -/
theorem ends_moreElements_iff :
    (moreElements element opening cursor).Ends found next ↔
      ∃ offset c rest, cursor.skipBlanks = ⟨offset, c :: rest⟩ ∧
        (c = ']' ∧ found = [] ∧ next = ⟨offset + 1, rest⟩ ∨
          c = ',' ∧ (Cursor.skipBlanks ⟨offset + 1, rest⟩).rest ≠ [] ∧
            ∃ first mid more, (element (Cursor.skipBlanks ⟨offset + 1, rest⟩)).Ends first mid ∧
              (moreElements element opening mid).Ends more next ∧ found = first ++ more) := by
  rw [moreElements]
  split
  · rename_i hskip
    simp [hskip]
  · rename_i offset c rest hskip
    rw [exists_skipBlanks_iff hskip]
    dsimp only
    split
    · rename_i hcomma
      split
      · rename_i hend
        simp [hcomma, hend]
      · rename_i hmore
        rw [ends_bind_iff]
        simp only [hcomma, hmore, Char.reduceEq, false_and, false_or, ne_eq, not_false_eq_true,
          true_and, ends_bind_pure_iff, exists_prop]
    · rename_i hother
      split
      · rename_i hclose
        simp [hclose]
      · rename_i hopen
        simp [hother, hopen]

variable {settings : Settings} {slots slotsAfter : Slots} {key : Text} {keyStart : Nat}

/-- The value of a member is an identifier or any other value. -/
theorem yields_memberValue_iff :
    (memberValue element opening settings slots key keyStart cursor).Yields found slotsAfter next ↔
      ∃ c, cursor.rest.head? = some c ∧
        ((c = '"' ∧ key = settings.identifierField ∧ found = [] ∧
            ∃ identifier, StringToken.Reads (StringToken.read cursor) identifier next ∧
              slotsAfter = slots.identify identifier) ∨
          (¬ (c = '"' ∧ key = settings.identifierField) ∧ (element cursor).Ends found next ∧
            slotsAfter = if c = '[' ∧ key = settings.targetField then
                slots.aim keyStart cursor.offset next.offset
              else slots.pass settings key)) := by
  rw [memberValue]
  cases cursor.rest.head? with
  | none => simp
  | some c =>
      simp only [Option.some.injEq, exists_eq_left']
      split
      · rename_i hidentifier
        simp [yields_bind_iff, hidentifier]
        tauto
      · rename_i hother
        rw [yields_bind_ends_iff]
        simp only [hother, not_false_eq_true, true_and, ← and_assoc, false_and, false_or]
        constructor
        · rintro ⟨first, mid, second, hends, hthen, rfl⟩
          split at hthen
          · rename_i htarget
            obtain ⟨rfl, rfl, rfl⟩ := yields_pure_iff.mp hthen
            exact ⟨by simpa using hends, by rw [if_pos htarget]⟩
          · rename_i htarget
            obtain ⟨rfl, rfl, rfl⟩ := yields_pure_iff.mp hthen
            exact ⟨by simpa using hends, by rw [if_neg htarget]⟩
        · rintro ⟨hends, rfl⟩
          refine ⟨found, next, [], hends, ?_, by simp⟩
          split <;> simp

theorem yields_member_iff :
    (member element opening settings slots cursor).Yields found slotsAfter next ↔
      ∃ key behind offset rest, StringToken.Reads (StringToken.read cursor) key behind ∧
        behind.skipBlanks = ⟨offset, ':' :: rest⟩ ∧
        (memberValue element opening settings slots key cursor.offset
          (Cursor.skipBlanks ⟨offset + 1, rest⟩)).Yields found slotsAfter next := by
  have hmark : ∀ {key behind}, StringToken.Reads (StringToken.read cursor) key behind →
      cursor.rest.head? = some '"' := by
    intro key behind hreads
    obtain ⟨pieces, htoken, -, -⟩ := StringToken.reads_read_iff.mp hreads
    rw [htoken]
    rfl
  rw [member]
  cases hhead : cursor.rest.head? with
  | none =>
      simp only [not_yields_fail, false_iff]
      rintro ⟨key, behind, _, _, hreads, -⟩
      rw [hmark hreads] at hhead
      cases hhead
  | some c =>
      dsimp only
      split
      · rename_i hquote
        simp only [yields_bind_iff, yields_ofExcept_iff]
        constructor
        · rintro ⟨_, key, behind, second, ⟨rfl, hreads⟩, hthen, rfl⟩
          split at hthen
          · exact absurd hthen not_yields_fail
          · rename_i offset c rest hskip
            split at hthen
            · rename_i hcolon
              subst hcolon
              exact ⟨key, behind, offset, rest, hreads, hskip, yields_bind_pure_iff.mp hthen⟩
            · exact absurd hthen not_yields_fail
        · rintro ⟨key, behind, offset, rest, hreads, hskip, hvalue⟩
          refine ⟨[], key, behind, found, ⟨rfl, hreads⟩, ?_, rfl⟩
          split
          · rename_i hskip'
            cases hskip.symm.trans hskip'
          · rename_i offset' c rest' hskip'
            cases hskip.symm.trans hskip'
            rw [if_pos rfl]
            exact yields_bind_pure_iff.mpr hvalue
      · rename_i hother
        simp only [not_yields_fail, false_iff]
        rintro ⟨key, behind, _, _, hreads, -⟩
        rw [hmark hreads] at hhead
        exact hother (Option.some.inj hhead).symm

/-- Behind a member an object closes and reports its site, or goes on with a
comma and one more member. -/
theorem ends_moreMembers_iff :
    (moreMembers element opening settings slots cursor).Ends found next ↔
      ∃ offset c rest, cursor.skipBlanks = ⟨offset, c :: rest⟩ ∧
        (c = '\x7d' ∧ found = slots.site?.toList ∧ next = ⟨offset + 1, rest⟩ ∨
          c = ',' ∧ ∃ first slotsAfter mid more,
            (member element opening settings slots
              (Cursor.skipBlanks ⟨offset + 1, rest⟩)).Yields first slotsAfter mid ∧
            (moreMembers element opening settings slotsAfter mid).Ends more next ∧
            found = first ++ more) := by
  rw [moreMembers]
  split
  · rename_i hskip
    simp [hskip]
  · rename_i offset c rest hskip
    rw [exists_skipBlanks_iff hskip]
    dsimp only
    split
    · rename_i hcomma
      rw [ends_bind_yields_iff]
      simp only [hcomma, Char.reduceEq, false_and, false_or, true_and, ends_bind_pure_iff,
        exists_prop]
    · rename_i hother
      split
      · rename_i hclose
        simp [hclose]
      · rename_i hopen
        simp [hother, hopen]

theorem ends_members_iff :
    (members element opening settings cursor).Ends found next ↔
      ∃ offset c rest, cursor.skipBlanks = ⟨offset, c :: rest⟩ ∧
        (c = '\x7d' ∧ found = [] ∧ next = ⟨offset + 1, rest⟩ ∨
          c ≠ '\x7d' ∧ ∃ first slots mid more,
            (member element opening settings {} ⟨offset, c :: rest⟩).Yields first slots mid ∧
            (moreMembers element opening settings slots mid).Ends more next ∧
            found = first ++ more) := by
  rw [members]
  split
  · rename_i hskip
    simp [hskip]
  · rename_i offset c rest hskip
    rw [exists_skipBlanks_iff hskip]
    split
    · rename_i hclose
      simp [hclose]
    · rename_i hopen
      rw [ends_bind_yields_iff]
      simp only [hopen, false_and, false_or, ne_eq, not_false_eq_true, true_and,
        ends_bind_pure_iff, exists_prop]

end Nested

/-- A literal is what stands before the next delimiter. -/
theorem literal_eq_ok_iff {cursor next : Cursor} :
    (∃ hnext, literal cursor = .ok ⟨next, hnext⟩) ↔
      ∃ c rest, cursor.rest = c :: rest ∧ isLiteral c ∧
        next = Cursor.skip isLiteral ⟨cursor.offset + c.utf8Size, rest⟩ := by
  rcases cursor with ⟨offset, _ | ⟨c, rest⟩⟩
  · simp [literal]
  · by_cases hliteral : isLiteral c
    · simp only [literal, if_pos hliteral, Except.ok.injEq, Subtype.mk.injEq, exists_prop]
      constructor
      · rintro ⟨-, rfl⟩
        exact ⟨c, rest, rfl, hliteral, rfl⟩
      · rintro ⟨_, _, hrest, -, rfl⟩
        cases hrest
        exact ⟨Nat.lt_succ_of_le (Cursor.length_skip_le isLiteral _), rfl⟩
    · simp [literal, hliteral]

variable {settings : Settings} {depth : Nat} {cursor next : Cursor} {found : List Site}

/-- A value is told by its first character. -/
theorem ends_value_iff :
    (value settings depth cursor).Ends found next ↔
      ∃ offset c rest, cursor.skipBlanks = ⟨offset, c :: rest⟩ ∧
        (c = '\x7b' ∧ (∃ below, depth = below + 1 ∧
            (members (value settings below) offset settings ⟨offset + 1, rest⟩).Ends found next) ∨
          c = '[' ∧ (∃ below, depth = below + 1 ∧
            (elements (value settings below) offset ⟨offset + 1, rest⟩).Ends found next) ∨
          c = '"' ∧ found = [] ∧
            (∃ text, StringToken.Reads (StringToken.read ⟨offset, c :: rest⟩) text next) ∨
          c ≠ '\x7b' ∧ c ≠ '[' ∧ c ≠ '"' ∧ found = [] ∧
            ∃ hnext, literal ⟨offset, c :: rest⟩ = .ok ⟨next, hnext⟩) := by
  rw [value]
  split
  · rename_i hskip
    simp [hskip]
  · rename_i offset c rest hskip
    rw [exists_skipBlanks_iff hskip]
    dsimp only
    split
    · rename_i hobject
      cases depth with
      | zero => simp [hobject]
      | succ below => simp [hobject]
    · rename_i hobject
      split
      · rename_i harray
        cases depth with
        | zero => simp [harray]
        | succ below => simp [harray]
      · rename_i harray
        simp only [hobject, harray, false_and, false_or, ne_eq, not_false_eq_true, true_and,
          ends_bind_pure_iff, ends_ofExcept_iff]
        split
        · rename_i hstring
          rw [← StringToken.skip_eq_ok_iff]
          simp [hstring]
        · rename_i hliteral
          simp [hliteral]

end Scan

end ArrayPatch
