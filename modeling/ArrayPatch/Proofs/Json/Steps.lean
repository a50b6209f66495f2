import ArrayPatch.Proofs.Json.Words

/-!
# Steps of the reader of JSON

What one call of a reader does, in terms of the readings of the calls that it
makes.  Values are told apart by what is read, elements and members by what
follows the first of them.
-/

namespace ArrayPatch.Json

open Grammar

variable {text rest : Text}

/-- An element is followed by the closing bracket or by a comma and further
elements. -/
theorem reads_elements_iff {result : List Value} :
    Reads (elements text) result rest ↔
      ∃ first behind, Reads (value (dropBlanks text)) first behind ∧
        (dropBlanks behind = ']' :: rest ∧ result = [first] ∨
          ∃ body more, dropBlanks behind = ',' :: body ∧ Reads (elements body) more rest ∧
            result = first :: more) := by
  rw [elements.eq_def]
  simp only [reads_bind_iff]
  apply exists₂_congr
  intro first behind
  rw [← exists_prop]
  apply exists_congr
  intro _
  split
  · rename_i body hbehind
    simp only [hbehind, reads_bind_iff, reads_pure_iff, List.cons.injEq, Char.reduceEq, false_and,
      false_or, true_and, exists_prop]
    constructor
    · rintro ⟨more, _, hmore, hresult, rfl⟩
      exact ⟨body, more, rfl, hmore, hresult⟩
    · rintro ⟨_, more, rfl, hmore, hresult⟩
      exact ⟨more, rest, hmore, hresult, rfl⟩
  · rename_i last hbehind
    simp only [hbehind, reads_some_iff, List.cons.injEq, Char.reduceEq, false_and, exists_false,
      or_false, true_and]
    rw [and_comm, @eq_comm _ last rest]
  · rename_i hcomma hclose
    simp only [not_reads_none, false_iff]
    rintro (⟨hbehind, -⟩ | ⟨body, more, hbehind, -⟩)
    · exact hclose rest hbehind
    · exact hcomma body hbehind

/-- A member is read: its key, a colon and its value. -/
def ReadsMember (text : Text) (member : Option Text × Value) (rest : Text) : Prop :=
  ∃ behind valueText, Reads (string text) member.1 behind ∧ dropBlanks behind = ':' :: valueText ∧
    Reads (value (dropBlanks valueText)) member.2 rest

/-- A member is followed by the closing brace or by a comma and further members. -/
theorem reads_members_iff {result : List (Option Text × Value)} :
    Reads (members text) result rest ↔
      ∃ first behind, ReadsMember (dropBlanks text) first behind ∧
        (dropBlanks behind = '\x7d' :: rest ∧ result = [first] ∨
          ∃ body more, dropBlanks behind = ',' :: body ∧ Reads (members body) more rest ∧
            result = first :: more) := by
  rw [members.eq_def]
  simp only [reads_bind_iff]
  constructor
  · rintro ⟨key, behindKey, hkey, hreads⟩
    split at hreads
    · rename_i valueText hcolon
      simp only [reads_bind_iff] at hreads
      obtain ⟨first, behind, hfirst, hreads⟩ := hreads
      refine ⟨(key, first), behind, ⟨behindKey, valueText, hkey, hcolon, hfirst⟩, ?_⟩
      split at hreads
      · rename_i body hbehind
        simp only [reads_bind_iff, reads_pure_iff] at hreads
        obtain ⟨more, _, hmore, rfl, rfl⟩ := hreads
        exact .inr ⟨body, more, hbehind, hmore, rfl⟩
      · rename_i hbehind
        obtain ⟨rfl, rfl⟩ := reads_some_iff.mp hreads
        exact .inl ⟨hbehind, rfl⟩
      · exact absurd hreads not_reads_none
    · exact absurd hreads not_reads_none
  · rintro ⟨⟨key, first⟩, behind, ⟨behindKey, valueText, hkey, hcolon, hfirst⟩, hbehind⟩
    refine ⟨key, behindKey, hkey, ?_⟩
    split
    · rename_i valueText' hcolon'
      cases hcolon.symm.trans hcolon'
      simp only [reads_bind_iff]
      refine ⟨first, behind, hfirst, ?_⟩
      rcases hbehind with ⟨hclose, rfl⟩ | ⟨body, more, hcomma, hmore, rfl⟩
      · split
        · rename_i hcomma
          cases hclose.symm.trans hcomma
        · rename_i hlast
          cases hclose.symm.trans hlast
          exact reads_some_iff.mpr ⟨rfl, rfl⟩
        · rename_i hother
          exact absurd hclose (hother rest)
      · split
        · rename_i hbody
          cases hcomma.symm.trans hbody
          simp only [reads_bind_iff, reads_pure_iff]
          exact ⟨more, rest, hmore, rfl, rfl⟩
        · rename_i hclose
          cases hcomma.symm.trans hclose
        · rename_i hother _
          exact absurd hcomma (hother body)
    · rename_i hother
      exact absurd hcolon (hother valueText)

/-! ## Values -/

theorem reads_value_array_iff {found : List Value} :
    Reads (value text) (.array found) rest ↔
      ∃ body, text = '[' :: body ∧
        (dropBlanks body = ']' :: rest ∧ found = [] ∨
          (∀ behind, dropBlanks body ≠ ']' :: behind) ∧ Reads (elements body) found rest) := by
  rw [value.eq_def]
  split
  · rename_i body
    simp only [List.cons.injEq, true_and, exists_eq_left']
    split
    · rename_i last hbody
      simp [hbody, and_comm, @eq_comm _ last]
    · rename_i hopen
      simp only [reads_bind_iff, reads_pure_iff]
      constructor
      · rintro ⟨_, _, hreads, heq, rfl⟩
        cases heq
        exact .inr ⟨hopen, hreads⟩
      · rintro (⟨hbody, -⟩ | ⟨-, hreads⟩)
        · exact absurd hbody (hopen rest)
        · exact ⟨found, rest, hreads, rfl, rfl⟩
  · rename_i body
    simp only [List.cons.injEq, Char.reduceEq, false_and, exists_false, iff_false]
    split
    · simp
    · simp only [reads_bind_iff, reads_pure_iff, reduceCtorEq, false_and, exists_false,
        not_false_eq_true]
  · rename_i body
    simp only [reads_bind_iff, reads_pure_iff, reduceCtorEq, false_and, exists_false,
      List.cons.injEq, Char.reduceEq]
  · rename_i hbracket hbrace hquote
    constructor
    · intro hreads
      cases isScalar_of_reads hreads
    · rintro ⟨body, rfl, -⟩
      exact absurd rfl (hbracket body)

theorem reads_value_object_iff {found : List (Option Text × Value)} :
    Reads (value text) (.object found) rest ↔
      ∃ body, text = '\x7b' :: body ∧
        (dropBlanks body = '\x7d' :: rest ∧ found = [] ∨
          (∀ behind, dropBlanks body ≠ '\x7d' :: behind) ∧ Reads (members body) found rest) := by
  rw [value.eq_def]
  split
  · rename_i body
    simp only [List.cons.injEq, Char.reduceEq, false_and, exists_false, iff_false]
    split
    · simp
    · simp only [reads_bind_iff, reads_pure_iff, reduceCtorEq, false_and, exists_false,
        not_false_eq_true]
  · rename_i body
    simp only [List.cons.injEq, true_and, exists_eq_left']
    split
    · rename_i last hbody
      simp [hbody, and_comm, @eq_comm _ last]
    · rename_i hopen
      simp only [reads_bind_iff, reads_pure_iff]
      constructor
      · rintro ⟨_, _, hreads, heq, rfl⟩
        cases heq
        exact .inr ⟨hopen, hreads⟩
      · rintro (⟨hbody, -⟩ | ⟨-, hreads⟩)
        · exact absurd hbody (hopen rest)
        · exact ⟨found, rest, hreads, rfl, rfl⟩
  · rename_i body
    simp only [reads_bind_iff, reads_pure_iff, reduceCtorEq, false_and, exists_false,
      List.cons.injEq, Char.reduceEq]
  · rename_i hbracket hbrace hquote
    constructor
    · intro hreads
      cases isScalar_of_reads hreads
    · rintro ⟨body, rfl, -⟩
      exact absurd rfl (hbrace body)

theorem reads_value_string_iff {found : Option Text} :
    Reads (value text) (.string found) rest ↔ Reads (string text) found rest := by
  rw [value.eq_def]
  split
  · rename_i body
    simp only [reads_string_iff_pieces, List.cons.injEq, Char.reduceEq, false_and, exists_false,
      iff_false]
    split
    · simp
    · simp only [reads_bind_iff, reads_pure_iff, reduceCtorEq, false_and, exists_false,
        not_false_eq_true]
  · rename_i body
    simp only [reads_string_iff_pieces, List.cons.injEq, Char.reduceEq, false_and, exists_false,
      iff_false]
    split
    · simp
    · simp only [reads_bind_iff, reads_pure_iff, reduceCtorEq, false_and, exists_false,
        not_false_eq_true]
  · rename_i body
    simp only [reads_bind_iff, reads_pure_iff, Value.string.injEq]
    constructor
    · rintro ⟨_, _, hreads, rfl, rfl⟩
      exact hreads
    · intro hreads
      exact ⟨found, rest, hreads, rfl, rfl⟩
  · rename_i hbracket hbrace hquote
    rw [reads_string_iff_pieces]
    constructor
    · intro hreads
      cases isScalar_of_reads hreads
    · rintro ⟨body, rfl, -⟩
      exact absurd rfl (hquote body)

theorem reads_value_scalar_iff {result : Value} (hscalar : result.isScalar) :
    Reads (value text) result rest ↔ Reads (scalar text) result rest := by
  have hstring : ∀ found, result ≠ .string found := by
    rintro found rfl
    cases hscalar
  have harray : ∀ found, result ≠ .array found := by
    rintro found rfl
    cases hscalar
  have hobject : ∀ found, result ≠ .object found := by
    rintro found rfl
    cases hscalar
  rw [value.eq_def]
  split
  · rename_i body
    simp only [not_reads_scalar (.inl rfl), iff_false]
    split
    · simp [harray]
    · simp only [reads_bind_iff, reads_pure_iff, harray, false_and, exists_false,
        not_false_eq_true]
  · rename_i body
    simp only [not_reads_scalar (.inr (.inl rfl)), iff_false]
    split
    · simp [hobject]
    · simp only [reads_bind_iff, reads_pure_iff, hobject, false_and, exists_false,
        not_false_eq_true]
  · rename_i body
    simp only [not_reads_scalar (.inr (.inr rfl)), reads_bind_iff, reads_pure_iff, hstring,
      false_and, exists_false]
  · rfl

end ArrayPatch.Json
