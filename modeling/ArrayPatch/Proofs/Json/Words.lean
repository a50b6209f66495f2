import ArrayPatch.Proofs.Json.Strings
import ArrayPatch.Proofs.Scan.Passing

/-!
# Words and numbers of JSON texts

The reader of JSON takes the longest run of word characters and asks whether it
is a word or a number.  No word character delimits a literal, so every word and
every number is a literal, and it is read to its end wherever a literal may end.
-/

namespace ArrayPatch.Json

open Grammar

variable {text rest run : Text} {result : Value}

/-- Whether a value is a word or a number. -/
def Value.isScalar : Value → Bool
  | .null | .bool _ | .number _ => true
  | _ => false

/-- A text goes on with characters of a number, and then with another text. -/
def PassesNumber (text rest : Text) : Prop :=
  ∃ part, text = part ++ rest ∧ ∀ c ∈ part, isNumberChar c

namespace PassesNumber

theorem refl (text : Text) : PassesNumber text text :=
  ⟨[], rfl, List.forall_mem_nil _⟩

theorem trans {mid : Text} (hfirst : PassesNumber text mid) (hsecond : PassesNumber mid rest) :
    PassesNumber text rest := by
  obtain ⟨first, rfl, hfirst⟩ := hfirst
  obtain ⟨second, rfl, hsecond⟩ := hsecond
  refine ⟨first ++ second, (List.append_assoc ..).symm, ?_⟩
  intro c hc
  rcases List.mem_append.mp hc with hc | hc
  · exact hfirst c hc
  · exact hsecond c hc

theorem cons {c : Char} (hc : isNumberChar c) (hrest : PassesNumber text rest) :
    PassesNumber (c :: text) rest := by
  obtain ⟨part, rfl, hpart⟩ := hrest
  exact ⟨c :: part, rfl, List.forall_mem_cons.mpr ⟨hc, hpart⟩⟩

theorem isNumberChar_of_mem (hnil : PassesNumber text []) {c : Char} (hc : c ∈ text) :
    isNumberChar c := by
  obtain ⟨part, rfl, hpart⟩ := hnil
  rw [List.append_nil] at hc
  exact hpart c hc

end PassesNumber

theorem isNumberChar_of_isDigit {c : Char} (hc : c.isDigit) : isNumberChar c := by
  simp [isNumberChar, hc]

theorem passesNumber_of_afterDigits (hafter : afterDigits text = some rest) :
    PassesNumber text rest := by
  cases text with
  | nil => cases hafter
  | cons c text =>
      rw [afterDigits, Option.ite_none_right_eq_some] at hafter
      obtain ⟨hc, hrest⟩ := hafter
      cases hrest
      refine .cons (isNumberChar_of_isDigit hc)
        ⟨text.takeWhile Char.isDigit, List.takeWhile_append_dropWhile.symm, ?_⟩
      intro d hd
      exact isNumberChar_of_isDigit (List.all_eq_true.mp List.all_takeWhile d hd)

theorem passesNumber_of_afterInteger (hafter : afterInteger text = some rest) :
    PassesNumber text rest := by
  rw [afterInteger.eq_def] at hafter
  split at hafter
  · cases hafter
    exact .cons rfl (.refl _)
  · exact passesNumber_of_afterDigits hafter

theorem passesNumber_of_afterFraction (hafter : afterFraction text = some rest) :
    PassesNumber text rest := by
  rw [afterFraction.eq_def] at hafter
  split at hafter
  · exact .cons rfl (passesNumber_of_afterDigits hafter)
  · cases hafter
    exact .refl _

theorem passesNumber_of_afterExponent (hafter : afterExponent text = some rest) :
    PassesNumber text rest := by
  rw [afterExponent.eq_def] at hafter
  split at hafter
  · cases hafter
    exact .refl _
  · rename_i c behind
    split at hafter
    · rename_i hexponent
      have hc : isNumberChar c := by
        rcases hexponent with rfl | rfl <;> rfl
      split at hafter
      · cases hafter
      · rename_i sign digits
        split at hafter
        · rename_i hsign
          have hsign : isNumberChar sign := by
            rcases hsign with rfl | rfl <;> rfl
          exact .cons hc (.cons hsign (passesNumber_of_afterDigits hafter))
        · exact .cons hc (passesNumber_of_afterDigits hafter)
    · cases hafter
      exact .refl _

/-- A number is made of the characters of numbers. -/
theorem passesNumber_of_isNumber (hnumber : isNumber text) : PassesNumber text [] := by
  simp only [isNumber, beq_iff_eq, Option.bind_eq_bind, Option.bind_eq_some_iff] at hnumber
  obtain ⟨afterPoint, ⟨afterWhole, hinteger, hfraction⟩, hexponent⟩ := hnumber
  have hunsigned := ((passesNumber_of_afterInteger hinteger).trans
    (passesNumber_of_afterFraction hfraction)).trans (passesNumber_of_afterExponent hexponent)
  split at hunsigned
  · rename_i hsign
    obtain ⟨digits, rfl⟩ := List.head?_eq_some_iff.mp hsign
    exact .cons rfl hunsigned
  · exact hunsigned

/-! ## Words -/

/-- What is read as a word or a number is made of word characters. -/
theorem isWordChar_of_word (hword : word run = some result) : ∀ c ∈ run, isWordChar c := by
  rw [word] at hword
  split_ifs at hword with hnull htrue hfalse hnumber
  · rw [hnull]
    exact List.all_eq_true.mp rfl
  · rw [htrue]
    exact List.all_eq_true.mp rfl
  · rw [hfalse]
    exact List.all_eq_true.mp rfl
  · intro c hc
    rw [isWordChar, (passesNumber_of_isNumber hnumber).isNumberChar_of_mem hc, Bool.or_true]

theorem ne_nil_of_word (hword : word run = some result) : run ≠ [] := by
  rintro rfl
  cases hword

/-- Word characters neither delimit literals nor start other values. -/
theorem not_isWordChar {c : Char} (hc : IsDelimiter c ∨ c = '\x7b' ∨ c = '[' ∨ c = '"') :
    isWordChar c = false := by
  simp only [IsDelimiter, isBlank, Bool.or_eq_true, beq_iff_eq] at hc
  rcases hc with (((((rfl | rfl) | rfl) | rfl) | rfl | rfl | rfl)) | rfl | rfl | rfl <;> rfl

/-- Words and numbers are literals. -/
theorem isLiteral_of_word (hword : word run = some result) : IsLiteral run := by
  have hchars := isWordChar_of_word hword
  obtain ⟨c, behind, rfl⟩ := List.exists_cons_of_ne_nil (ne_nil_of_word hword)
  have hfirst := hchars c List.mem_cons_self
  refine ⟨?_, c, behind, rfl, ?_, ?_, ?_⟩
  · intro d hd hdelimiter
    have hother := hchars d hd
    rw [not_isWordChar (.inl hdelimiter)] at hother
    cases hother
  · rintro rfl
    cases hfirst
  · rintro rfl
    cases hfirst
  · rintro rfl
    cases hfirst

/-- What is read at the start of a text is a word or a number. -/
theorem exists_word_of_reads (hreads : Reads (scalar text) result rest) :
    ∃ run, text = run ++ rest ∧ word run = some result := by
  cases text with
  | nil => exact absurd hreads not_reads_none
  | cons c behind =>
      rw [scalar] at hreads
      split at hreads
      · cases hword : word (c :: behind.takeWhile isWordChar) with
        | none =>
            rw [hword] at hreads
            exact absurd hreads not_reads_none
        | some value =>
            rw [hword] at hreads
            obtain ⟨rfl, rfl⟩ := reads_pure_iff.mp hreads
            refine ⟨_, ?_, hword⟩
            rw [List.cons_append, List.takeWhile_append_dropWhile]
      · exact absurd hreads not_reads_none

theorem isScalar_of_reads (hreads : Reads (scalar text) result rest) :
    result.isScalar := by
  obtain ⟨run, -, hword⟩ := exists_word_of_reads hreads
  rw [word] at hword
  split_ifs at hword
  all_goals
    cases hword
    rfl

theorem not_reads_scalar {c : Char} {body : Text}
    (hc : c = '[' ∨ c = '\x7b' ∨ c = '"') : ¬ Reads (scalar (c :: body)) result rest := by
  have hword : isWordChar c = false := by
    rcases hc with rfl | rfl | rfl <;> rfl
  rw [scalar, hword]
  exact not_reads_none

/-- A word or a number is read to its end where a literal may end. -/
theorem reads_scalar_of_word (hword : word run = some result) (hrest : Delimited rest) :
    Reads (scalar (run ++ rest)) result rest := by
  have hchars := isWordChar_of_word hword
  obtain ⟨c, behind, rfl⟩ := List.exists_cons_of_ne_nil (ne_nil_of_word hword)
  obtain ⟨hfirst, hbehind⟩ := List.forall_mem_cons.mp hchars
  have hstop : ∀ d ∈ rest.head?, ¬ isWordChar d := by
    intro d hd
    rw [not_isWordChar (.inl (hrest d hd))]
    exact Bool.false_ne_true
  rw [List.cons_append, scalar, if_pos hfirst]
  simp only [Text.takeWhile_run_append hbehind hstop, hword]
  exact reads_pure_iff.mpr ⟨rfl, (Text.dropWhile_run_append hbehind hstop).symm⟩

end ArrayPatch.Json
