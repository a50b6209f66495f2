import ArrayPatch.Proofs.Json.Words
import Mathlib.Data.List.Basic
import Mathlib.Data.List.TakeWhile

/-!
# Written numbers

A natural number is written with its decimal digits.  No leading zero is written, so
the digits are a JSON number, and they are read back as the number.
-/

namespace ArrayPatch.Json

variable {n : Nat}

theorem head?_toDigits_ne_zero (hn : 0 < n) : (Nat.toDigits 10 n).head? ≠ some '0' := by
  induction n using Nat.strongRecOn with
  | ind n ih =>
      have hsingle : ∀ m < 10, 0 < m → [Nat.digitChar m].head? ≠ some '0' := by decide
      rw [Nat.toDigits_eq_if (by decide)]
      split
      · rename_i hlt
        exact hsingle n hlt hn
      · rw [List.head?_append_of_ne_nil _ Nat.toDigits_ne_nil]
        exact ih (n / 10) (by omega) (by omega)

theorem isNumber_of_digits {c : Char} {rest : Text} (hdigits : ∀ d ∈ c :: rest, d.isDigit)
    (hzero : c = '0' → rest = []) : isNumber (c :: rest) := by
  have hsign : c ≠ '-' := by
    rintro rfl
    exact absurd (hdigits '-' List.mem_cons_self) (by decide)
  have hinteger : afterInteger (c :: rest) = some [] := by
    by_cases hc : c = '0'
    · rw [hc, hzero hc]
      rfl
    · rw [afterInteger.eq_2 _ fun rest hrest => hc (List.cons.inj hrest).1, afterDigits,
        if_pos (hdigits c List.mem_cons_self)]
      refine congrArg some (List.dropWhile_eq_nil_iff.mpr ?_)
      exact fun d hd => hdigits d (List.mem_cons_of_mem c hd)
  have hhead : (c :: rest).head? ≠ some '-' := by simpa using hsign
  rw [isNumber, if_neg hhead, hinteger]
  rfl

/-- A written number is read as a number. -/
theorem word_toDigits (n : Nat) :
    word (Nat.toDigits 10 n) = some (.number (Nat.toDigits 10 n)) := by
  have hdigits : ∀ d ∈ Nat.toDigits 10 n, d.isDigit :=
    fun d => Nat.isDigit_of_mem_toDigits (by decide) (by decide)
  have hother : ∀ {letters : Text} {c : Char}, c ∈ letters → ¬ c.isDigit →
      Nat.toDigits 10 n ≠ letters := by
    rintro letters c hc hletter rfl
    exact hletter (hdigits c hc)
  have hnumber : isNumber (Nat.toDigits 10 n) := by
    obtain ⟨c, rest, htext⟩ := List.exists_cons_of_ne_nil (Nat.toDigits_ne_nil (n := n) (b := 10))
    rw [htext] at hdigits ⊢
    apply isNumber_of_digits hdigits
    rintro rfl
    rcases Nat.eq_zero_or_pos n with rfl | hn
    · exact (List.cons.inj htext).2.symm
    · exact absurd (by rw [htext]; rfl) (head?_toDigits_ne_zero hn)
  rw [word, if_neg (hother (c := 'u') (by decide) (by decide)),
    if_neg (hother (c := 't') (by decide) (by decide)),
    if_neg (hother (c := 'f') (by decide) (by decide)), if_pos hnumber]

/-- A number below 2^64 is read back from its digits. -/
theorem asNatural?_toDigits (hn : n < UInt64.size) :
    (Value.number (Nat.toDigits 10 n)).asNatural? = some n := by
  have hall : (Nat.toDigits 10 n).all Char.isDigit :=
    List.all_eq_true.mpr fun d => Nat.isDigit_of_mem_toDigits (by decide) (by decide)
  have hvalue : (Nat.toDigits 10 n).foldl (fun n c => n * 10 + (c.toNat - '0'.toNat)) 0 = n := by
    have hdigits := Nat.ofDigitChars_toDigits (n := n) (b := 10) (by decide) (by decide)
    simpa only [Nat.ofDigitChars_eq_foldl, Nat.mul_comm] using hdigits
  rw [Value.asNatural?, if_pos hall]
  dsimp only
  rw [hvalue, if_pos hn]

end ArrayPatch.Json
