import ArrayPatch.Proofs.Text.Bytes
import Mathlib.Data.Char
import Mathlib.Order.Basic

/-!
# The order of texts

Texts are compared character by character, by code point.  Comparing their bytes
comes to the same: the bytes of the smaller one of two characters are smaller at
the first place where they differ, and no character starts with the bytes of
another one.
-/

namespace ArrayPatch.Text

open String (utf8EncodeChar)

theorem ofNat_lt_ofNat_iff {m n : Nat} (hm : m < 256) (hn : n < 256) :
    UInt8.ofNat m < UInt8.ofNat n ↔ m < n := by
  rw [UInt8.lt_iff_toNat_lt, UInt8.toNat_ofNat_of_lt' hm, UInt8.toNat_ofNat_of_lt' hn]

theorem ofNat_eq_ofNat_iff {m n : Nat} (hm : m < 256) (hn : n < 256) :
    UInt8.ofNat m = UInt8.ofNat n ↔ m = n := by
  rw [← UInt8.toNat_inj, UInt8.toNat_ofNat_of_lt' hm, UInt8.toNat_ofNat_of_lt' hn]

theorem toNat_val_lt (c : Char) : c.val.toNat < 0x110000 := by
  rcases c.valid with hlow | ⟨-, hhigh⟩
  · exact Nat.lt_trans hlow (by decide)
  · exact hhigh

/-- The bytes of a smaller character are smaller, whatever follows. -/
theorem utf8EncodeChar_append_lt {c d : Char} (hlt : c < d) (left right : List UInt8) :
    utf8EncodeChar c ++ left < utf8EncodeChar d ++ right := by
  have hvalue : c.val.toNat < d.val.toNat := hlt
  have hmax := toNat_val_lt d
  have hdiv (n : Nat) : n / 4096 = n / 64 / 64 ∧ n / 262144 = n / 64 / 64 / 64 := by omega
  simp only [utf8EncodeChar, hdiv]
  generalize c.val.toNat = m at *
  generalize d.val.toNat = n at *
  clear hlt
  -- One case for each pair of widths; the one of the smaller character is not greater.
  repeat' split
  all_goals
    simp (disch := omega) only [List.cons_append, List.nil_append, List.cons_lt_cons_iff,
      ofNat_lt_ofNat_iff, ofNat_eq_ofNat_iff]
    omega

/-- Bytes in front of both lists do not matter. -/
theorem append_lt_append_iff {front left right : List UInt8} :
    front ++ left < front ++ right ↔ left < right := by
  induction front with
  | nil => exact Iff.rfl
  | cons b front ih =>
      rw [List.cons_append, List.cons_append, List.cons_lt_cons_iff, ih]
      simp

/-- The order of texts is the order of their bytes. -/
theorem bytes_lt_bytes_iff {left right : Text} : left.bytes < right.bytes ↔ left < right := by
  induction left generalizing right with
  | nil =>
      cases right with
      | nil => simp
      | cons d right =>
          obtain ⟨b, more, hbytes, -⟩ := exists_bytes_cons_eq_cons d right
          rw [hbytes]
          exact iff_of_true (List.nil_lt_cons b more) (List.nil_lt_cons d right)
  | cons c left ih =>
      cases right with
      | nil => simp
      | cons d right =>
          rw [bytes_cons, bytes_cons, List.cons_lt_cons_iff]
          rcases lt_trichotomy c d with hlt | rfl | hgt
          · exact iff_of_true (utf8EncodeChar_append_lt hlt _ _) (.inl hlt)
          · rw [append_lt_append_iff, ih]
            simp
          · have hbytes := utf8EncodeChar_append_lt hgt (bytes right) (bytes left)
            have hnot : ¬ (c < d ∨ c = d ∧ left < right) := by
              rintro (hlt | ⟨rfl, -⟩)
              · exact lt_asymm hgt hlt
              · exact lt_irrefl c hgt
            exact iff_of_false (List.lt_asymm hbytes) hnot

end ArrayPatch.Text
