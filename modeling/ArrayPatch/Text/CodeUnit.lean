import ArrayPatch.Text

/-!
# Code units

A code unit is a number below 65536, written with four hexadecimal digits.  A
code unit outside the surrogate range names the character of that number.  The
other characters are named by a pair: a high surrogate and then a low one.
-/

namespace ArrayPatch.Text

/-- The value of a hexadecimal digit of either case. -/
def hexDigit (c : Char) : Option Nat :=
  if '0' ≤ c ∧ c ≤ '9' then some (c.toNat - '0'.toNat)
  else if 'a' ≤ c ∧ c ≤ 'f' then some (c.toNat - 'a'.toNat + 10)
  else if 'A' ≤ c ∧ c ≤ 'F' then some (c.toNat - 'A'.toNat + 10)
  else none

/-- The code unit that four hexadecimal digits name, and the text after them. -/
def codeUnit : (text : Text) → Option (Nat × { rest : Text // rest.length < text.length })
  | a :: b :: c :: d :: rest => do
      let a ← hexDigit a
      let b ← hexDigit b
      let c ← hexDigit c
      let d ← hexDigit d
      return (((a * 16 + b) * 16 + c) * 16 + d, ⟨rest, by simp only [List.length_cons]; omega⟩)
  | _ => none

/-- What is left of a text when as many characters are passed over as it takes
to have a number of bytes behind. -/
def passBytes? : Nat → Text → Option Text
  | 0, text => some text
  | _ + 1, [] => none
  | count + 1, c :: text => passBytes? (count + 1 - c.utf8Size) text

theorem length_le_of_passBytes? {count : Nat} {text rest : Text}
    (hpass : passBytes? count text = some rest) : rest.length ≤ text.length := by
  induction text generalizing count with
  | nil =>
      cases count with
      | zero => cases hpass; exact Nat.le_refl _
      | succ count => cases hpass
  | cons c text ih =>
      cases count with
      | zero => cases hpass; exact Nat.le_refl _
      | succ count => exact Nat.le_succ_of_le (ih hpass)

/-- Code units that only start a surrogate pair. -/
def isHighSurrogate (unit : Nat) : Bool :=
  0xD800 ≤ unit && unit ≤ 0xDBFF

/-- Code units that only end a surrogate pair. -/
def isLowSurrogate (unit : Nat) : Bool :=
  0xDC00 ≤ unit && unit ≤ 0xDFFF

/-- The character that a surrogate pair names. -/
def pairChar (high low : Nat) : Char :=
  Char.ofNat (0x10000 + (high - 0xD800) * 0x400 + (low - 0xDC00))

end ArrayPatch.Text
