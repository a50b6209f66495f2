import ArrayPatch.Text

/-!
# Classes of space

Three classes are told apart.  *Blanks* separate the tokens of a document.
*Indentation* is what may stand before the first token of a line.  *White
space* is the Unicode property `White_Space`; it contains the other two.
-/

namespace ArrayPatch

/-- The characters that may stand between two tokens. -/
def isBlank (c : Char) : Bool :=
  c == ' ' || c == '\t' || c == '\n' || c == '\r'

/-- The characters that indent a line. -/
def isIndent (c : Char) : Bool :=
  c == ' ' || c == '\t'

/-- The Unicode property `White_Space`. -/
def isWhiteSpace (c : Char) : Bool :=
  [(0x0009, 0x000D), (0x0020, 0x0020), (0x0085, 0x0085), (0x00A0, 0x00A0), (0x1680, 0x1680),
   (0x2000, 0x200A), (0x2028, 0x2029), (0x202F, 0x202F), (0x205F, 0x205F), (0x3000, 0x3000)].any
    fun (first, last) => first ≤ c.toNat && c.toNat ≤ last

theorem isWhiteSpace_of_isBlank {c : Char} (hblank : isBlank c) : isWhiteSpace c := by
  simp only [isBlank, Bool.or_eq_true, beq_iff_eq] at hblank
  rcases hblank with ((rfl | rfl) | rfl) | rfl <;> decide

/-- Indentation is blank. -/
theorem isBlank_of_isIndent {c : Char} (hindent : isIndent c) : isBlank c := by
  simp only [isIndent, Bool.or_eq_true, beq_iff_eq] at hindent
  rcases hindent with rfl | rfl <;> decide

/-- A blank takes one byte. -/
theorem utf8Size_of_isBlank {c : Char} (hblank : isBlank c) : c.utf8Size = 1 := by
  simp only [isBlank, Bool.or_eq_true, beq_iff_eq] at hblank
  rcases hblank with ((rfl | rfl) | rfl) | rfl <;> decide

end ArrayPatch
