import ArrayPatch.Text
import Mathlib.Tactic.Common

/-!
# Parts of a text

A part of a text is given by what it reads and by where it starts.  The offset
at which the text itself starts is an argument, so that parts of parts need no
translation.

Both ends of a part are boundaries of the text, and between any two boundaries
lies a part.
-/

namespace ArrayPatch.Text

theorem size_eq_zero_iff {text : Text} : text.size = 0 ↔ text = [] := by
  cases text with
  | nil => simp
  | cons c text =>
      have hwidth := c.utf8Size_pos
      simp only [size_cons, reduceCtorEq, iff_false]
      omega

/-- Characters of one byte are as many as their bytes. -/
theorem size_eq_length {text : Text} (hwidth : ∀ c ∈ text, c.utf8Size = 1) :
    text.size = text.length := by
  induction text with
  | nil => rfl
  | cons c text ih =>
      obtain ⟨hc, htext⟩ := List.forall_mem_cons.mp hwidth
      rw [size_cons, hc, ih htext, List.length_cons, Nat.add_comm]

/-- Of two ways to cut a text the one further left is cut again by the other. -/
theorem exists_eq_append_of_size_le {left right left' right' : Text}
    (htext : left ++ right = left' ++ right') (hle : left.size ≤ left'.size) :
    ∃ mid, left' = left ++ mid ∧ right = mid ++ right' := by
  rcases List.append_eq_append_iff.mp htext with hmid | ⟨mid, rfl, rfl⟩
  · exact hmid
  · rw [size_append] at hle
    obtain rfl := size_eq_zero_iff.mp (show size mid = 0 by omega)
    exact ⟨[], by simp, rfl⟩

section Runs

variable {p : Char → Bool} {run rest : Text} (hrun : ∀ c ∈ run, p c)
variable (hstop : ∀ c ∈ rest.head?, ¬ p c)

include hrun hstop

/-- A run of a class of characters ends before a character outside the class. -/
theorem takeWhile_run_append : (run ++ rest).takeWhile p = run := by
  rw [List.takeWhile_append_of_pos hrun]
  cases rest with
  | nil => simp
  | cons c rest => simp [hstop c rfl]

/-- Behind a run stands the first character outside the class. -/
theorem dropWhile_run_append : (run ++ rest).dropWhile p = rest := by
  rw [List.dropWhile_append_of_pos hrun]
  cases rest with
  | nil => rfl
  | cons c rest => simp [hstop c rfl]

end Runs

/-- In a text that starts at an offset another text stands at `start`. -/
def HasAt (text : Text) (offset : Nat) (part : Text) (start : Nat) : Prop :=
  ∃ before after, text = before ++ part ++ after ∧ offset + before.size = start

namespace HasAt

variable {text part : Text} {offset start : Nat}

theorem refl (text : Text) (offset : Nat) : HasAt text offset text offset :=
  ⟨[], [], (List.append_nil text).symm, rfl⟩

theorem trans {mid : Text} {between : Nat} (hmid : text.HasAt offset mid between)
    (hpart : mid.HasAt between part start) : text.HasAt offset part start := by
  obtain ⟨before, after, rfl, rfl⟩ := hmid
  obtain ⟨first, last, rfl, rfl⟩ := hpart
  refine ⟨before ++ first, last ++ after, ?_, ?_⟩
  · simp only [List.append_assoc]
  · rw [size_append, Nat.add_assoc]

theorem append (hpart : text.HasAt offset part start) (more : Text) :
    (text ++ more).HasAt offset part start :=
  HasAt.trans ⟨[], more, rfl, rfl⟩ hpart

theorem bounds (hpart : text.HasAt offset part start) :
    offset ≤ start ∧ start + part.size ≤ offset + text.size := by
  obtain ⟨before, after, rfl, rfl⟩ := hpart
  simp only [size_append]
  omega

/-- A part of a text that starts at zero is what a slice takes out. -/
theorem slice?_eq_some (hpart : text.HasAt 0 part start) :
    text.slice? start (start + part.size) = some part := by
  obtain ⟨before, after, rfl, rfl⟩ := hpart
  apply slice?_eq_some_iff.mpr
  exact ⟨before, after, rfl, (Nat.zero_add _).symm, by rw [Nat.zero_add]⟩

end HasAt

/-! ## Boundaries -/

/-- A whole number of characters of a text takes as many bytes as an offset
says. -/
def IsBoundary (text : Text) (offset : Nat) : Prop :=
  ∃ before after, text = before ++ after ∧ before.size = offset

section Boundaries

variable {text front back : Text} {start stop : Nat}

/-- Both ends of a part are boundaries. -/
theorem HasAt.isBoundary {part : Text} (hpart : text.HasAt 0 part start) :
    text.IsBoundary start ∧ text.IsBoundary (start + part.size) := by
  obtain ⟨before, after, rfl, rfl⟩ := hpart
  rw [Nat.zero_add]
  exact ⟨⟨before, part ++ after, List.append_assoc _ _ _, rfl⟩,
    before ++ part, after, rfl, size_append _ _⟩

theorem IsBoundary.le_size (hboundary : text.IsBoundary start) : start ≤ text.size := by
  obtain ⟨before, after, rfl, rfl⟩ := hboundary
  rw [size_append]
  exact Nat.le_add_right _ _

/-- A range can be taken out of a text exactly if its ends are boundaries in
order. -/
theorem isSome_slice?_iff :
    (text.slice? start stop).isSome ↔
      start ≤ stop ∧ text.IsBoundary start ∧ text.IsBoundary stop := by
  constructor
  · intro hsome
    obtain ⟨middle, hslice⟩ := Option.isSome_iff_exists.mp hsome
    obtain ⟨before, after, rfl, rfl, rfl⟩ := slice?_eq_some_iff.mp hslice
    refine ⟨Nat.le_add_right _ _, ⟨before, middle ++ after, List.append_assoc _ _ _, rfl⟩, ?_⟩
    exact ⟨before ++ middle, after, rfl, size_append _ _⟩
  · rintro ⟨hle, ⟨before, behind, rfl, rfl⟩, head, after, htext, rfl⟩
    obtain ⟨middle, rfl, rfl⟩ := exists_eq_append_of_size_le htext hle
    apply Option.isSome_iff_exists.mpr
    refine ⟨middle, slice?_eq_some_iff.mpr ⟨before, after, ?_, rfl, (size_append _ _).symm⟩⟩
    rw [List.append_assoc]

/-- A range of the front of a text is taken out of the front. -/
theorem slice?_append_of_le (hle : stop ≤ front.size) :
    (front ++ back).slice? start stop = front.slice? start stop := by
  apply Option.ext
  intro middle
  rw [slice?_eq_some_iff, slice?_eq_some_iff]
  constructor
  · rintro ⟨before, after, htext, rfl, rfl⟩
    rw [← size_append] at hle
    obtain ⟨rest, rfl, -⟩ := exists_eq_append_of_size_le htext.symm hle
    exact ⟨before, rest, rfl, rfl, rfl⟩
  · rintro ⟨before, after, rfl, rfl, rfl⟩
    exact ⟨before, after ++ back, by rw [List.append_assoc], rfl, rfl⟩

end Boundaries

end ArrayPatch.Text
