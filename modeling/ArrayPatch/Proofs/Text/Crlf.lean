import ArrayPatch.Proofs.Text.Before
import Mathlib.Data.List.Infix

/-!
# Carriage returns in front of line feeds

`crlf` puts a carriage return in front of every line feed of a text.  It treats
the parts of a text one by one and loses nothing.  An offset moves on by the
number of line feeds before it; `Follows` says of a map of offsets that it does
this along a part of a text, so that parts of parts can be looked at without the
whole.
-/

namespace ArrayPatch.Text

/-- A text with a carriage return in front of every line feed. -/
def crlf (text : Text) : Text :=
  text.flatMap fun c => if c = '\n' then ['\r', '\n'] else [c]

variable {text first second : Text} {c : Char}

@[simp]
theorem crlf_nil : crlf [] = [] :=
  rfl

@[simp]
theorem crlf_append (first second : Text) :
    crlf (first ++ second) = crlf first ++ crlf second :=
  List.flatMap_append

theorem crlf_cons_feed (text : Text) : crlf ('\n' :: text) = '\r' :: '\n' :: crlf text :=
  rfl

@[simp]
theorem crlf_cons (hc : c ≠ '\n') (text : Text) : crlf (c :: text) = c :: crlf text := by
  simp [crlf, hc]

theorem crlf_eq_self (hfeed : '\n' ∉ text) : crlf text = text := by
  induction text with
  | nil => rfl
  | cons c text ih =>
      rw [List.mem_cons, not_or] at hfeed
      rw [crlf_cons (Ne.symm hfeed.1), ih hfeed.2]

/-- Every line feed takes one byte more. -/
theorem size_crlf (text : Text) : text.crlf.size = text.size + text.count '\n' := by
  induction text with
  | nil => rfl
  | cons c text ih =>
      by_cases hc : c = '\n'
      · subst hc
        have hreturn : Char.utf8Size '\r' = 1 := rfl
        rw [crlf_cons_feed, size_cons, size_cons, size_cons, ih, List.count_cons_self, hreturn]
        omega
      · rw [crlf_cons hc, size_cons, size_cons, ih, List.count_cons_of_ne hc, Nat.add_assoc]

theorem head?_crlf_ne (text : Text) : text.crlf.head? ≠ some '\n' := by
  cases text with
  | nil => simp
  | cons c text =>
      by_cases hc : c = '\n'
      · simp [hc, crlf_cons_feed]
      · simp [hc]

/-- A text can be told from what it becomes: a carriage return that was put in is
the one right before a line feed. -/
theorem crlf_injective : Function.Injective crlf := by
  -- A carriage return of the text itself is not followed by a line feed.
  have hreturn : ∀ first second : Text, '\r' :: crlf first ≠ '\r' :: '\n' :: second := by
    intro first second heq
    apply head?_crlf_ne first
    rw [(List.cons.inj heq).2]
    rfl
  intro first
  induction first with
  | nil =>
      intro second heq
      cases second with
      | nil => rfl
      | cons d second =>
          by_cases hd : d = '\n'
          · simp [hd, crlf_cons_feed] at heq
          · simp [hd] at heq
  | cons c first ih =>
      intro second heq
      cases second with
      | nil =>
          by_cases hc : c = '\n'
          · simp [hc, crlf_cons_feed] at heq
          · simp [hc] at heq
      | cons d second =>
          by_cases hc : c = '\n' <;> by_cases hd : d = '\n'
          · subst hc hd
            rw [crlf_cons_feed, crlf_cons_feed] at heq
            rw [ih (List.cons.inj (List.cons.inj heq).2).2]
          · subst hc
            rw [crlf_cons_feed, crlf_cons hd] at heq
            obtain rfl := (List.cons.inj heq).1
            exact absurd heq.symm (hreturn second _)
          · subst hd
            rw [crlf_cons_feed, crlf_cons hc] at heq
            obtain rfl := (List.cons.inj heq).1
            exact absurd heq (hreturn first _)
          · rw [crlf_cons hc, crlf_cons hd] at heq
            obtain ⟨rfl, hrest⟩ := List.cons.inj heq
            rw [ih hrest]

/-! ## Offsets -/

/-- A map of offsets takes every boundary of a text that starts at an offset to the
boundary of the text with carriage returns. -/
def Follows (f : Nat → Nat) (offset : Nat) (text : Text) : Prop :=
  ∀ before behind, text = before ++ behind →
    f (offset + before.size) = f offset + before.crlf.size

namespace Follows

variable {f : Nat → Nat} {offset start : Nat}

theorem size (hfollows : Follows f offset text) :
    f (offset + text.size) = f offset + text.crlf.size :=
  hfollows text [] (List.append_nil text).symm

theorem left (hfollows : Follows f offset (first ++ second)) : Follows f offset first := by
  rintro before behind rfl
  exact hfollows before (behind ++ second) (List.append_assoc _ _ _)

theorem right (hfollows : Follows f offset (first ++ second)) :
    Follows f (offset + first.size) second := by
  rintro before behind rfl
  have hmid := hfollows.left.size
  have hend := hfollows (first ++ before) behind (List.append_assoc _ _ _).symm
  rw [size_append, crlf_append, size_append, ← Nat.add_assoc] at hend
  rw [hend, hmid, Nat.add_assoc]

/-- An item between two texts: where it starts and where it stops, before and with
carriage returns. -/
theorem split {front item more newItem : Text} {moved : Nat}
    (hfollows : Follows f offset (front ++ item ++ more)) (hstart : start = offset + front.size)
    (hmoved : moved = f offset + front.crlf.size) (hitem : newItem = item.crlf) :
    Follows f start item ∧ Follows f (start + item.size) more ∧ moved = f start ∧
      moved + newItem.size = f (start + item.size) := by
  subst hstart hmoved hitem
  have hmore := hfollows.right
  have hsize := hfollows.left.right.size
  rw [size_append, ← Nat.add_assoc] at hmore
  rw [← hfollows.left.left.size, hsize]
  exact ⟨hfollows.left.right, hmore, rfl, rfl⟩

end Follows

/-- The number of the bytes before an offset when every line feed among them takes
one more. -/
def shift (text : Text) (offset : Nat) : Nat :=
  offset + (text.upTo offset).count '\n'

/-- Offsets keep their order. -/
theorem shift_le_shift_iff {offset later : Nat} :
    text.shift offset ≤ text.shift later ↔ offset ≤ later := by
  have hcount : ∀ {offset later : Nat}, offset ≤ later →
      (text.upTo offset).count '\n' ≤ (text.upTo later).count '\n' :=
    fun hle => (upTo_prefix_upTo text hle).sublist.count_le '\n'
  constructor
  · intro hshift
    by_contra hlt
    have hless := hcount (Nat.le_of_not_le hlt)
    rw [shift, shift] at hshift
    omega
  · intro hle
    exact Nat.add_le_add hle (hcount hle)

/-- Every boundary is taken to the boundary with carriage returns before it. -/
theorem shift_size (before behind : Text) :
    (before ++ behind).shift before.size = before.crlf.size := by
  rw [shift, upTo_append (Nat.le_refl _), upTo_size, size_crlf]

/-- Offsets before what is exchanged are moved as before. -/
theorem shift_append {before : Text} {offset : Nat} (hle : offset ≤ before.size) (behind : Text) :
    (before ++ behind).shift offset = before.shift offset := by
  rw [shift, upTo_append hle, shift]

theorem follows_shift (text : Text) : Follows text.shift 0 text := by
  rintro before behind rfl
  have hzero := shift_size [] (before ++ behind)
  rw [List.nil_append, size_nil, crlf_nil, size_nil] at hzero
  rw [Nat.zero_add, shift_size, hzero, Nat.zero_add]

end ArrayPatch.Text
