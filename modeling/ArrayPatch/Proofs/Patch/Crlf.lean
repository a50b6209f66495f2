import ArrayPatch.Proofs.Patch.Order
import ArrayPatch.Proofs.Text.Crlf

/-!
# Applying patches with carriage returns

Patches of a text become patches of the text with carriage returns when their
ranges are moved on and their texts take carriage returns too.  They are applied
in the same order, overlap in the same places, and what they make of the text
with carriage returns is what they made before, with carriage returns.
-/

namespace ArrayPatch.Patch

/-- A patch with carriage returns, its range moved on. -/
def crlf (shift : Nat → Nat) (patch : Patch) : Patch where
  identifier := patch.identifier
  start := shift patch.start
  stop := shift patch.stop
  text := patch.text.crlf

variable {document out : Text} {patches : List Patch} {shift : Nat → Nat}

section Order

variable (hshift : ∀ offset later, shift offset ≤ shift later ↔ offset ≤ later)

include hshift

theorem ordered_crlf (patches : List Patch) :
    ordered (patches.map (crlf shift)) = (ordered patches).map (crlf shift) := by
  rw [ordered, ordered, List.map_mergeSort]
  intro left _ right _
  exact decide_eq_decide.mpr (hshift right.start left.start).symm

theorem overlap?_crlf (patches : List Patch) :
    overlap? (patches.map (crlf shift)) =
      (overlap? patches).map (Prod.map (crlf shift) (crlf shift)) := by
  induction patches with
  | nil => rfl
  | cons higher patches ih =>
      cases patches with
      | nil => rfl
      | cons lower patches =>
          have hreach : (crlf shift higher).start < (crlf shift lower).stop ↔
              higher.start < lower.stop := by
            rw [← Nat.not_le, ← Nat.not_le]
            exact not_congr (hshift _ _)
          rw [List.map_cons, List.map_cons, overlap?, overlap?]
          by_cases hoverlap : higher.start < lower.stop
          · rw [if_pos hoverlap, if_pos (hreach.mpr hoverlap)]
            rfl
          · rw [if_neg hoverlap, if_neg (hreach.not.mpr hoverlap)]
            exact ih

end Order

/-- Applying one patch.  What is in front of it stays where it is. -/
theorem splice?_crlf {patch : Patch} {next : Text}
    (hsplice : document.splice? patch.start patch.stop patch.text = some next) :
    document.crlf.splice? (document.shift patch.start) (document.shift patch.stop)
        patch.text.crlf = some next.crlf ∧
      ∀ offset ≤ patch.start, next.shift offset = document.shift offset := by
  obtain ⟨before, old, behind, rfl, hstart, hstop, rfl⟩ := Text.splice?_eq_some_iff.mp hsplice
  constructor
  · have hfirst := Text.shift_size before (old ++ behind)
    have hsecond := Text.shift_size (before ++ old) behind
    rw [← List.append_assoc, hstart] at hfirst
    rw [Text.size_append, hstop, Text.crlf_append, Text.size_append] at hsecond
    apply Text.splice?_eq_some_iff.mpr
    exact ⟨before.crlf, old.crlf, behind.crlf, by simp, hfirst.symm, hsecond.symm, by simp⟩
  · intro offset hle
    rw [← hstart] at hle
    rw [List.append_assoc, List.append_assoc, Text.shift_append hle, Text.shift_append hle]

/-- Applying patches of which none reaches into an earlier one. -/
theorem spliceAll_crlf (hdescends : Descends patches)
    (hshift : ∀ patch ∈ patches, ∀ offset ≤ patch.stop, shift offset = document.shift offset)
    (hrange : ∀ patch ∈ patches, patch.start ≤ patch.stop)
    (happly : spliceAll document patches = .ok out) :
    spliceAll document.crlf (patches.map (crlf shift)) = .ok out.crlf := by
  induction patches generalizing document with
  | nil =>
      cases happly
      rfl
  | cons patch patches ih =>
      obtain ⟨hlower, hrest⟩ := List.pairwise_cons.mp hdescends
      obtain ⟨hpatchShift, hrestShift⟩ := List.forall_mem_cons.mp hshift
      obtain ⟨hpatchRange, hrestRange⟩ := List.forall_mem_cons.mp hrange
      rw [spliceAll] at happly
      cases hsplice : document.splice? patch.start patch.stop patch.text with
      | none =>
          rw [hsplice] at happly
          cases happly
      | some next =>
          rw [hsplice] at happly
          obtain ⟨hnext, hkept⟩ := splice?_crlf hsplice
          rw [← hpatchShift _ hpatchRange, ← hpatchShift _ (Nat.le_refl _)] at hnext
          rw [List.map_cons, spliceAll, crlf, hnext]
          apply ih hrest _ hrestRange happly
          intro lower hmem offset hle
          rw [hkept offset (Nat.le_trans hle (hlower lower hmem))]
          exact hrestShift lower hmem offset hle

/-- Applying patches that fit the text unless they overlap. -/
theorem applyAll_crlf (hrange : ∀ patch ∈ patches, patch.start ≤ patch.stop)
    (hfits : overlap? (ordered patches) = none →
      ∃ out, spliceAll document (ordered patches) = .ok out) :
    applyAll (patches.map (crlf document.shift)) document.crlf =
      (applyAll patches document).map Text.crlf := by
  have hshift : ∀ offset later, document.shift offset ≤ document.shift later ↔ offset ≤ later :=
    fun _ _ => Text.shift_le_shift_iff
  rw [applyAll, applyAll, ordered_crlf hshift, overlap?_crlf hshift]
  cases hoverlap : overlap? (ordered patches) with
  | some pair => rfl
  | none =>
      obtain ⟨out, hout⟩ := hfits hoverlap
      have hordered : ∀ patch ∈ ordered patches, patch.start ≤ patch.stop :=
        fun patch hpatch => hrange patch (mem_ordered_iff.mp hpatch)
      have hdescends := descends_of_overlap?_eq_none hordered hoverlap
      rw [hout]
      exact spliceAll_crlf hdescends (fun _ _ _ _ => rfl) hordered hout

end ArrayPatch.Patch
