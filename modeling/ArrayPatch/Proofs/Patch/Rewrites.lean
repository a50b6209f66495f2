import ArrayPatch.Patch
import ArrayPatch.Proofs.Text.Part
import Mathlib.Algebra.BigOperators.Group.List.Basic
import Mathlib.Algebra.Ring.Int.Defs
import Mathlib.Tactic.Common

/-!
# Rewriting a text by patches

`Rewrites` relates a text to what patches make of it when they are put in place
from left to right: each step copies what stands before the next patch and
exchanges the range of the patch.  Two texts side by side are rewritten
independently, and a rewriting can be cut at every offset that no patch
crosses.  An offset of the old text is found in the new one by adding what the
patches before it change.
-/

namespace ArrayPatch.Patch

/-- How much longer a text gets by a patch. -/
def change (patch : Patch) : Int :=
  patch.text.size - (patch.stop - patch.start)

/-- How much longer a text gets by patches that end at an offset or before. -/
def changeBefore (patches : List Patch) (offset : Nat) : Int :=
  ((patches.filter fun patch => patch.stop ≤ offset).map change).sum

/-- Patches in ascending order rewrite a text that starts at an offset. -/
inductive Rewrites : (patches : List Patch) → (offset : Nat) → (old new : Text) → Prop where
  | done (offset : Nat) (text : Text) : Rewrites [] offset text text
  | step {patch : Patch} {patches : List Patch} {offset : Nat} {kept old rest new : Text}
      (hstart : patch.start = offset + kept.size) (hstop : patch.stop = patch.start + old.size)
      (hold : 0 < old.size) (hrest : Rewrites patches patch.stop rest new) :
      Rewrites (patch :: patches) offset (kept ++ (old ++ rest)) (kept ++ (patch.text ++ new))

section Changes

variable {patches first second : List Patch} {offset : Nat}

theorem changeBefore_append :
    changeBefore (first ++ second) offset =
      changeBefore first offset + changeBefore second offset := by
  rw [changeBefore, List.filter_append, List.map_append, List.sum_append]
  rfl

theorem changeBefore_cons_of_le {patch : Patch} (hle : patch.stop ≤ offset) :
    changeBefore (patch :: patches) offset = patch.change + changeBefore patches offset := by
  simp [changeBefore, hle]

theorem changeBefore_eq_sum (hbefore : ∀ patch ∈ patches, patch.stop ≤ offset) :
    changeBefore patches offset = (patches.map change).sum := by
  rw [changeBefore, List.filter_eq_self.mpr]
  intro patch hpatch
  exact decide_eq_true (hbefore patch hpatch)

theorem changeBefore_eq_zero (hafter : ∀ patch ∈ patches, offset < patch.stop) :
    changeBefore patches offset = 0 := by
  rw [changeBefore, List.filter_eq_nil_iff.mpr]
  · rfl
  · intro patch hpatch
    simpa using hafter patch hpatch

theorem changeBefore_perm (hperm : first.Perm second) :
    changeBefore first offset = changeBefore second offset :=
  ((hperm.filter _).map change).sum_eq

end Changes

namespace Rewrites

variable {patches first second : List Patch} {offset : Nat} {old new kept : Text}

/-- Text that stands before is copied. -/
theorem keep (kept : Text) (hrewrites : Rewrites patches (offset + kept.size) old new) :
    Rewrites patches offset (kept ++ old) (kept ++ new) := by
  cases hrewrites with
  | done => exact .done offset (kept ++ old)
  | @step patch patches _ before old rest new hstart hstop hold hrest =>
      have hstart' : patch.start = offset + Text.size (kept ++ before) := by
        rw [hstart, Text.size_append, Nat.add_assoc]
      simpa only [List.append_assoc] using Rewrites.step hstart' hstop hold hrest

theorem append {oldFirst newFirst : Text} (hfirst : Rewrites first offset oldFirst newFirst)
    (hsecond : Rewrites second (offset + oldFirst.size) old new) :
    Rewrites (first ++ second) offset (oldFirst ++ old) (newFirst ++ new) := by
  induction hfirst with
  | done offset text => exact hsecond.keep text
  | @step patch patches offset kept exchanged rest newRest hstart hstop hold hrest ih =>
      simp only [List.append_assoc, List.cons_append]
      apply Rewrites.step hstart hstop hold
      apply ih
      rw [hstop, hstart]
      simpa [Nat.add_assoc] using hsecond

theorem single {patch : Patch} (hstart : patch.start = offset)
    (hstop : patch.stop = offset + old.size) (hold : 0 < old.size) :
    Rewrites [patch] offset old patch.text := by
  have hstep : Rewrites [patch] offset ([] ++ (old ++ [])) ([] ++ (patch.text ++ [])) := by
    apply Rewrites.step hstart _ hold (.done _ [])
    rw [hstop, hstart]
  simpa using hstep

theorem bounds (hrewrites : Rewrites patches offset old new) :
    ∀ patch ∈ patches, offset ≤ patch.start ∧ patch.start < patch.stop ∧
      patch.stop ≤ offset + old.size := by
  induction hrewrites with
  | done => exact List.forall_mem_nil _
  | step hstart hstop hold hrest ih =>
      intro patch hpatch
      simp only [Text.size_append]
      rcases List.mem_cons.mp hpatch with rfl | hpatch
      · omega
      · have hbounds := ih patch hpatch
        omega

/-- The ranges of the patches follow each other. -/
theorem pairwise (hrewrites : Rewrites patches offset old new) :
    patches.Pairwise fun earlier later => earlier.stop ≤ later.start := by
  induction hrewrites with
  | done => exact .nil
  | step hstart hstop hold hrest ih =>
      apply List.pairwise_cons.mpr
      refine ⟨?_, ih⟩
      intro later hlater
      exact (hrest.bounds later hlater).1

/-- The length changes by the sum of the changes. -/
theorem size_eq (hrewrites : Rewrites patches offset old new) :
    (new.size : Int) = old.size + (patches.map change).sum := by
  induction hrewrites with
  | done => simp
  | step hstart hstop hold hrest ih =>
      simp only [Text.size_append, List.map_cons, List.sum_cons, change]
      omega

/-- A rewriting is cut where no patch crosses. -/
theorem cut {front back : Text} (hrewrites : Rewrites patches offset (front ++ back) new)
    (hcross : ∀ patch ∈ patches,
      patch.stop ≤ offset + front.size ∨ offset + front.size ≤ patch.start) :
    ∃ first second newFront newBack, patches = first ++ second ∧ new = newFront ++ newBack ∧
      Rewrites first offset front newFront ∧
      Rewrites second (offset + front.size) back newBack := by
  generalize hold : front ++ back = old at hrewrites
  induction hrewrites generalizing front with
  | done offset text =>
      exact ⟨[], [], front, back, rfl, hold.symm, .done offset front, .done _ back⟩
  | @step patch patches offset kept exchanged rest newRest hstart hstop hsize hrest ih =>
      obtain ⟨hpatch, hpatches⟩ := List.forall_mem_cons.mp hcross
      rcases hpatch with hbefore | hafter
      · have hle : Text.size (kept ++ exchanged) ≤ front.size := by
          rw [Text.size_append]
          omega
        rw [← List.append_assoc] at hold
        obtain ⟨more, rfl, rfl⟩ := Text.exists_eq_append_of_size_le hold.symm hle
        have hoffset : patch.stop + more.size =
            offset + Text.size (kept ++ exchanged ++ more) := by
          simp only [Text.size_append]
          omega
        obtain ⟨first, second, newFront, newBack, rfl, rfl, hfront, hback⟩ :=
          @ih more (by rwa [hoffset]) rfl
        refine ⟨patch :: first, second, kept ++ (patch.text ++ newFront), newBack, rfl, ?_, ?_, ?_⟩
        · simp only [List.append_assoc]
        · rw [List.append_assoc]
          exact .step hstart hstop hsize hfront
        · rwa [← hoffset]
      · have hle : front.size ≤ kept.size := by omega
        obtain ⟨more, rfl, rfl⟩ := Text.exists_eq_append_of_size_le hold hle
        have hstart' : patch.start = offset + front.size + more.size := by
          rw [hstart, Text.size_append, Nat.add_assoc]
        exact ⟨[], patch :: patches, front, more ++ (patch.text ++ newRest), rfl,
          List.append_assoc _ _ _, .done offset front, .step hstart' hstop hsize hrest⟩

/-- Applying the patches from the last one to the first one rewrites the text. -/
theorem spliceAll_reverse (hrewrites : Rewrites patches offset old new) (before after : Text)
    (hbefore : before.size = offset) (remaining : List Patch) :
    spliceAll (before ++ old ++ after) (patches.reverse ++ remaining) =
      spliceAll (before ++ new ++ after) remaining := by
  induction hrewrites generalizing before remaining with
  | done => rfl
  | @step patch patches offset kept exchanged rest newRest hstart hstop hsize hrest ih =>
      have hinner : Text.size (before ++ kept ++ exchanged) = patch.stop := by
        simp only [Text.size_append]
        omega
      have hsplice : Text.splice? (before ++ kept ++ exchanged ++ newRest ++ after) patch.start
          patch.stop patch.text = some (before ++ kept ++ patch.text ++ (newRest ++ after)) := by
        apply Text.splice?_eq_some_iff.mpr
        refine ⟨before ++ kept, exchanged, newRest ++ after, ?_, ?_, ?_, rfl⟩
        · simp only [List.append_assoc]
        · rw [Text.size_append, hbefore, hstart]
        · rw [← Text.size_append]
          exact hinner
      have hrest := ih (before ++ kept ++ exchanged) hinner (patch :: remaining)
      rw [spliceAll, hsplice] at hrest
      simp only [List.reverse_cons, List.append_assoc, List.singleton_append] at hrest ⊢
      exact hrest

end Rewrites

end ArrayPatch.Patch
