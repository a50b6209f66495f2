import ArrayPatch.Patch.Rebuild
import ArrayPatch.Proofs.Patch.Order
import ArrayPatch.Proofs.Patch.Rewrites

/-!
# Rebuilding gives what applying gives

Patches that rewrite a text are the patches in ascending order, and copying the
text from left to right, with each patch written when its range is reached,
gives the rewritten text.
-/

namespace ArrayPatch.Patch

variable {patches written : List Patch} {offset : Nat} {old new : Text}

/-- Copying a text from left to right rewrites it. -/
theorem Rewrites.rebuild?_eq_some (hrewrites : Rewrites patches offset old new) (before : Text)
    (hbefore : before.size = offset) : rebuild? (before ++ old) offset patches = some new := by
  induction hrewrites generalizing before with
  | done offset text =>
      apply Text.slice?_eq_some_iff.mpr
      refine ⟨before, [], (List.append_nil _).symm, hbefore, ?_⟩
      rw [Text.size_append]
  | @step patch patches offset kept exchanged rest newRest hstart hstop hsize hrest ih =>
      have hcopied : Text.slice? (before ++ (kept ++ (exchanged ++ rest))) offset patch.start =
          some kept := by
        apply Text.slice?_eq_some_iff.mpr
        refine ⟨before, exchanged ++ rest, ?_, hbefore, ?_⟩
        · rw [List.append_assoc]
        · rw [hbefore, hstart]
      have hbehind := ih (before ++ (kept ++ exchanged)) <| by
        simp only [Text.size_append]
        omega
      simp only [List.append_assoc] at hbehind
      rw [rebuild?, hcopied, hbehind]
      have hle : patch.start ≤ patch.stop := by omega
      simp [hle]

theorem ascending_perm (patches : List Patch) : (ascending patches).Perm patches :=
  (List.mergeSort_perm _ _).trans (List.reverse_perm patches)

theorem pairwise_ascending (patches : List Patch) :
    (ascending patches).Pairwise fun left right => left.start ≤ right.start :=
  (List.pairwise_mergeSort start_le_trans start_le_total _).imp of_decide_eq_true

theorem ascending_eq (hrange : ∀ patch ∈ written, patch.start < patch.stop)
    (hascends : Ascends written) (hperm : patches.Perm written) : ascending patches = written :=
  hascends.eq_of_sorted hrange ((ascending_perm patches).trans hperm) (pairwise_ascending patches)

/-- The order of application is the ascending order reversed. -/
theorem ordered_eq (hrange : ∀ patch ∈ written, patch.start < patch.stop)
    (hascends : Ascends written) (hperm : patches.Perm written) :
    ordered patches = written.reverse := by
  have hall : (ordered patches).reverse.Perm written :=
    (List.reverse_perm _).trans ((ordered_perm patches).trans hperm)
  have hsorted := List.pairwise_reverse.mpr (pairwise_ordered patches)
  rw [← hascends.eq_of_sorted hrange hall hsorted, List.reverse_reverse]

/-- Patches that rewrite a text are applied to it in whatever order they are made. -/
theorem Rewrites.applyAll_eq_ok (hrewrites : Rewrites written 0 old new)
    (hperm : patches.Perm written) : applyAll patches old = .ok new := by
  have hordered : ordered patches = written.reverse :=
    ordered_eq (fun patch hpatch => (hrewrites.bounds patch hpatch).2.1) hrewrites.pairwise hperm
  have hnone : overlap? written.reverse = none :=
    overlap?_eq_none (List.pairwise_reverse.mpr hrewrites.pairwise)
  have hsplice := hrewrites.spliceAll_reverse [] [] rfl []
  rw [applyAll, hordered, hnone]
  simpa [spliceAll] using hsplice

end ArrayPatch.Patch
