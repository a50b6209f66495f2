import ArrayPatch.Patch
import Mathlib.Tactic.Common

/-!
# The order in which patches are applied

Comparing neighbours is enough to tell that no two patches overlap: if every
patch ends where it starts or later, then the order of application carries the
comparison over to patches that are further apart.  Patches that do not overlap
have only one ascending order.
-/

namespace ArrayPatch.Patch

variable {patches first second : List Patch}

/-- Patches in the order of application of which none reaches into an earlier
one. -/
def Descends (patches : List Patch) : Prop :=
  patches.Pairwise fun higher lower => lower.stop ≤ higher.start

/-- Patches from left to right of which none reaches into the next one. -/
def Ascends (patches : List Patch) : Prop :=
  patches.Pairwise fun lower higher => lower.stop ≤ higher.start

theorem ascends_reverse_iff : Ascends patches.reverse ↔ Descends patches :=
  List.pairwise_reverse

theorem ordered_perm (patches : List Patch) : (ordered patches).Perm patches :=
  List.mergeSort_perm _ _

theorem mem_ordered_iff {patch : Patch} : patch ∈ ordered patches ↔ patch ∈ patches :=
  (ordered_perm patches).mem_iff

theorem start_le_trans (first second third : Patch)
    (hfirst : decide (first.start ≤ second.start) = true)
    (hsecond : decide (second.start ≤ third.start) = true) :
    decide (first.start ≤ third.start) = true :=
  decide_eq_true (Nat.le_trans (of_decide_eq_true hfirst) (of_decide_eq_true hsecond))

theorem start_le_total (first second : Patch) :
    (decide (first.start ≤ second.start) || decide (second.start ≤ first.start)) = true := by
  simpa using Nat.le_total first.start second.start

/-- The patches are applied from the end of the document to its start. -/
theorem pairwise_ordered (patches : List Patch) :
    (ordered patches).Pairwise fun higher lower => lower.start ≤ higher.start :=
  (List.pairwise_mergeSort (fun a b c hab hbc => start_le_trans c b a hbc hab)
    (fun a b => start_le_total b a) patches).imp of_decide_eq_true

/-- Patches that are made in this order are applied as they are made. -/
theorem ordered_eq_self
    (hpatches : patches.Pairwise fun higher lower => lower.start ≤ higher.start) :
    ordered patches = patches :=
  List.mergeSort_of_pairwise (hpatches.imp decide_eq_true)

/-- Of two different patches of a list that a relation orders, one is related to the
other. -/
theorem rel_or_rel_of_pairwise {R : Patch → Patch → Prop} (hpairwise : patches.Pairwise R)
    {p q : Patch} (hp : p ∈ patches) (hq : q ∈ patches) (hne : p ≠ q) : R p q ∨ R q p :=
  List.Pairwise.forall_of_forall_of_flip (R := fun p q => p ≠ q → R p q ∨ R q p)
    (fun _ _ hself => absurd rfl hself) (hpairwise.imp fun hrel _ => .inl hrel)
    (hpairwise.imp fun hrel _ => .inr hrel) hp hq hne

/-- Patches that are found to overlap are neighbours. -/
theorem exists_of_overlap?_eq_some {lower higher : Patch}
    (hoverlap : overlap? patches = some (lower, higher)) :
    ∃ before after, patches = before ++ higher :: lower :: after ∧ higher.start < lower.stop := by
  induction patches with
  | nil => cases hoverlap
  | cons first patches ih =>
      cases patches with
      | nil => cases hoverlap
      | cons second patches =>
          rw [overlap?] at hoverlap
          by_cases hreach : first.start < second.stop
          · rw [if_pos hreach] at hoverlap
            cases hoverlap
            exact ⟨[], patches, rfl, hreach⟩
          · rw [if_neg hreach] at hoverlap
            obtain ⟨before, after, hsplit, hreach⟩ := ih hoverlap
            exact ⟨first :: before, after, by rw [hsplit, List.cons_append], hreach⟩

/-- Without overlapping neighbours no two patches overlap. -/
theorem descends_of_overlap?_eq_none (hrange : ∀ patch ∈ patches, patch.start ≤ patch.stop)
    (hnone : overlap? patches = none) : Descends patches := by
  induction patches with
  | nil => exact .nil
  | cons higher patches ih =>
      cases patches with
      | nil => exact List.pairwise_singleton _ higher
      | cons lower patches =>
          rw [overlap?] at hnone
          by_cases hoverlap : higher.start < lower.stop
          · rw [if_pos hoverlap] at hnone
            cases hnone
          · rw [if_neg hoverlap] at hnone
            obtain ⟨-, hrest⟩ := List.forall_mem_cons.mp hrange
            have hdescends := ih hrest hnone
            obtain ⟨hlower, -⟩ := List.pairwise_cons.mp hdescends
            apply List.pairwise_cons.mpr
            refine ⟨?_, hdescends⟩
            intro patch hpatch
            rcases List.mem_cons.mp hpatch with rfl | hpatch
            · exact Nat.le_of_not_lt hoverlap
            · have hbelow := hlower patch hpatch
              have hself := hrest lower List.mem_cons_self
              omega

section Ascending

variable (hfirst : ∀ patch ∈ first, patch.start < patch.stop)

include hfirst

theorem Ascends.nodup (hascends : Ascends first) : first.Nodup := by
  apply List.Pairwise.imp_of_mem _ hascends
  intro lower higher hlower _ hle heq
  subst heq
  have hself := hfirst lower hlower
  omega

omit hfirst in
theorem Ascends.eq_of_overlap (hascends : Ascends first) {p q : Patch} (hp : p ∈ first)
    (hq : q ∈ first) (hpq : p.start < q.stop) (hqp : q.start < p.stop) : p = q := by
  by_contra hne
  rcases rel_or_rel_of_pairwise hascends hp hq hne with hbefore | hbehind
  · exact absurd hqp (Nat.not_lt_of_le hbefore)
  · exact absurd hpq (Nat.not_lt_of_le hbehind)

theorem Ascends.eq_of_mem_iff (hascends : Ascends first) (hsecond : Ascends second)
    (hmem : ∀ patch, patch ∈ first ↔ patch ∈ second) : first = second := by
  have hrange : ∀ patch ∈ second, patch.start < patch.stop :=
    fun patch hpatch => hfirst patch ((hmem patch).mpr hpatch)
  have hperm : first.Perm second :=
    (List.perm_ext_iff_of_nodup (hascends.nodup hfirst) (hsecond.nodup hrange)).mpr hmem
  apply List.Perm.eq_of_pairwise _ hascends hsecond hperm
  intro p q hp hq hpq hqp
  have hself := hfirst p hp
  have hother := hrange q hq
  omega

/-- Sorting ascending patches by their start gives the ascending order. -/
theorem Ascends.eq_of_sorted (hascends : Ascends first) (hperm : second.Perm first)
    (hsorted : second.Pairwise fun left right => left.start ≤ right.start) : second = first := by
  have hstarts : first.Pairwise fun left right => left.start ≤ right.start := by
    apply List.Pairwise.imp_of_mem _ hascends
    intro left right hleft _ hle
    exact Nat.le_trans (Nat.le_of_lt (hfirst left hleft)) hle
  apply List.Perm.eq_of_pairwise _ hsorted hstarts hperm
  intro left right hleft hright hlr hrl
  have hmem := hperm.mem_iff.mp hleft
  have hleftRange := hfirst left hmem
  have hrightRange := hfirst right hright
  exact hascends.eq_of_overlap hmem hright (by omega) (by omega)

end Ascending

theorem overlap?_eq_none (hdescends : Descends patches) : overlap? patches = none := by
  cases hoverlap : overlap? patches with
  | none => rfl
  | some pair =>
      obtain ⟨before, after, rfl, hreach⟩ := exists_of_overlap?_eq_some hoverlap
      have hpair := (List.pairwise_append.mp hdescends).2.1
      have hle := (List.pairwise_cons.mp hpair).1 pair.1 List.mem_cons_self
      exact absurd hreach (Nat.not_lt.mpr hle)

/-- Applying patches succeeds only if none reaches into another one. -/
theorem applyAll_eq_ok {document out : Text} (hrange : ∀ patch ∈ patches, patch.start ≤ patch.stop)
    (happly : applyAll patches document = .ok out) :
    Ascends (ordered patches).reverse ∧ spliceAll document (ordered patches) = .ok out := by
  rw [applyAll] at happly
  cases hoverlap : overlap? (ordered patches) with
  | some pair =>
      rw [hoverlap] at happly
      cases happly
  | none =>
      rw [hoverlap] at happly
      refine ⟨ascends_reverse_iff.mpr ?_, happly⟩
      apply descends_of_overlap?_eq_none _ hoverlap
      intro patch hpatch
      exact hrange patch (mem_ordered_iff.mp hpatch)

end ArrayPatch.Patch
