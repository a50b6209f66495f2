import ArrayPatch.Proofs.Patch.Rebuild
import Mathlib.Data.List.Nodup

/-!
# When patches can be applied

Patches are applied to a text that changes with every one of them, from its end
to its start.  What stands in front of the patch applied last is still the text
as it was given, and no later patch reaches behind it.  Hence the ranges of
patches that are applied without a break fit the text as it was given, and
applying them rebuilds it from left to right.  The induction is on the patches
in the order of application; what is left to rewrite is a front of the text.

Sorting keeps the order of patches with the same start, so the order of
application is the order of rebuilding read backwards, insertions at one place
included.
-/

namespace ArrayPatch.Patch

variable {patches first second : List Patch}

/-! ## Ranges with the same start -/

/-- Sorting does not touch the order of members that the order does not tell
apart. -/
theorem filter_mergeSort {α : Type} {le : α → α → Bool}
    (trans : ∀ a b c, le a b = true → le b c = true → le a c = true)
    (total : ∀ a b, (le a b || le b a) = true) {p : α → Bool}
    (hsame : ∀ a b, p a = true → p b = true → le a b = true) (list : List α) :
    (list.mergeSort le).filter p = list.filter p := by
  have hsorted : (list.filter p).Pairwise fun a b => le a b = true := by
    apply List.pairwise_of_forall_mem_list
    intro a ha b hb
    exact hsame a b (List.of_mem_filter ha) (List.of_mem_filter hb)
  have hsublist := (List.sublist_mergeSort trans total hsorted List.filter_sublist).filter p
  rw [List.filter_filter] at hsublist
  simp only [Bool.and_self] at hsublist
  exact (hsublist.eq_of_length ((List.mergeSort_perm list le).filter p).length_eq.symm).symm

theorem filter_ordered (patches : List Patch) (start : Nat) :
    (ordered patches).filter (·.start = start) = patches.filter (·.start = start) := by
  apply filter_mergeSort (fun a b c hab hbc => start_le_trans c b a hbc hab)
    (fun a b => start_le_total b a)
  intro a b ha hb
  simp_all

/-- Patches with the same start are met in the reverse order of their making. -/
theorem filter_ascending (patches : List Patch) (start : Nat) :
    (ascending patches).filter (·.start = start) =
      (patches.filter (·.start = start)).reverse := by
  rw [← List.filter_reverse]
  apply filter_mergeSort start_le_trans start_le_total
  intro a b ha hb
  simp_all

/-- Patches in the order of their starts are determined by the order of those
with the same start. -/
theorem eq_of_filter_eq (hfirst : first.Pairwise fun left right => left.start ≤ right.start)
    (hsecond : second.Pairwise fun left right => left.start ≤ right.start)
    (hsame : ∀ start, first.filter (·.start = start) = second.filter (·.start = start)) :
    first = second := by
  induction first generalizing second with
  | nil =>
      cases second with
      | nil => rfl
      | cons right second => simpa using hsame right.start
  | cons left first ih =>
      have hmem : ∀ patch, patch ∈ left :: first ↔ patch ∈ second := by
        intro patch
        simpa using congrArg (patch ∈ ·) (hsame patch.start)
      cases second with
      | nil => exact absurd ((hmem left).mp List.mem_cons_self) List.not_mem_nil
      | cons right second =>
          obtain ⟨hleft, hrestFirst⟩ := List.pairwise_cons.mp hfirst
          obtain ⟨hright, hrestSecond⟩ := List.pairwise_cons.mp hsecond
          have hstart : left.start = right.start := by
            apply Nat.le_antisymm
            · rcases List.mem_cons.mp ((hmem right).mpr List.mem_cons_self) with rfl | hright
              · exact Nat.le_refl _
              · exact hleft right hright
            · rcases List.mem_cons.mp ((hmem left).mp List.mem_cons_self) with rfl | hleft
              · exact Nat.le_refl _
              · exact hright left hleft
          obtain rfl : left = right := by
            have hheads := congrArg List.head? (hsame left.start)
            simpa [hstart] using hheads
          congr 1
          apply ih hrestFirst hrestSecond
          intro start
          have htails := hsame start
          rw [List.filter_cons, List.filter_cons] at htails
          split at htails
          · exact (List.cons.inj htails).2
          · exact htails

/-- The order in which patches are applied is the order in which their ranges
are met, read backwards. -/
theorem reverse_ordered (patches : List Patch) : (ordered patches).reverse = ascending patches := by
  apply eq_of_filter_eq
  · exact List.pairwise_reverse.mpr (pairwise_ordered patches)
  · exact pairwise_ascending patches
  · intro start
    rw [List.filter_reverse, filter_ordered, filter_ascending]

/-! ## Rebuilding with one more patch -/

variable {front old after tail document out : Text} {last : Patch} {position : Nat}

/-- A last patch is written behind what the patches before it make of the text
in front of its range. -/
theorem rebuild?_append_singleton (hstart : last.start = front.size)
    (hstop : last.stop = front.size + old.size) (hposition : position ≤ front.size)
    (hrange : ∀ patch ∈ patches, patch.start ≤ patch.stop ∧ patch.stop ≤ front.size) :
    rebuild? (front ++ (old ++ after)) position (patches ++ [last]) =
      (rebuild? front position patches).map (· ++ (last.text ++ after)) := by
  induction patches generalizing position with
  | nil =>
      have htail : Text.slice? (front ++ (old ++ after)) last.stop
          (Text.size (front ++ (old ++ after))) = some after := by
        apply Text.slice?_eq_some_iff.mpr
        refine ⟨front ++ old, [], by simp, ?_, ?_⟩
        · rw [Text.size_append, hstop]
        · simp only [Text.size_append]
          omega
      have hle : last.start ≤ last.stop := by omega
      rw [List.nil_append, rebuild?, rebuild?, rebuild?, htail, hstart,
        Text.slice?_append_of_le (Nat.le_refl _), ← hstart]
      cases Text.slice? front position last.start with
      | none => rfl
      | some copied => simp [hle]
  | cons patch patches ih =>
      obtain ⟨⟨hle, hlimit⟩, hpatches⟩ := List.forall_mem_cons.mp hrange
      rw [List.cons_append, rebuild?, rebuild?, ih hlimit hpatches,
        Text.slice?_append_of_le (Nat.le_trans hle hlimit)]
      simp only [if_pos hle]
      cases Text.slice? front position patch.start with
      | none => rfl
      | some copied =>
          cases rebuild? front patch.stop patches with
          | none => rfl
          | some rest => simp

/-! ## Applying -/

theorem overlap?_cons_cons_eq_none_iff {higher lower : Patch} :
    overlap? (higher :: lower :: patches) = none ↔
      lower.stop ≤ higher.start ∧ overlap? (lower :: patches) = none := by
  rw [overlap?]
  by_cases hoverlap : higher.start < lower.stop
  · simp [hoverlap, Nat.not_le_of_lt hoverlap]
  · simp [hoverlap, Nat.le_of_not_lt hoverlap]

section Fits

variable {patch : Patch}

/-- A range fits if its ends are boundaries in order. -/
theorem fits_iff :
    Fits document patch ↔
      patch.start ≤ patch.stop ∧ document.IsBoundary patch.start ∧
        document.IsBoundary patch.stop :=
  Text.isSome_slice?_iff

theorem fits_append_iff (hle : patch.stop ≤ front.size) :
    Fits (front ++ tail) patch ↔ Fits front patch := by
  rw [Fits, Text.slice?_append_of_le hle, Fits]

theorem Fits.append (hfits : Fits front patch) (tail : Text) : Fits (front ++ tail) patch :=
  (fits_append_iff (fits_iff.mp hfits).2.2.le_size).mpr hfits

/-- A range that fits divides the text. -/
theorem Fits.exists_parts (hfits : Fits document patch) :
    ∃ before old after, document = before ++ (old ++ after) ∧ before.size = patch.start ∧
      before.size + old.size = patch.stop := by
  obtain ⟨old, hslice⟩ := Option.isSome_iff_exists.mp hfits
  obtain ⟨before, after, htext, hstart, hstop⟩ := Text.slice?_eq_some_iff.mp hslice
  exact ⟨before, old, after, by rw [htext, List.append_assoc], hstart, hstop⟩

/-- Exactly the ranges that fit can be exchanged. -/
theorem exists_splice?_iff :
    (∃ result, document.splice? patch.start patch.stop patch.text = some result) ↔
      Fits document patch := by
  rw [← Option.isSome_iff_exists, Text.splice?, Option.isSome_map, Fits, Text.slice?,
    Option.isSome_map]

end Fits

theorem splice?_parts {before : Text} {patch : Patch} (hstart : before.size = patch.start)
    (hstop : before.size + old.size = patch.stop) :
    Text.splice? (before ++ (old ++ after)) patch.start patch.stop patch.text =
      some (before ++ (patch.text ++ after)) := by
  apply Text.splice?_eq_some_iff.mpr
  exact ⟨before, old, after, (List.append_assoc _ _ _).symm, hstart, hstop,
    (List.append_assoc _ _ _).symm⟩

/-- If no neighbours overlap and all patches can be applied, then the ranges fit
the text as it was.  The text still to be rewritten is a front of it, and behind
this front the first patch reaches for nothing. -/
theorem fits_of_spliceAll (hnone : overlap? patches = none)
    (hfront : ∀ patch ∈ patches.head?, Fits (front ++ tail) patch → Fits front patch)
    (hsplice : spliceAll (front ++ tail) patches = .ok out) :
    ∀ patch ∈ patches, Fits front patch := by
  induction patches generalizing front tail with
  | nil => exact List.forall_mem_nil _
  | cons higher patches ih =>
      rw [spliceAll] at hsplice
      split at hsplice
      · rename_i result hresult
        have hfits := hfront higher rfl (exists_splice?_iff.mp ⟨result, hresult⟩)
        obtain ⟨before, old, after, rfl, hstart, hstop⟩ := hfits.exists_parts
        simp only [List.append_assoc] at hresult
        rw [splice?_parts hstart hstop] at hresult
        obtain rfl := Option.some.inj hresult
        have hrest : ∀ patch ∈ patches, Fits before patch := by
          cases patches with
          | nil => exact List.forall_mem_nil _
          | cons lower patches =>
              obtain ⟨hle, hnone⟩ := overlap?_cons_cons_eq_none_iff.mp hnone
              rw [← hstart] at hle
              refine ih hnone ?_ hsplice
              intro patch hpatch
              obtain rfl := Option.some.inj hpatch
              exact (fits_append_iff hle).mp
        intro patch hpatch
        rcases List.mem_cons.mp hpatch with rfl | hpatch
        · exact hfits
        · exact (hrest patch hpatch).append _
      · cases hsplice

/-- Patches that fit and do not overlap are applied, and what they make of the
text is the text rebuilt. -/
theorem exists_rebuild?_of_fits (hdescends : Descends patches)
    (hfits : ∀ patch ∈ patches, Fits front patch) (tail : Text) :
    ∃ new, rebuild? front 0 patches.reverse = some new ∧
      spliceAll (front ++ tail) patches = .ok (new ++ tail) := by
  induction patches generalizing front tail with
  | nil =>
      refine ⟨front, ?_, rfl⟩
      exact Text.slice?_eq_some_iff.mpr ⟨[], [], by simp, rfl, Nat.zero_add _⟩
  | cons higher patches ih =>
      obtain ⟨hhigher, hpatches⟩ := List.forall_mem_cons.mp hfits
      obtain ⟨hbelow, hdescends⟩ := List.pairwise_cons.mp hdescends
      obtain ⟨before, old, after, rfl, hstart, hstop⟩ := hhigher.exists_parts
      rw [← hstart] at hbelow
      obtain ⟨new, hnew, hsplice⟩ := ih hdescends
        (fun patch hpatch => (fits_append_iff (hbelow patch hpatch)).mp (hpatches patch hpatch))
        (higher.text ++ (after ++ tail))
      refine ⟨new ++ (higher.text ++ after), ?_, ?_⟩
      · rw [List.reverse_cons,
          rebuild?_append_singleton hstart.symm hstop.symm (Nat.zero_le _), hnew]
        · rfl
        · intro patch hpatch
          have hpatch := List.mem_reverse.mp hpatch
          exact ⟨(fits_iff.mp (hpatches patch hpatch)).1, hbelow patch hpatch⟩
      · simp only [List.append_assoc]
        rw [spliceAll, splice?_parts hstart hstop]
        exact hsplice

/-- Patches are applied exactly if their ranges fit the text and no range
reaches into the next one; then the text is rebuilt. -/
theorem applyAll_eq_ok_iff :
    applyAll patches document = .ok out ↔
      (∀ patch ∈ patches, Fits document patch) ∧ Ascends (ascending patches) ∧
        rebuild? document 0 (ascending patches) = some out := by
  have hmem : ∀ {patch}, patch ∈ ordered patches ↔ patch ∈ patches := mem_ordered_iff
  rw [← reverse_ordered, ascends_reverse_iff]
  constructor
  · intro happly
    rw [applyAll] at happly
    split at happly
    · cases happly
    · rename_i hnone
      have hsplice : spliceAll (document ++ []) (ordered patches) = .ok out := by
        simpa using happly
      have hfits := fits_of_spliceAll hnone (fun patch _ hfits => by simpa using hfits) hsplice
      have hdescends := descends_of_overlap?_eq_none
        (fun patch hpatch => (fits_iff.mp (hfits patch hpatch)).1) hnone
      obtain ⟨new, hnew, hsplice⟩ := exists_rebuild?_of_fits hdescends hfits []
      simp only [List.append_nil] at hsplice
      obtain rfl := Except.ok.inj (happly.symm.trans hsplice)
      exact ⟨fun patch hpatch => hfits patch (hmem.mpr hpatch), hdescends, hnew⟩
  · rintro ⟨hfits, hdescends, hnew⟩
    obtain ⟨new, hnew', hsplice⟩ := exists_rebuild?_of_fits hdescends
      (fun patch hpatch => hfits patch (hmem.mp hpatch)) []
    obtain rfl := Option.some.inj (hnew.symm.trans hnew')
    simp only [List.append_nil] at hsplice
    rw [applyAll, overlap?_eq_none hdescends]
    exact hsplice

theorem applyAll_cases_of_fits (hfits : ∀ patch ∈ patches, Fits document patch) :
    (∃ out, applyAll patches document = .ok out) ∨
      ∃ lower ∈ patches, ∃ higher ∈ patches, applyAll patches document =
        .error (.refused (.overlappingPatches lower.identifier higher.identifier)) := by
  cases hoverlap : overlap? (ordered patches) with
  | none =>
      have hdescends := descends_of_overlap?_eq_none
        (fun patch hpatch => (fits_iff.mp (hfits patch (mem_ordered_iff.mp hpatch))).1) hoverlap
      obtain ⟨new, -, hsplice⟩ := exists_rebuild?_of_fits hdescends
        (fun patch hpatch => hfits patch (mem_ordered_iff.mp hpatch)) []
      simp only [List.append_nil] at hsplice
      left
      exact ⟨new, by rw [applyAll, hoverlap]; exact hsplice⟩
  | some pair =>
      obtain ⟨lower, higher⟩ := pair
      obtain ⟨before, after, hordered, -⟩ := exists_of_overlap?_eq_some hoverlap
      right
      refine ⟨lower, ?_, higher, ?_, by rw [applyAll, hoverlap]⟩
      · rw [← mem_ordered_iff, hordered]
        simp
      · rw [← mem_ordered_iff, hordered]
        simp

theorem ordered_eq_of_perm {others : List Patch} (hdistinct : (patches.map Patch.start).Nodup)
    (hperm : others.Perm patches) : ordered others = ordered patches := by
  have hsorted := (ordered_perm others).trans (hperm.trans (ordered_perm patches).symm)
  apply List.Perm.eq_of_pairwise _ (pairwise_ordered others) (pairwise_ordered patches) hsorted
  intro left right hleft hright hle hge
  have hmem := mem_ordered_iff.mp (hsorted.mem_iff.mp hleft)
  exact List.inj_on_of_nodup_map hdistinct hmem (mem_ordered_iff.mp hright)
    (Nat.le_antisymm hge hle)

/-- Patches are applied exactly if their ranges lie in the document as it was
given, end at boundaries of it and follow each other; then the result is the
document copied from left to right with every patch written when its range is
met.  The ranges are met in the order of their starts, and those with the same
start in the reverse order of their making.  Patches whose ranges fit are never
broken off.  If all starts differ then the order of making does not matter. -/
theorem applyAll_eq_rebuild (patches : List Patch) (document : Text) :
    ((ascending patches).Perm patches ∧
      (ascending patches).Pairwise (fun earlier later => earlier.start ≤ later.start) ∧
      ∀ start, (ascending patches).filter (·.start = start) =
        (patches.filter (·.start = start)).reverse) ∧
    (∀ out, applyAll patches document = .ok out ↔
      (∀ patch ∈ patches, patch.start ≤ patch.stop ∧ patch.stop ≤ document.size ∧
        document.IsBoundary patch.start ∧ document.IsBoundary patch.stop) ∧
      (ascending patches).Pairwise (fun earlier later => earlier.stop ≤ later.start) ∧
      rebuild? document 0 (ascending patches) = some out) ∧
    ((∀ patch ∈ patches, patch.start ≤ patch.stop ∧ document.IsBoundary patch.start ∧
        document.IsBoundary patch.stop) →
      (∃ out, applyAll patches document = .ok out) ∨
        ∃ lower ∈ patches, ∃ higher ∈ patches, applyAll patches document =
          .error (.refused (.overlappingPatches lower.identifier higher.identifier))) ∧
    ((patches.map Patch.start).Nodup → ∀ others, others.Perm patches →
      applyAll others document = applyAll patches document) := by
  refine ⟨⟨ascending_perm patches, pairwise_ascending patches, filter_ascending patches⟩,
    ?_, ?_, ?_⟩
  · intro out
    rw [applyAll_eq_ok_iff]
    refine and_congr_left fun _ => forall₂_congr fun patch _ => ?_
    rw [fits_iff]
    constructor
    · rintro ⟨hle, hstart, hstop⟩
      exact ⟨hle, hstop.le_size, hstart, hstop⟩
    · rintro ⟨hle, -, hstart, hstop⟩
      exact ⟨hle, hstart, hstop⟩
  · intro hfits
    exact applyAll_cases_of_fits fun patch hpatch => fits_iff.mpr (hfits patch hpatch)
  · intro hdistinct others hperm
    rw [applyAll, applyAll, ordered_eq_of_perm hdistinct hperm]

/-- An insertion between two replacements, of which the first one ends and the
second one starts where it stands, in a document that starts with a character of
two bytes; two ranges that overlap; and two patches made in either order. -/
theorem applyAll_eq_rebuild_of_touching :
    ∃ (touching overlapping apart : List Patch) (document out : Text),
      touching = [⟨['b'], 2, 3, ['B']⟩, ⟨['a'], 2, 2, ['+']⟩, ⟨['c'], 0, 2, ['ü', '!']⟩] ∧
      overlapping = [⟨['i'], 2, 3, []⟩, ⟨['o'], 0, 3, []⟩] ∧
      apart = [⟨['c'], 0, 2, ['ü', '!']⟩, ⟨['b'], 2, 3, ['B']⟩] ∧
      document = "é-b".toList ∧ out = "ü!+Bb".toList ∧
      applyAll touching document = .ok out ∧
      rebuild? document 0 (ascending touching) = some out ∧
      (∃ lower ∈ overlapping, ∃ higher ∈ overlapping, applyAll overlapping document =
        .error (.refused (.overlappingPatches lower.identifier higher.identifier))) ∧
      applyAll apart.reverse document = applyAll apart document := by
  have happly : applyAll [⟨['b'], 2, 3, ['B']⟩, ⟨['a'], 2, 2, ['+']⟩, ⟨['c'], 0, 2, ['ü', '!']⟩]
      "é-b".toList = .ok "ü!+Bb".toList := by
    rw [applyAll, ordered_eq_self (by decide)]
    decide
  have hrefused : applyAll [⟨['i'], 2, 3, []⟩, ⟨['o'], 0, 3, []⟩] "é-b".toList =
      .error (.refused (.overlappingPatches ['o'] ['i'])) := by
    rw [applyAll, ordered_eq_self (by decide)]
    decide
  obtain ⟨-, hok, -⟩ := applyAll_eq_rebuild
    [⟨['b'], 2, 3, ['B']⟩, ⟨['a'], 2, 2, ['+']⟩, ⟨['c'], 0, 2, ['ü', '!']⟩] "é-b".toList
  obtain ⟨-, -, hcases, -⟩ := applyAll_eq_rebuild [⟨['i'], 2, 3, []⟩, ⟨['o'], 0, 3, []⟩]
    "é-b".toList
  obtain ⟨-, -, -, hperm⟩ := applyAll_eq_rebuild
    [⟨['c'], 0, 2, ['ü', '!']⟩, ⟨['b'], 2, 3, ['B']⟩] "é-b".toList
  have hfits : ∀ patch ∈ [(⟨['i'], 2, 3, []⟩ : Patch), ⟨['o'], 0, 3, []⟩],
      patch.start ≤ patch.stop ∧ Text.IsBoundary "é-b".toList patch.start ∧
        Text.IsBoundary "é-b".toList patch.stop := by
    have hend : Text.IsBoundary "é-b".toList 3 := ⟨['é', '-'], ['b'], rfl, rfl⟩
    intro patch hpatch
    rcases List.mem_pair.mp hpatch with rfl | rfl
    · exact ⟨by decide, ⟨['é'], _, rfl, rfl⟩, hend⟩
    · exact ⟨by decide, ⟨[], _, rfl, rfl⟩, hend⟩
  refine ⟨_, _, _, _, _, rfl, rfl, rfl, rfl, rfl, happly, ((hok _).mp happly).2.2, ?_, ?_⟩
  · apply (hcases hfits).resolve_left
    rintro ⟨out, hout⟩
    cases hrefused.symm.trans hout
  · exact hperm (by decide) _ (List.reverse_perm _)

end ArrayPatch.Patch
