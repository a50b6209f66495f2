import ArrayPatch.Proofs.Patch.Applied

/-!
# Which patches are refused

Only neighbours are compared, and only after sorting by the start alone.  For
patches that fit this finds every overlap, whatever the order of making.  It
also finds more: a patch that inserts a text where another one starts to replace
a range has no part of the document in common with it, and the two are applied
if the replacement was made first; but they are refused if the insertion was
made first, because it is then applied before a patch that ends behind it.

So patches that fit are refused exactly if two of them overlap or such an
insertion was made before its replacement.  The relation between the order of
application and the order of making is that of a stable sort: two patches change
places only if the later one starts further behind.
-/

namespace ArrayPatch.Patch

variable {patches others : List Patch} {document : Text}

/-- A patch inserts where the range that another one replaces starts. -/
def InsertsAtStart (insertion replacement : Patch) : Prop :=
  insertion.start = insertion.stop ∧ insertion.start = replacement.start ∧
    replacement.start < replacement.stop

/-- Two patches, of which the first one is made first, are refused together. -/
def Collide (earlier later : Patch) : Prop :=
  Overlap earlier later ∨ earlier.InsertsAtStart later

theorem Overlap.symm {left right : Patch} (hoverlap : Overlap left right) : Overlap right left :=
  And.symm hoverlap

/-- Patches do not collide exactly if the one that is applied first starts where the
other one ends or behind it. -/
theorem not_collide_iff {earlier later : Patch} (hearlier : earlier.start ≤ earlier.stop)
    (hlater : later.start ≤ later.stop) :
    ¬ Collide earlier later ↔
      (later.start ≤ earlier.start → later.stop ≤ earlier.start) ∧
        (earlier.start < later.start → earlier.stop ≤ later.start) := by
  simp only [Collide, Overlap, InsertsAtStart]
  omega

/-- Two patches with the same start are applied in the order of their making. -/
theorem pair_sublist_of_ordered {earlier later : Patch} (hstart : earlier.start = later.start)
    (hpair : [earlier, later].Sublist (ordered patches)) : [earlier, later].Sublist patches := by
  have hsame := hpair.filter (·.start = later.start)
  rw [filter_ordered] at hsame
  simp only [List.filter_cons, hstart, decide_true, if_true, List.filter_nil] at hsame
  exact hsame.trans List.filter_sublist

/-- No patch reaches into an earlier one in the order of application exactly if no two
patches collide. -/
theorem descends_ordered_iff (hrange : ∀ patch ∈ patches, patch.start ≤ patch.stop) :
    Descends (ordered patches) ↔ patches.Pairwise fun earlier later => ¬ Collide earlier later := by
  constructor
  · intro hdescends
    rw [List.pairwise_iff_forall_sublist]
    intro earlier later hpair
    have hearlier : earlier ∈ patches := hpair.subset (by simp)
    have hlater : later ∈ patches := hpair.subset (by simp)
    refine (not_collide_iff (hrange _ hearlier) (hrange _ hlater)).mpr ⟨?_, ?_⟩
    · intro hle
      have hordered : [earlier, later].Sublist (ordered patches) :=
        List.pair_sublist_mergeSort (fun a b c hab hbc => start_le_trans c b a hbc hab)
          (fun a b => start_le_total b a) (decide_eq_true hle) hpair
      exact List.pairwise_iff_forall_sublist.mp hdescends hordered
    · intro hlt
      have hne : later ≠ earlier := by
        rintro rfl
        exact Nat.lt_irrefl _ hlt
      rcases rel_or_rel_of_pairwise hdescends (mem_ordered_iff.mpr hlater)
        (mem_ordered_iff.mpr hearlier) hne with habove | hbelow
      · exact habove
      · have hself := hrange later hlater
        omega
  · intro hapart
    refine List.pairwise_iff_forall_sublist.mpr ?_
    intro higher lower hpair
    have hhigher : higher ∈ patches := mem_ordered_iff.mp (hpair.subset (by simp))
    have hlower : lower ∈ patches := mem_ordered_iff.mp (hpair.subset (by simp))
    have hle : lower.start ≤ higher.start :=
      List.pairwise_iff_forall_sublist.mp (pairwise_ordered patches) hpair
    rcases Nat.eq_or_lt_of_le hle with hstart | hlt
    · have hmade := List.pairwise_iff_forall_sublist.mp hapart
        (pair_sublist_of_ordered hstart.symm hpair)
      exact ((not_collide_iff (hrange _ hhigher) (hrange _ hlower)).mp hmade).1 hle
    · have hne : higher ≠ lower := by
        rintro rfl
        exact Nat.lt_irrefl _ hlt
      rcases rel_or_rel_of_pairwise hapart hhigher hlower hne with hmade | hmade
      · exact ((not_collide_iff (hrange _ hhigher) (hrange _ hlower)).mp hmade).1 hle
      · exact ((not_collide_iff (hrange _ hlower) (hrange _ hhigher)).mp hmade).2 hlt

/-- Patches that fit are applied exactly if no two of them collide. -/
theorem exists_applyAll_eq_ok_iff (hfits : ∀ patch ∈ patches, Fits document patch) :
    (∃ out, applyAll patches document = .ok out) ↔
      patches.Pairwise fun earlier later => ¬ Collide earlier later := by
  have hrange : ∀ patch ∈ patches, patch.start ≤ patch.stop :=
    fun patch hpatch => (fits_iff.mp (hfits patch hpatch)).1
  rw [← descends_ordered_iff hrange]
  constructor
  · rintro ⟨out, happly⟩
    exact ascends_reverse_iff.mp (applyAll_eq_ok hrange happly).1
  · intro hdescends
    obtain ⟨new, -, hsplice⟩ := exists_rebuild?_of_fits hdescends
      (fun patch hpatch => hfits patch (mem_ordered_iff.mp hpatch)) []
    simp only [List.append_nil] at hsplice
    exact ⟨new, by rw [applyAll, overlap?_eq_none hdescends]; exact hsplice⟩

/-- A relation holds for no two members of a list exactly if it does not hold for two at
different positions. -/
theorem pairwise_not_iff {R : Patch → Patch → Prop} :
    patches.Pairwise (fun earlier later => ¬ R earlier later) ↔
      ¬ ∃ earlier later, [earlier, later].Sublist patches ∧ R earlier later := by
  rw [List.pairwise_iff_forall_sublist]
  constructor
  · rintro hnone ⟨earlier, later, hpair, hrel⟩
    exact hnone hpair hrel
  · intro hnone earlier later hpair hrel
    exact hnone ⟨earlier, later, hpair, hrel⟩

/-! ## The order of making -/

theorem pairwise_not_overlap_perm (hperm : others.Perm patches) :
    others.Pairwise (fun earlier later => ¬ Overlap earlier later) ↔
      patches.Pairwise fun earlier later => ¬ Overlap earlier later :=
  hperm.pairwise_iff fun hapart hoverlap => hapart hoverlap.symm

/-- All replacements and then all insertions. -/
def replacementsFirst (patches : List Patch) : List Patch :=
  patches.filter (fun patch => patch.start < patch.stop) ++
    patches.filter fun patch => !decide (patch.start < patch.stop)

theorem replacementsFirst_perm (patches : List Patch) : (replacementsFirst patches).Perm patches :=
  List.filter_append_perm _ patches

theorem pairwise_replacementsFirst (patches : List Patch) :
    (replacementsFirst patches).Pairwise fun earlier later => ¬ earlier.InsertsAtStart later := by
  have hreplaces : ∀ patch ∈ patches.filter (fun patch => patch.start < patch.stop),
      ∀ later : Patch, ¬ patch.InsertsAtStart later := by
    rintro patch hpatch later ⟨hempty, -⟩
    have hrange : patch.start < patch.stop := by simpa using (List.mem_filter.mp hpatch).2
    omega
  have hinserts : ∀ patch ∈ patches.filter (fun patch => !decide (patch.start < patch.stop)),
      ∀ earlier : Patch, ¬ earlier.InsertsAtStart patch := by
    rintro patch hpatch earlier ⟨-, -, hrange⟩
    have hempty : patch.stop ≤ patch.start := by simpa using (List.mem_filter.mp hpatch).2
    omega
  apply List.pairwise_append.mpr
  refine ⟨?_, ?_, ?_⟩
  · exact List.pairwise_of_forall_mem_list fun earlier hearlier later _ =>
      hreplaces earlier hearlier later
  · exact List.pairwise_of_forall_mem_list fun earlier _ later hlater =>
      hinserts later hlater earlier
  · exact fun earlier hearlier later _ => hreplaces earlier hearlier later

theorem exists_perm_cons_cons {first second : Patch} (hfirst : first ∈ patches)
    (hsecond : second ∈ patches) (hne : second ≠ first) :
    ∃ rest, (first :: second :: rest).Perm patches := by
  have hmem : second ∈ patches.erase first := (List.mem_erase_of_ne hne).mpr hsecond
  exact ⟨(patches.erase first).erase second,
    ((List.perm_cons_erase hmem).symm.cons first).trans (List.perm_cons_erase hfirst).symm⟩

section Orders

variable (hfits : ∀ patch ∈ patches, Fits document patch)

include hfits

theorem fits_perm (hperm : others.Perm patches) : ∀ patch ∈ others, Fits document patch :=
  fun patch hpatch => hfits patch (hperm.mem_iff.mp hpatch)

/-- Of patches that are applied no two overlap. -/
theorem pairwise_not_overlap_of_applyAll (happly : ∃ out, applyAll patches document = .ok out) :
    patches.Pairwise fun earlier later => ¬ Overlap earlier later :=
  ((exists_applyAll_eq_ok_iff hfits).mp happly).imp fun hapart hoverlap => hapart (.inl hoverlap)

/-- Patches of which none inserts where another one starts to replace are applied exactly if
no two of them overlap. -/
theorem exists_applyAll_iff_of_not_inserts (hinserts : ∀ insertion ∈ patches,
    ∀ replacement ∈ patches, ¬ insertion.InsertsAtStart replacement) :
    (∃ out, applyAll patches document = .ok out) ↔
      patches.Pairwise fun earlier later => ¬ Overlap earlier later := by
  refine ⟨pairwise_not_overlap_of_applyAll hfits, ?_⟩
  intro hapart
  apply (exists_applyAll_eq_ok_iff hfits).mpr
  apply hapart.imp_of_mem
  intro earlier later hearlier hlater hnone hcollide
  exact hcollide.elim hnone (hinserts earlier hearlier later hlater)

/-- Patches are applied in some order of making exactly if no two of them overlap. -/
theorem exists_perm_applyAll_iff :
    (∃ others : List Patch, others.Perm patches ∧ ∃ out, applyAll others document = .ok out) ↔
      patches.Pairwise fun earlier later => ¬ Overlap earlier later := by
  constructor
  · rintro ⟨others, hperm, happly⟩
    exact (pairwise_not_overlap_perm hperm).mp
      (pairwise_not_overlap_of_applyAll (fits_perm hfits hperm) happly)
  · intro hapart
    have hperm := replacementsFirst_perm patches
    refine ⟨replacementsFirst patches, hperm,
      (exists_applyAll_eq_ok_iff (fits_perm hfits hperm)).mpr ?_⟩
    have hboth := ((pairwise_not_overlap_perm hperm).mpr hapart).and
      (pairwise_replacementsFirst patches)
    exact hboth.imp fun hneither hcollide => hcollide.elim hneither.1 hneither.2

/-- The order of making does not matter exactly if two patches overlap or no patch inserts
where another one starts to replace. -/
theorem forall_perm_applyAll_iff :
    (∀ others : List Patch, others.Perm patches →
        ((∃ out, applyAll others document = .ok out) ↔
          ∃ out, applyAll patches document = .ok out)) ↔
      ¬ patches.Pairwise (fun earlier later => ¬ Overlap earlier later) ∨
        ∀ insertion ∈ patches, ∀ replacement ∈ patches,
          ¬ insertion.InsertsAtStart replacement := by
  constructor
  · intro hsame
    by_contra hneither
    obtain ⟨hapart, hinserts⟩ := not_or.mp hneither
    push Not at hapart hinserts
    obtain ⟨insertion, hinsertion, replacement, hreplacement, hmeet⟩ := hinserts
    have hne : replacement ≠ insertion := by
      rintro rfl
      exact Nat.ne_of_lt hmeet.2.2 hmeet.1
    -- One order is applied, but the one that makes the insertion first is refused.
    obtain ⟨accepted, hperm, happly⟩ := (exists_perm_applyAll_iff hfits).mpr hapart
    obtain ⟨rest, hfirst⟩ := exists_perm_cons_cons hinsertion hreplacement hne
    have hrefused := (exists_applyAll_eq_ok_iff (fits_perm hfits hfirst)).mp
      ((hsame _ hfirst).mpr ((hsame accepted hperm).mp happly))
    exact (List.pairwise_cons.mp hrefused).1 replacement List.mem_cons_self (.inr hmeet)
  · rintro (hoverlap | hinserts) others hperm
    · constructor
      · intro happly
        exact absurd ((exists_perm_applyAll_iff hfits).mp ⟨others, hperm, happly⟩) hoverlap
      · intro happly
        exact absurd (pairwise_not_overlap_of_applyAll hfits happly) hoverlap
    · have hothers : ∀ insertion ∈ others, ∀ replacement ∈ others,
          ¬ insertion.InsertsAtStart replacement := by
        intro insertion hinsertion replacement hreplacement
        exact hinserts insertion (hperm.mem_iff.mp hinsertion) replacement
          (hperm.mem_iff.mp hreplacement)
      rw [exists_applyAll_iff_of_not_inserts (fits_perm hfits hperm) hothers,
        exists_applyAll_iff_of_not_inserts hfits hinserts, pairwise_not_overlap_perm hperm]

end Orders

/-- Patches that fit are refused exactly if two of them overlap, or one inserts where a
later one starts to replace; otherwise they are applied.  They are applied in some
order of making exactly if no two of them overlap.  All orders of making are refused
or all are applied exactly if two patches overlap or none inserts where another one
starts to replace. -/
theorem refused_iff_collide (patches : List Patch) (document : Text)
    (hfits : ∀ patch ∈ patches, patch.start ≤ patch.stop ∧ document.IsBoundary patch.start ∧
      document.IsBoundary patch.stop) :
    ((∃ lower higher, applyAll patches document =
        .error (.refused (.overlappingPatches lower higher))) ↔
      ∃ earlier later, [earlier, later].Sublist patches ∧
        (Overlap earlier later ∨ earlier.InsertsAtStart later)) ∧
    ((∃ out, applyAll patches document = .ok out) ↔
      ¬ ∃ earlier later, [earlier, later].Sublist patches ∧
        (Overlap earlier later ∨ earlier.InsertsAtStart later)) ∧
    ((∃ others : List Patch, others.Perm patches ∧ ∃ out, applyAll others document = .ok out) ↔
      ¬ ∃ earlier later, [earlier, later].Sublist patches ∧ Overlap earlier later) ∧
    ((∀ others : List Patch, others.Perm patches →
        ((∃ out, applyAll others document = .ok out) ↔
          ∃ out, applyAll patches document = .ok out)) ↔
      (∃ earlier later, [earlier, later].Sublist patches ∧ Overlap earlier later) ∨
        ∀ insertion ∈ patches, ∀ replacement ∈ patches,
          ¬ insertion.InsertsAtStart replacement) := by
  have hfits : ∀ patch ∈ patches, Fits document patch :=
    fun patch hpatch => fits_iff.mpr (hfits patch hpatch)
  have hok := (exists_applyAll_eq_ok_iff hfits).trans pairwise_not_iff
  refine ⟨?_, hok, (exists_perm_applyAll_iff hfits).trans pairwise_not_iff, ?_⟩
  · constructor
    · rintro ⟨lower, higher, hrefused⟩
      by_contra hnone
      obtain ⟨out, happly⟩ := hok.mpr hnone
      cases hrefused.symm.trans happly
    · intro hcollide
      rcases applyAll_cases_of_fits hfits with happly | ⟨lower, -, higher, -, hrefused⟩
      · exact absurd hcollide (hok.mp happly)
      · exact ⟨lower.identifier, higher.identifier, hrefused⟩
  · rw [forall_perm_applyAll_iff hfits, pairwise_not_iff, not_not]

/-- An insertion made before a replacement that starts at the same place: the two are
refused, and another order of making is applied. -/
theorem refused_iff_collide_of_insertion :
    ∃ (patches : List Patch) (document : Text),
      patches = [⟨['i'], 1, 1, ['+']⟩, ⟨['r'], 1, 3, ['x']⟩] ∧ document = "0123".toList ∧
      (∃ lower higher, applyAll patches document =
        .error (.refused (.overlappingPatches lower higher))) ∧
      ∃ others : List Patch, others.Perm patches ∧
        ∃ out, applyAll others document = .ok out := by
  have hfits : ∀ patch ∈ [(⟨['i'], 1, 1, ['+']⟩ : Patch), ⟨['r'], 1, 3, ['x']⟩],
      patch.start ≤ patch.stop ∧ Text.IsBoundary "0123".toList patch.start ∧
        Text.IsBoundary "0123".toList patch.stop := by
    have hstart : Text.IsBoundary "0123".toList 1 := ⟨['0'], ['1', '2', '3'], rfl, rfl⟩
    have hend : Text.IsBoundary "0123".toList 3 := ⟨['0', '1', '2'], ['3'], rfl, rfl⟩
    intro patch hpatch
    rcases List.mem_pair.mp hpatch with rfl | rfl
    · exact ⟨by decide, hstart, hstart⟩
    · exact ⟨by decide, hstart, hend⟩
  obtain ⟨hrefused, -, hsome, -⟩ := refused_iff_collide
    [⟨['i'], 1, 1, ['+']⟩, ⟨['r'], 1, 3, ['x']⟩] "0123".toList hfits
  refine ⟨_, _, rfl, rfl, hrefused.mpr ?_, hsome.mpr ?_⟩
  · exact ⟨_, _, List.Sublist.refl _, .inr ⟨rfl, rfl, by decide⟩⟩
  · rintro ⟨earlier, later, hpair, hoverlap⟩
    obtain ⟨rfl, hrest⟩ := List.cons.inj (hpair.eq_of_length rfl)
    obtain ⟨rfl, -⟩ := List.cons.inj hrest
    exact absurd hoverlap.2 (by decide)

/-- Patches that fit and do not overlap can be refused, and be applied when they are made
in another order. -/
theorem exists_refused_apart :
    ∃ (patches others : List Patch) (document out : Text),
      patches = [⟨['i'], 1, 1, ['+']⟩, ⟨['r'], 1, 3, ['x']⟩] ∧ document = "0123".toList ∧
      (∀ patch ∈ patches, Fits document patch) ∧
      (patches.Pairwise fun earlier later => ¬ Overlap earlier later) ∧
      applyAll patches document = .error (.refused (.overlappingPatches ['r'] ['i'])) ∧
      others.Perm patches ∧ applyAll others document = .ok out := by
  have hrefused : applyAll [⟨['i'], 1, 1, ['+']⟩, ⟨['r'], 1, 3, ['x']⟩] "0123".toList =
      .error (.refused (.overlappingPatches ['r'] ['i'])) := by
    rw [applyAll, ordered_eq_self (by decide)]
    decide
  have happly : applyAll [⟨['r'], 1, 3, ['x']⟩, ⟨['i'], 1, 1, ['+']⟩] "0123".toList =
      .ok "0+x3".toList := by
    rw [applyAll, ordered_eq_self (by decide)]
    decide
  refine ⟨_, _, _, _, rfl, rfl, ?_, ?_, hrefused, List.Perm.swap _ _ _, happly⟩
  · intro patch hpatch
    rcases List.mem_pair.mp hpatch with rfl | rfl
    · exact Option.isSome_iff_exists.mpr ⟨[], by decide⟩
    · exact Option.isSome_iff_exists.mpr ⟨['1', '2'], by decide⟩
  · simp [Overlap]

end ArrayPatch.Patch
