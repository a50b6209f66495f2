import ArrayPatch.Proofs.Patch.Rewrites

/-!
# Where offsets move

An offset of the old text moves to the offset that is further by what the
patches before it change.  `RewritesPart` is the rewriting of a part of a text
together with the patches of the whole text: those of the part stand between
patches that lie before and behind the part.  The place to which an offset moves
is then followed through the parts from left to right.
-/

namespace ArrayPatch.Patch

/-- An offset of the old text and the offset that it moves to. -/
def Moves (patches : List Patch) (offset moved : Nat) : Prop :=
  (moved : Int) = offset + changeBefore patches offset

/-- A part of a text is rewritten by some of the patches, all other patches lie
before or behind the part, and the start of the part moves to `moved`. -/
structure RewritesPart (all patches : List Patch) (offset moved : Nat) (old new : Text) :
    Prop where
  rewrites : Rewrites patches offset old new
  context : ∃ before after, all = before ++ patches ++ after ∧
    (∀ patch ∈ before, patch.stop ≤ offset) ∧
      ∀ patch ∈ after, offset + old.size ≤ patch.start ∧ patch.start < patch.stop
  moves : Moves all offset moved

namespace RewritesPart

variable {all patches first second : List Patch} {offset start moved newStart : Nat}
variable {old new front item more newItem newMore : Text}

/-- Every patch ends before the part or starts behind an offset in it that no
patch of the part comes before. -/
theorem stop_le_or_le_start (hpart : RewritesPart all patches offset moved old new)
    (hstart : start ≤ offset + old.size) (hclear : ∀ patch ∈ patches, start ≤ patch.start) :
    ∀ patch ∈ all, patch.stop ≤ offset ∨ start ≤ patch.start ∧ patch.start < patch.stop := by
  obtain ⟨before, after, rfl, hbefore, hafter⟩ := hpart.context
  intro patch hpatch
  rcases List.mem_append.mp hpatch with hpatch | hpatch
  · rcases List.mem_append.mp hpatch with hpatch | hpatch
    · exact .inl (hbefore patch hpatch)
    · exact .inr ⟨hclear patch hpatch, (hpart.rewrites.bounds patch hpatch).2.1⟩
  · obtain ⟨hle, hlt⟩ := hafter patch hpatch
    exact .inr ⟨Nat.le_trans hstart hle, hlt⟩

/-- Up to the first patch of a part offsets move together. -/
theorem moves_add (hpart : RewritesPart all patches offset moved old new) (count : Nat)
    (hcount : count ≤ old.size) (hclear : ∀ patch ∈ patches, offset + count ≤ patch.start) :
    Moves all (offset + count) (moved + count) := by
  have hsame : changeBefore all (offset + count) = changeBefore all offset := by
    rw [changeBefore, changeBefore]
    congr 2
    apply List.filter_congr
    intro patch hpatch
    have hplace := hpart.stop_le_or_le_start (Nat.add_le_add_left hcount offset) hclear patch hpatch
    rw [decide_eq_decide]
    omega
  have hmoves := hpart.moves
  rw [Moves] at hmoves
  rw [Moves, hsame]
  omega

/-- The end of a part moves to the end of what it becomes. -/
theorem moves_size (hpart : RewritesPart all patches offset moved old new) :
    Moves all (offset + old.size) (moved + new.size) := by
  have hsize := hpart.rewrites.size_eq
  have hbounds := hpart.rewrites.bounds
  have hmoves := hpart.moves
  obtain ⟨before, after, rfl, hbefore, hafter⟩ := hpart.context
  have hstart : changeBefore (before ++ patches ++ after) offset = (before.map change).sum := by
    rw [changeBefore_append, changeBefore_append, changeBefore_eq_sum hbefore,
      changeBefore_eq_zero, changeBefore_eq_zero, add_zero, add_zero]
    · intro patch hpatch
      have hpatch := hafter patch hpatch
      omega
    · intro patch hpatch
      have hpatch := hbounds patch hpatch
      omega
  have hstop : changeBefore (before ++ patches ++ after) (offset + old.size) =
      (before.map change).sum + (patches.map change).sum := by
    rw [changeBefore_append, changeBefore_append, changeBefore_eq_sum, changeBefore_eq_sum,
      changeBefore_eq_zero, add_zero]
    · intro patch hpatch
      have hpatch := hafter patch hpatch
      omega
    · intro patch hpatch
      exact (hbounds patch hpatch).2.2
    · intro patch hpatch
      exact Nat.le_trans (hbefore patch hpatch) (Nat.le_add_right _ _)
  rw [Moves, hstart] at hmoves
  rw [Moves, hstop]
  omega

/-- An item and what follows it behind a text that is kept. -/
theorem split (hpart : RewritesPart all (first ++ second) offset moved (front ++ item ++ more) new)
    (hstart : start = offset + front.size) (hnewStart : newStart = moved + front.size)
    (hitem : Rewrites first start item newItem)
    (hmore : Rewrites second (start + item.size) more newMore) :
    RewritesPart all first start newStart item newItem ∧
      RewritesPart all second (start + item.size) (newStart + newItem.size) more newMore := by
  have hmoves : Moves all start newStart := by
    rw [hstart, hnewStart]
    apply hpart.moves_add
    · simp only [Text.size_append]
      omega
    · intro patch hpatch
      rcases List.mem_append.mp hpatch with hpatch | hpatch
      · have hbounds := hitem.bounds patch hpatch
        omega
      · have hbounds := hmore.bounds patch hpatch
        omega
  obtain ⟨before, after, hall, hbefore, hafter⟩ := hpart.context
  simp only [Text.size_append] at hafter
  have hitemPart : RewritesPart all first start newStart item newItem := by
    refine ⟨hitem, ⟨before, second ++ after, ?_, ?_, ?_⟩, hmoves⟩
    · rw [hall]
      simp only [List.append_assoc]
    · intro patch hpatch
      have hstop := hbefore patch hpatch
      omega
    · intro patch hpatch
      rcases List.mem_append.mp hpatch with hpatch | hpatch
      · have hbounds := hmore.bounds patch hpatch
        omega
      · have hbounds := hafter patch hpatch
        omega
  refine ⟨hitemPart, hmore, ⟨before ++ first, after, ?_, ?_, ?_⟩, hitemPart.moves_size⟩
  · rw [hall]
    simp only [List.append_assoc]
  · intro patch hpatch
    rcases List.mem_append.mp hpatch with hpatch | hpatch
    · have hstop := hbefore patch hpatch
      omega
    · have hbounds := hitem.bounds patch hpatch
      omega
  · intro patch hpatch
    have hbounds := hafter patch hpatch
    omega

/-- An item at the end of a text behind a text that is kept. -/
theorem back (hpart : RewritesPart all first offset moved (front ++ item) new)
    (hstart : start = offset + front.size) (hnewStart : newStart = moved + front.size)
    (hitem : Rewrites first start item newItem) :
    RewritesPart all first start newStart item newItem := by
  have hwhole : RewritesPart all (first ++ []) offset moved (front ++ item ++ []) new := by
    simpa only [List.append_nil] using hpart
  exact (hwhole.split hstart hnewStart hitem (.done _ [])).1

end RewritesPart

theorem Moves.eq {patches : List Patch} {offset first second : Nat}
    (hfirst : Moves patches offset first) (hsecond : Moves patches offset second) :
    first = second := by
  rw [Moves] at hfirst hsecond
  omega

/-- From an offset that no patch crosses to one further right at most the text
between them is taken out. -/
theorem add_changeBefore_le {patches : List Patch} {offset later : Nat}
    (hascends : patches.Pairwise fun lower higher => lower.stop ≤ higher.start)
    (hrange : ∀ patch ∈ patches, patch.start < patch.stop)
    (hcross : ∀ patch ∈ patches, patch.stop ≤ offset ∨ offset ≤ patch.start)
    (hle : offset ≤ later) :
    offset + changeBefore patches offset ≤ later + changeBefore patches later := by
  induction patches generalizing offset with
  | nil => simpa [changeBefore] using hle
  | cons patch patches ih =>
      obtain ⟨hbehind, hrest⟩ := List.pairwise_cons.mp hascends
      obtain ⟨hpatchRange, hrestRange⟩ := List.forall_mem_cons.mp hrange
      obtain ⟨hpatch, hrestCross⟩ := List.forall_mem_cons.mp hcross
      rcases hpatch with hbefore | hafter
      · have hstep := ih hrest hrestRange hrestCross hle
        rw [changeBefore_cons_of_le hbefore, changeBefore_cons_of_le (Nat.le_trans hbefore hle)]
        omega
      · -- All patches lie behind the offset; what is left of the patch stands at its start.
        have hzero : changeBefore (patch :: patches) offset = 0 := by
          apply changeBefore_eq_zero
          intro other hother
          rcases List.mem_cons.mp hother with rfl | hother
          · omega
          · have hstart := hbehind other hother
            have hstop := hrestRange other hother
            omega
        rw [hzero]
        by_cases hstop : patch.stop ≤ later
        · have hstep := ih hrest hrestRange (fun other hother => .inr (hbehind other hother)) hstop
          have hrestZero : changeBefore patches patch.stop = 0 := by
            apply changeBefore_eq_zero
            intro other hother
            have hstart := hbehind other hother
            have hotherRange := hrestRange other hother
            omega
          rw [changeBefore_cons_of_le hstop, change]
          omega
        · have hlaterZero : changeBefore (patch :: patches) later = 0 := by
            apply changeBefore_eq_zero
            intro other hother
            rcases List.mem_cons.mp hother with rfl | hother
            · omega
            · have hstart := hbehind other hother
              have hotherRange := hrestRange other hother
              omega
          rw [hlaterZero]
          omega

/-- Offsets keep their order if no patch crosses the first one. -/
theorem Moves.le {patches : List Patch} {first second newFirst newSecond : Nat}
    (hfirst : Moves patches first newFirst) (hsecond : Moves patches second newSecond)
    (hascends : patches.Pairwise fun lower higher => lower.stop ≤ higher.start)
    (hrange : ∀ patch ∈ patches, patch.start < patch.stop)
    (hcross : ∀ patch ∈ patches, patch.stop ≤ first ∨ first ≤ patch.start)
    (hle : first ≤ second) : newFirst ≤ newSecond := by
  have hchange := add_changeBefore_le hascends hrange hcross hle
  rw [Moves] at hfirst hsecond
  omega

theorem Rewrites.part {patches : List Patch} {offset : Nat} {old new : Text}
    (hrewrites : Rewrites patches offset old new) :
    RewritesPart patches patches offset offset old new where
  rewrites := hrewrites
  context := ⟨[], [], by simp, List.forall_mem_nil _, List.forall_mem_nil _⟩
  moves := by
    have hzero : changeBefore patches offset = 0 := by
      apply changeBefore_eq_zero
      intro patch hpatch
      have hbounds := hrewrites.bounds patch hpatch
      omega
    rw [Moves, hzero, add_zero]

/-- Text that no patch touches is kept, and both of its ends move. -/
theorem Rewrites.kept {patches : List Patch} {front mid back new : Text}
    (hrewrites : Rewrites patches 0 (front ++ mid ++ back) new)
    (hclear : ∀ patch ∈ patches, patch.stop ≤ front.size ∨ front.size + mid.size ≤ patch.start) :
    ∃ newFront newBack, new = newFront ++ mid ++ newBack ∧
      Moves patches front.size newFront.size ∧
      Moves patches (front.size + mid.size) (newFront.size + mid.size) := by
  rw [List.append_assoc] at hrewrites
  have hwhole := hrewrites.part
  obtain ⟨first, rest, newFront, newRest, rfl, rfl, hfirst, hrest⟩ := hrewrites.cut <| by
    intro patch hpatch
    have hplace := hclear patch hpatch
    omega
  -- The patches that do not end before the kept text start behind it.
  have hbehind : ∀ patch ∈ rest, front.size + mid.size ≤ patch.start := by
    intro patch hpatch
    have hplace := hclear patch (List.mem_append_right first hpatch)
    have hbounds := hrest.bounds patch hpatch
    omega
  obtain ⟨second, third, newMid, newBack, rfl, rfl, hmid, -⟩ := hrest.cut <| by
    intro patch hpatch
    have hplace := hbehind patch hpatch
    omega
  obtain rfl : second = [] := by
    apply List.eq_nil_iff_forall_not_mem.mpr
    intro patch hpatch
    have hplace := hbehind patch (List.mem_append_left third hpatch)
    have hbounds := hmid.bounds patch hpatch
    omega
  cases hmid
  rw [← List.nil_append front] at hwhole
  obtain ⟨-, hpart⟩ := hwhole.split rfl rfl hfirst hrest
  refine ⟨newFront, newBack, (List.append_assoc _ _ _).symm, ?_, ?_⟩
  · simpa using hpart.moves
  · have hmoves := hpart.moves_add mid.size (by simp) (by simpa using hbehind)
    simpa using hmoves

/-- What a patch writes stands at the place that its range moves to. -/
theorem Rewrites.exists_text {patches : List Patch} {offset : Nat} {old new : Text} {patch : Patch}
    (hrewrites : Rewrites patches offset old new) (hpatch : patch ∈ patches) :
    ∃ before after, new = before ++ patch.text ++ after ∧
      Moves patches patch.start (offset + before.size) ∧
      Moves patches patch.stop (offset + before.size + patch.text.size) := by
  induction hrewrites with
  | done => cases hpatch
  | @step first patches offset kept exchanged rest newRest hstart hstop hsize hrest ih =>
      have hbehind := fun other hother => (hrest.bounds other hother).1
      have hrange := fun other hother => (hrest.bounds other hother).2.1
      rcases List.mem_cons.mp hpatch with rfl | hpatch
      · have hzero : changeBefore patches patch.stop = 0 := by
          apply changeBefore_eq_zero
          intro other hother
          exact Nat.lt_of_le_of_lt (hbehind other hother) (hrange other hother)
        have hstartZero : changeBefore (patch :: patches) patch.start = 0 := by
          apply changeBefore_eq_zero
          intro other hother
          rcases List.mem_cons.mp hother with rfl | hother
          · omega
          · have hbefore := hbehind other hother
            have hbounds := hrange other hother
            omega
        refine ⟨kept, newRest, (List.append_assoc _ _ _).symm, ?_, ?_⟩
        · rw [Moves, hstartZero]
          omega
        · rw [Moves, changeBefore_cons_of_le (Nat.le_refl _), hzero, change]
          omega
      · obtain ⟨before, after, rfl, hbefore, hafter⟩ := ih hpatch
        have hle := hbehind patch hpatch
        have hlt := hrange patch hpatch
        refine ⟨kept ++ first.text ++ before, after, ?_, ?_, ?_⟩
        · simp only [List.append_assoc]
        · rw [Moves] at hbefore
          rw [Moves, changeBefore_cons_of_le hle, change]
          simp only [Text.size_append]
          omega
        · rw [Moves] at hafter
          rw [Moves, changeBefore_cons_of_le (Nat.le_trans hle (Nat.le_of_lt hlt)), change]
          simp only [Text.size_append]
          omega

end ArrayPatch.Patch
