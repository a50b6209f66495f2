import ArrayPatch.Proofs.Scan.Marked
import ArrayPatch.Proofs.Scan.Reach

/-!
# What marks tell of a run

The marks of a run tell where its turns start and how deep it is nested.  They are
looked at in two ways.  `Nests` counts the arrays and objects that are open, and
`Climbs` is about the offsets of the turns: each is greater than all those before it,
and all of them lie in a range.  Both are kept when steps are put one after the other,
if a step starts where the one before it has left off.

`Tracks` says so of a marked step, whatever it is run from.
-/

namespace ArrayPatch

namespace Mark

variable {limit depth later last low mid high offset : Nat} {marks more : List Mark}

/-- Marks that lead from one number of open arrays and objects to another one, with
no more open in between than the limit allows. -/
structure Nests (limit depth : Nat) (marks : List Mark) (later : Nat) : Prop where
  depthBehind_eq : depthBehind depth marks = later
  depthBehind_le : depth ≤ limit →
    ∀ before after, marks = before ++ after → depthBehind depth before ≤ limit

theorem depthBehind_append (depth : Nat) (marks more : List Mark) :
    depthBehind depth (marks ++ more) = depthBehind (depthBehind depth marks) more :=
  List.foldl_append

theorem nests_nil : Nests limit depth [] depth where
  depthBehind_eq := rfl
  depthBehind_le := by
    intro hdepth before after hmarks
    rw [(List.append_eq_nil_iff.mp hmarks.symm).1]
    exact hdepth

theorem nests_singleton (mark : Mark) (hstep : depth ≤ limit → step depth mark ≤ limit) :
    Nests limit depth [mark] (step depth mark) where
  depthBehind_eq := rfl
  depthBehind_le := by
    intro hdepth before after hmarks
    rcases List.cons_eq_append_iff.mp hmarks with ⟨rfl, -⟩ | ⟨before, rfl, hbefore⟩
    · exact hdepth
    · rw [(List.append_eq_nil_iff.mp hbefore.symm).1]
      exact hstep hdepth

theorem Nests.append (hmarks : Nests limit depth marks later)
    (hmore : Nests limit later more last) : Nests limit depth (marks ++ more) last where
  depthBehind_eq := by
    rw [depthBehind_append, hmarks.depthBehind_eq, hmore.depthBehind_eq]
  depthBehind_le := by
    intro hdepth before after hbefore
    rcases List.append_eq_append_iff.mp hbefore with ⟨front, rfl, hmore'⟩ | ⟨back, hmarks', -⟩
    · have hlater := hmarks.depthBehind_le hdepth marks [] (List.append_nil marks).symm
      rw [hmarks.depthBehind_eq] at hlater
      rw [depthBehind_append, hmarks.depthBehind_eq]
      exact hmore.depthBehind_le hlater front after hmore'
    · exact hmarks.depthBehind_le hdepth before back hmarks'

/-- What is opened and closed again around other marks. -/
theorem Nests.enclose (hdepth : depth < limit) (hmarks : Nests limit (depth + 1) marks later) :
    Nests limit depth (opened :: marks ++ [closed]) (later - 1) :=
  ((nests_singleton opened fun _ => hdepth).append hmarks).append
    (nests_singleton closed fun hlater => Nat.le_trans (Nat.sub_le later 1) hlater)

/-- Offsets in a range, each of them greater than all those before it. -/
structure Climbs (low high : Nat) (offsets : List Nat) : Prop where
  pairwise : offsets.Pairwise (· < ·)
  mem_range : ∀ offset ∈ offsets, low ≤ offset ∧ offset < high

theorem climbs_nil (low high : Nat) : Climbs low high [] where
  pairwise := .nil
  mem_range := List.forall_mem_nil _

variable {offsets others : List Nat}

theorem Climbs.append (hfirst : Climbs low mid offsets) (hsecond : Climbs mid high others)
    (hlow : low ≤ mid) (hhigh : mid ≤ high) : Climbs low high (offsets ++ others) where
  pairwise := List.pairwise_append.mpr ⟨hfirst.pairwise, hsecond.pairwise, fun a ha b hb =>
    Nat.lt_of_lt_of_le (hfirst.mem_range a ha).2 (hsecond.mem_range b hb).1⟩
  mem_range := by
    intro offset hoffset
    rcases List.mem_append.mp hoffset with hoffset | hoffset
    · exact (hfirst.mem_range offset hoffset).imp_right fun hlt => Nat.lt_of_lt_of_le hlt hhigh
    · exact (hsecond.mem_range offset hoffset).imp_left fun hle => Nat.le_trans hlow hle

theorem Climbs.cons (hoffsets : Climbs (offset + 1) high offsets) (hoffset : offset < high) :
    Climbs offset high (offset :: offsets) where
  pairwise := List.pairwise_cons.mpr
    ⟨fun other hother => (hoffsets.mem_range other hother).1, hoffsets.pairwise⟩
  mem_range := by
    intro other hother
    rcases List.mem_cons.mp hother with rfl | hother
    · exact ⟨Nat.le_refl other, hoffset⟩
    · exact (hoffsets.mem_range other hother).imp_left Nat.le_of_succ_le

theorem Climbs.of_le (hoffsets : Climbs mid high offsets) (hlow : low ≤ mid) :
    Climbs low high offsets where
  pairwise := hoffsets.pairwise
  mem_range offset hoffset := (hoffsets.mem_range offset hoffset).imp_left (Nat.le_trans hlow)

theorem Climbs.length_le (hoffsets : Climbs low high offsets) : offsets.length ≤ high - low := by
  induction offsets generalizing low with
  | nil => exact Nat.zero_le _
  | cons offset offsets ih =>
      obtain ⟨hfirst, hothers⟩ := List.pairwise_cons.mp hoffsets.pairwise
      obtain ⟨hlow, hhigh⟩ := hoffsets.mem_range offset List.mem_cons_self
      have hrest : Climbs (offset + 1) high offsets := ⟨hothers, fun other hother =>
        ⟨hfirst other hother, (hoffsets.mem_range other (List.mem_cons_of_mem _ hother)).2⟩⟩
      have hlength := ih hrest
      rw [List.length_cons]
      omega

end Mark

/-! ## Single steps -/

namespace Marked

variable {α β : Type}

/-- Where a step that starts at a cursor has got to at last: to the place of its result
or, if it fails, at most to the end of the text. -/
def reach (cursor : Cursor) (place : α → Cursor) : Except Fault α → Nat
  | .ok a => (place a).offset
  | .error _ => cursor.stop + 1

/-- A step starts its turns from an offset on, in ascending order, and leaves off at a
cursor that it has reached. -/
structure Proceeds (low : Nat) (cursor : Cursor) (place : α → Cursor) (marks : List Mark)
    (result : Except Fault α) : Prop where
  climbs : Mark.Climbs low (reach cursor place result) (Mark.turns marks)
  reaches : ∀ a, result = .ok a → low ≤ (place a).offset ∧ cursor.Reaches (place a)

/-- The turns of a step start at most at the end of the text. -/
theorem Proceeds.reach_le {low : Nat} {cursor : Cursor} {place : α → Cursor} {marks : List Mark}
    {result : Except Fault α} (hproceeds : Proceeds low cursor place marks result) :
    reach cursor place result ≤ cursor.stop + 1 := by
  cases result with
  | error fault => exact Nat.le_refl _
  | ok a => exact Nat.le_succ_of_le (hproceeds.reaches a rfl).2.offset_le_stop

/-- A step that fails does not leave off anywhere. -/
theorem proceeds_error {low : Nat} {cursor : Cursor} {place : α → Cursor} {marks : List Mark}
    (fault : Fault) (hclimbs : Mark.Climbs low (cursor.stop + 1) (Mark.turns marks)) :
    Proceeds low cursor place marks (.error fault) where
  climbs := hclimbs
  reaches := by
    intro a ha
    cases ha

/-- The marks that a step leaves nest and proceed. -/
def Tracks (limit low : Nat) (cursor : Cursor) (place : α → Cursor) (marked : Marked α) : Prop :=
  ∀ state marks result later, marked state = (marks, result, later) →
    Mark.Nests limit state.depth marks later.depth ∧ Proceeds low cursor place marks result

section Steps

variable {limit low offset : Nat} {cursor mid : Cursor} {place : α → Cursor} {place' : β → Cursor}
variable {marked : Marked α} {result : Except Fault α}

theorem reach_eq_of_reaches (hreaches : cursor.Reaches mid) (result : Except Fault α) :
    reach mid place result = reach cursor place result := by
  cases result with
  | error fault => rw [reach, reach, hreaches.stop_eq]
  | ok a => rfl

theorem Tracks.behind {high : Nat} (htracks : Tracks limit high mid place marked)
    (hreaches : cursor.Reaches mid) (hlow : low ≤ high) :
    Tracks limit low cursor place marked := by
  intro state marks result later hmarked
  obtain ⟨hnests, hclimbs, hplace⟩ := htracks state marks result later hmarked
  refine ⟨hnests, ?_, fun a ha => ?_⟩
  · rw [← reach_eq_of_reaches hreaches]
    exact hclimbs.of_le hlow
  · obtain ⟨hoffset, hmid⟩ := hplace a ha
    exact ⟨Nat.le_trans hlow hoffset, hreaches.trans hmid⟩

theorem Tracks.after (htracks : Tracks limit mid.offset mid place marked)
    (hreaches : cursor.Reaches mid) : Tracks limit cursor.offset cursor place marked :=
  htracks.behind hreaches hreaches.offset_le

theorem tracks_pure {a : α} (hplace : place a = cursor) :
    Tracks limit cursor.offset cursor place (pure a) := by
  rintro state _ _ _ ⟨⟩
  refine ⟨Mark.nests_nil, Mark.climbs_nil _ _, ?_⟩
  rintro _ ⟨⟩
  rw [hplace]
  exact ⟨Nat.le_refl _, .refl cursor⟩

theorem tracks_fail (flaw : Flaw) (offset : Nat) :
    Tracks limit low cursor place (Reader.fail flaw offset) := by
  rintro state _ _ _ ⟨⟩
  exact ⟨Mark.nests_nil, proceeds_error _ (Mark.climbs_nil _ _)⟩

/-- A step that reads a token. -/
theorem tracks_token (hreaches : ∀ a, result = .ok a → cursor.Reaches (place a))
    (hlt : ∀ a, (place a).rest.length < cursor.rest.length) :
    Tracks limit (cursor.offset + 1) cursor place (MonadScan.ofExcept result) := by
  rintro state _ _ _ ⟨⟩
  exact ⟨Mark.nests_nil, Mark.climbs_nil _ _, fun a ha =>
    ⟨(hreaches a ha).offset_lt (hlt a), hreaches a ha⟩⟩

theorem tracks_read : Tracks limit (cursor.offset + 1) cursor (fun read => read.2.1)
    (MonadScan.ofExcept (StringToken.read cursor)) :=
  tracks_token (fun _ => Cursor.reaches_read) fun read => read.2.2

theorem tracks_report (site? : Option Site) :
    Tracks limit cursor.offset cursor (fun _ => cursor) (MonadScan.report site?) := by
  rintro state _ _ _ ⟨⟩
  exact ⟨Mark.nests_nil, Mark.climbs_nil _ _, fun _ _ => ⟨Nat.le_refl _, .refl cursor⟩⟩

/-- Steps one after the other. -/
theorem Tracks.bind {next : α → Marked β} (htracks : Tracks limit low cursor place marked)
    (hnext : ∀ a, cursor.Reaches (place a) →
      Tracks limit (place a).offset (place a) place' (next a)) :
    Tracks limit low cursor place' (marked >>= next) := by
  intro state all result later hall
  change marked.bind next state = _ at hall
  rw [Marked.bind] at hall
  rcases hmarked : marked state with ⟨marks, fault | a, between⟩
  · obtain ⟨hnests, hclimbs, -⟩ := htracks state _ _ _ hmarked
    rw [hmarked] at hall
    cases hall
    exact ⟨hnests, proceeds_error fault hclimbs⟩
  · obtain ⟨hnests, hclimbs, hplace⟩ := htracks state _ _ _ hmarked
    obtain ⟨hlow, hreaches⟩ := hplace a rfl
    rcases hmore : next a between with ⟨more, outcome⟩
    rw [hmarked] at hall
    dsimp only at hall
    rw [hmore] at hall
    cases hall
    obtain ⟨hnestsMore, hclimbsMore, hplaceMore⟩ := hnext a hreaches between _ _ _ hmore
    refine ⟨hnests.append hnestsMore, ?_, fun b hb => ?_⟩
    · rw [Mark.turns, List.filterMap_append]
      rw [reach_eq_of_reaches hreaches] at hclimbsMore
      refine hclimbs.append hclimbsMore hlow ?_
      cases result with
      | error fault => exact Nat.le_succ_of_le hreaches.offset_le_stop
      | ok b => exact (hplaceMore b rfl).1
    · obtain ⟨hlow', hreaches'⟩ := hplaceMore b hb
      exact ⟨Nat.le_trans hlow hlow', hreaches.trans hreaches'⟩

/-- A turn that starts with a step whose own turns start later. -/
theorem Tracks.turn (htracks : Tracks limit (offset + 1) cursor place marked)
    (hoffset : offset ≤ cursor.offset) :
    Tracks limit offset cursor place (MonadScan.turn offset marked) := by
  intro state all result later hall
  rcases hmarked : marked state with ⟨marks, outcome⟩
  change Marked.turn offset marked state = _ at hall
  rw [Marked.turn, hmarked] at hall
  cases hall
  obtain ⟨hnests, hclimbs, hplace⟩ := htracks state _ _ _ hmarked
  refine ⟨(Mark.nests_singleton (.turn offset) id).append hnests, hclimbs.cons ?_, fun a ha => ?_⟩
  · cases result with
    | error fault => exact Nat.lt_succ_of_le (Nat.le_trans hoffset (Nat.le_add_right _ _))
    | ok a => exact (hplace a rfl).1
  · exact (hplace a ha).imp_left Nat.le_of_succ_le

/-- A turn at an element or member. -/
theorem Tracks.turn_after (htracks : Tracks limit (mid.offset + 1) mid place marked)
    (hreaches : cursor.Reaches mid) :
    Tracks limit cursor.offset cursor place (MonadScan.turn mid.offset marked) :=
  (htracks.turn (Nat.le_refl _)).after hreaches

/-- A step inside one more array or object. -/
theorem Tracks.nested (htracks : Tracks limit low cursor place marked) (opening : Nat) :
    Tracks limit low cursor place (MonadScan.nested limit opening marked) := by
  intro state all result later hall
  change Marked.nested limit opening marked state = _ at hall
  rw [Marked.nested] at hall
  by_cases hlimit : limit ≤ state.depth
  · rw [if_pos hlimit] at hall
    cases hall
    exact ⟨Mark.nests_nil, proceeds_error _ (Mark.climbs_nil _ _)⟩
  · rcases hmarked : marked { state with depth := state.depth + 1 } with ⟨marks, outcome, inner⟩
    rw [if_neg hlimit, hmarked] at hall
    cases hall
    obtain ⟨hnests, hclimbs, hplace⟩ := htracks _ _ _ _ hmarked
    refine ⟨hnests.enclose (Nat.lt_of_not_le hlimit), ?_, hplace⟩
    rw [List.cons_append, Mark.turns, List.filterMap_cons_none rfl, List.filterMap_append]
    exact (List.append_nil (Mark.turns marks)).symm ▸ hclimbs

end Steps

end Marked

end ArrayPatch
