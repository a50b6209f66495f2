import ArrayPatch.Proofs.Document.Outcome
import ArrayPatch.Proofs.Document.Rescan
import ArrayPatch.Proofs.Layout.Shown
import ArrayPatch.Proofs.Patch.Rebuild

/-!
# Texts cut at arrays

A text is cut into segments that each end with the array of an identifier.  A
segment is written by exchanging its array for the rendering of a desired list;
what stands in front of the array is kept, and with it the indentation of the
line that the key is on, if this line starts in the segment.

Updating a text writes its segments.  The new text is cut into the written
segments, so updates in a row are writes in a row.
-/

namespace ArrayPatch

open Grammar (AllBlank IsDocument rewrites_items)
open Patch

/-- A text that ends with an array, cut in front of the key and behind it. -/
structure Segment where
  identifier : Text
  lead : Text
  key : Text
  array : Text

namespace Segment

/-- The text of a segment. -/
def text (segment : Segment) : Text :=
  segment.lead ++ segment.key ++ segment.array

/-- The indentation of the line that the key is on. -/
def indentation (segment : Segment) : Text :=
  segment.lead.lastLine.takeWhile isIndent

/-- The site of a segment that starts at an offset. -/
def site (offset : Nat) (segment : Segment) : Site where
  identifier := segment.identifier
  keyStart := offset + segment.lead.size
  valueStart := offset + segment.lead.size + segment.key.size
  valueEnd := offset + segment.lead.size + segment.key.size + segment.array.size

/-- Segments with the offsets at which they start. -/
def placed : Nat → List Segment → List (Nat × Segment)
  | _, [] => []
  | offset, segment :: more => (offset, segment) :: placed (offset + segment.text.size) more

/-- The text of segments side by side. -/
def joined (segments : List Segment) : Text :=
  segments.flatMap text

variable (layout : Layout) (desired : Desired)

/-- A segment with the rendering of the desired list of its identifier, if there is
one. -/
def write (segment : Segment) : Segment :=
  { segment with
    array := (desired.find? segment.identifier).elim segment.array fun entry =>
      layout.render segment.indentation entry.2 }

/-- The patch of a segment that changes. -/
def patch? (offset : Nat) (segment : Segment) : Option Patch :=
  if (segment.write layout desired).array = segment.array then
    none
  else
    some ⟨segment.identifier, (segment.site offset).valueStart, (segment.site offset).valueEnd,
      (segment.write layout desired).array⟩

/-- The patches of the segments that change. -/
def patches (offset : Nat) (segments : List Segment) : List Patch :=
  (placed offset segments).filterMap fun segment => segment.2.patch? layout desired segment.1

/-- Every desired identifier has a segment. -/
def Include (segments : List Segment) (desired : Desired) : Prop :=
  ∀ identifier, desired.contains identifier →
    ∃ segment ∈ segments, segment.identifier = identifier

section Writing

variable {layout desired} {first second both : Desired} {segment : Segment}

theorem array_write_of_none (hdesired : desired.find? segment.identifier = none) :
    (segment.write layout desired).array = segment.array := by
  rw [write, hdesired, Option.elim_none]

theorem array_write_of_some {name : Text} {values : List Text}
    (hdesired : desired.find? segment.identifier = some (name, values)) :
    (segment.write layout desired).array = layout.render segment.indentation values := by
  rw [write, hdesired, Option.elim_some]

/-- Of two writes in a row the second one decides, as far as it goes. -/
theorem write_write (hboth : ∀ identifier,
      both.find? identifier = (second.find? identifier).or (first.find? identifier)) :
    write layout second ∘ write layout first = write layout both := by
  funext segment
  rw [Function.comp_apply, write, write, write, hboth, Segment.mk.injEq]
  refine ⟨rfl, rfl, rfl, ?_⟩
  cases second.find? segment.identifier <;> rfl

theorem Include.map_write {segments : List Segment} (hinclude : Include segments desired)
    (layout : Layout) (written : Desired) :
    Include (segments.map (write layout written)) desired := by
  intro identifier hcontains
  obtain ⟨segment, hsegment, rfl⟩ := hinclude identifier hcontains
  exact ⟨_, List.mem_map_of_mem hsegment, rfl⟩

theorem Include.of_find?_eq_or {segments : List Segment} (hfirst : Include segments first)
    (hsecond : Include segments second) (hboth : ∀ identifier,
      both.find? identifier = (second.find? identifier).or (first.find? identifier)) :
    Include segments both := by
  intro identifier hcontains
  rw [← Catalog.isSome_find?_iff, hboth, Option.isSome_or, Bool.or_eq_true,
    Catalog.isSome_find?_iff, Catalog.isSome_find?_iff] at hcontains
  exact hcontains.elim (hsecond identifier) (hfirst identifier)

end Writing

section Places

variable {segments : List Segment} {segment : Segment} {start offset : Nat}

theorem mem_of_mem_placed (hplaced : (offset, segment) ∈ placed start segments) :
    segment ∈ segments := by
  induction segments generalizing start with
  | nil => cases hplaced
  | cons first more ih =>
      rcases List.mem_cons.mp hplaced with heq | hplaced
      · cases heq
        exact List.mem_cons_self
      · exact List.mem_cons_of_mem first (ih hplaced)

theorem exists_mem_placed (hsegment : segment ∈ segments) (start : Nat) :
    ∃ offset, (offset, segment) ∈ placed start segments := by
  induction segments generalizing start with
  | nil => cases hsegment
  | cons first more ih =>
      rcases List.mem_cons.mp hsegment with rfl | hsegment
      · exact ⟨start, List.mem_cons_self⟩
      · obtain ⟨offset, hoffset⟩ := ih hsegment (start + first.text.size)
        exact ⟨offset, List.mem_cons_of_mem _ hoffset⟩

/-- Only the first segment has nothing in front of it. -/
theorem exists_before_of_mem_placed (hplaced : (offset, segment) ∈ placed start segments)
    (rest : Text) :
    ∃ before behind, joined segments ++ rest = before ++ segment.text ++ behind ∧
      offset = start + before.size ∧ (before = [] ∨ segment ∈ segments.tail) := by
  induction segments generalizing start with
  | nil => cases hplaced
  | cons first more ih =>
      rcases List.mem_cons.mp hplaced with heq | hplaced
      · cases heq
        exact ⟨[], joined more ++ rest, List.append_assoc _ _ _, rfl, .inl rfl⟩
      · obtain ⟨before, behind, hjoined, hoffset, -⟩ := ih hplaced
        refine ⟨first.text ++ before, behind, ?_, ?_, .inr (mem_of_mem_placed hplaced)⟩
        · rw [joined, List.flatMap_cons, ← joined, List.append_assoc, hjoined]
          simp only [List.append_assoc]
        · rw [hoffset, Text.size_append, Nat.add_assoc]

end Places

/-! ## Patches -/

section Patches

variable {layout desired} {segments : List Segment} {segment : Segment}
variable {all first second : List Patch}
variable {offset moved : Nat} {rest new : Text}

theorem rewrites_patch? (hsome : 0 < segment.array.size) :
    Rewrites (segment.patch? layout desired offset).toList
      (offset + segment.lead.size + segment.key.size) segment.array
      (segment.write layout desired).array := by
  rw [patch?]
  split
  · rename_i hsame
    rw [hsame]
    exact .done _ _
  · exact .single rfl rfl hsome

theorem patches_cons (more : List Segment) :
    patches layout desired offset (segment :: more) =
      (segment.patch? layout desired offset).toList ++
        patches layout desired (offset + segment.text.size) more := by
  rw [patches, placed, List.filterMap_cons, patches]
  cases segment.patch? layout desired offset <;> rfl

/-- The text in front of an array. -/
theorem add_size_front (segment : Segment) (offset : Nat) :
    offset + segment.lead.size + segment.key.size =
      offset + (segment.lead ++ segment.key).size := by
  rw [Text.size_append, Nat.add_assoc]

theorem add_size_text (segment : Segment) (offset : Nat) :
    offset + segment.text.size =
      offset + segment.lead.size + segment.key.size + segment.array.size := by
  rw [text, Text.size_append, ← Nat.add_assoc, add_size_front]

theorem joined_cons_append (more : List Segment) (rest : Text) :
    joined (segment :: more) ++ rest =
      segment.lead ++ segment.key ++ segment.array ++ (joined more ++ rest) :=
  List.append_assoc _ _ _

/-- Writing rewrites the segments. -/
theorem rewrites_patches (hsome : ∀ segment ∈ segments, 0 < segment.array.size) (rest : Text)
    (offset : Nat) :
    Rewrites (patches layout desired offset segments) offset (joined segments ++ rest)
      (joined (segments.map (write layout desired)) ++ rest) := by
  induction segments generalizing offset with
  | nil => exact .done offset _
  | cons segment more ih =>
      obtain ⟨hfirst, hmore⟩ := List.forall_mem_cons.mp hsome
      rw [patches_cons, List.map_cons, joined_cons_append, joined_cons_append]
      apply rewrites_items (add_size_front segment offset) (rewrites_patch? hfirst)
      rw [← add_size_text]
      exact ih hmore _

/-- A placed segment and the written one that it becomes. -/
structure Written (layout : Layout) (desired : Desired) (all : List Patch)
    (old new : Nat × Segment) : Prop where
  write_eq : new.2 = old.2.write layout desired
  movesTo : (old.2.site old.1).MovesTo all (new.2.site new.1)
  survives : (old.2.site old.1).Survives all

/-- The site of the first segment survives and moves with the segment. -/
theorem written_of_clear (hpart : RewritesPart all first offset moved (segment.text ++ rest) new)
    (hclear : ∀ patch ∈ first, (segment.site offset).valueStart ≤ patch.start)
    (hitem : RewritesPart all second (segment.site offset).valueStart
      ((segment.write layout desired).site moved).valueStart segment.array
      (segment.write layout desired).array) :
    Written layout desired all (offset, segment) (moved, segment.write layout desired) := by
  have hsize := Text.size_append segment.text rest
  have htext := add_size_text segment offset
  have hkey : Moves all (offset + segment.lead.size) (moved + segment.lead.size) := by
    apply hpart.moves_add
    · omega
    · intro patch hpatch
      exact Nat.le_trans (Nat.le_add_right _ _) (hclear patch hpatch)
  refine ⟨rfl, ⟨rfl, hkey, hitem.moves, hitem.moves_size⟩, ?_⟩
  rintro patch hpatch ⟨hbefore, hbehind⟩
  dsimp only [site] at hclear hbefore hbehind
  rcases hpart.stop_le_or_le_start (by omega) hclear patch hpatch with hle | ⟨hle, -⟩ <;> omega

/-- The sites of segments survive and move with them. -/
theorem written_placed (hsome : ∀ segment ∈ segments, 0 < segment.array.size)
    (hpart : RewritesPart all (patches layout desired offset segments) offset moved
      (joined segments ++ rest) new) :
    List.Forall₂ (Written layout desired all) (placed offset segments)
      (placed moved (segments.map (write layout desired))) := by
  induction segments generalizing offset moved new with
  | nil => exact .nil
  | cons segment more ih =>
      obtain ⟨hfirst, hmore⟩ := List.forall_mem_cons.mp hsome
      have hitem : Rewrites (segment.patch? layout desired offset).toList _ _ _ :=
        rewrites_patch? hfirst
      have hbehind : Rewrites (patches layout desired (offset + segment.text.size) more) _ _ _ :=
        rewrites_patches hmore rest _
      rw [add_size_text] at hbehind
      rw [patches_cons, joined_cons_append, add_size_text] at hpart
      obtain ⟨hitemPart, hmorePart⟩ := hpart.split (add_size_front segment offset)
        (add_size_front (segment.write layout desired) moved) hitem hbehind
      rw [← add_size_text, ← add_size_text (segment.write layout desired)] at hmorePart
      rw [placed, List.map_cons, placed]
      refine .cons (written_of_clear hpart ?_ hitemPart) (ih hmore hmorePart)
      intro patch hpatch
      dsimp only [site]
      rcases List.mem_append.mp hpatch with hpatch | hpatch
      · exact (hitem.bounds patch hpatch).1
      · have hbounds := hbehind.bounds patch hpatch
        omega

end Patches

end Segment

end ArrayPatch
