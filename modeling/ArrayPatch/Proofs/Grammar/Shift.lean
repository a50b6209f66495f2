import ArrayPatch.Proofs.Grammar.Completeness

/-!
# A tree further on in a text

Where the text of a tree starts is an argument of everything that has offsets.
If it starts further on, then the members of an object, its slots and the sites
that are reported for it have their offsets moved by as much, and nothing else
changes.
-/

namespace ArrayPatch

/-- A site further on in a text. -/
def Site.shift (count : Nat) (site : Site) : Site where
  identifier := site.identifier
  keyStart := site.keyStart + count
  valueStart := site.valueStart + count
  valueEnd := site.valueEnd + count

namespace Grammar

/-- An entry further on in a text. -/
def Entry.shift (count : Nat) (entry : Entry) : Entry :=
  { entry with keyStart := entry.keyStart + count, valueStart := entry.valueStart + count }

/-- A part of a tree further on in a text. -/
def Placed.shift (count : Nat) (placed : Placed) : Placed :=
  { placed with start := placed.start + count }

theorem Entry.valueEnd_shift (count : Nat) (entry : Entry) :
    (entry.shift count).valueEnd = entry.valueEnd + count :=
  Nat.add_right_comm _ _ _

variable (offset count : Nat)

theorem add_open_shift (blanks : Nat) :
    offset + count + 1 + blanks = offset + 1 + blanks + count := by
  omega

theorem add_comma_shift (before after : Nat) :
    offset + count + before + 1 + after = offset + before + 1 + after + count := by
  omega

theorem Member.entry_shift (item : Member) :
    item.entry (offset + count) = (item.entry offset).shift count := by
  cases item with
  | mk key before after value =>
      rw [Member.entry, Member.entry, Member.valueStart, Nat.add_right_comm _ count,
        add_comma_shift]
      rfl

theorem Members.entries_shift : (more : Members) → (offset : Nat) →
    more.entries (offset + count) = (more.entries offset).map (Entry.shift count)
  | .done _, _ => rfl
  | .more before after item rest, offset => by
      rw [Members.entries, Members.entries, add_comma_shift, Nat.add_right_comm _ count,
        Member.entry_shift, Members.entries_shift rest, List.map_cons]

theorem Tree.entries_shift (tree : Tree) :
    tree.entries (offset + count) = (tree.entries offset).map (Entry.shift count) := by
  cases tree with
  | literal | string | emptyArray | array | emptyObject => rfl
  | object blanks first more =>
      rw [Tree.entries, Tree.entries, add_open_shift, Nat.add_right_comm _ count,
        Member.entry_shift, Members.entries_shift, List.map_cons]

mutual

/-- The objects of a tree move with it. -/
theorem Tree.objects_shift (offset : Nat) : (tree : Tree) →
    tree.objects (offset + count) = (tree.objects offset).map (Placed.shift count)
  | .literal _ | .string _ | .emptyArray _ => rfl
  | .emptyObject _ => rfl
  | .array blanks first more => by
      rw [Tree.objects, Tree.objects, add_open_shift, Nat.add_right_comm _ count,
        Tree.objects_shift _ first, Elements.objects_shift _ more, List.map_append]
  | .object blanks first more => by
      rw [Tree.objects, Tree.objects, add_open_shift, Nat.add_right_comm _ count,
        Member.objects_shift _ first, Members.objects_shift _ more, List.map_append,
        List.map_append]
      rfl

theorem Member.objects_shift (offset : Nat) : (item : Member) →
    item.objects (offset + count) = (item.objects offset).map (Placed.shift count)
  | .mk key before after value => by
      rw [Member.objects, Member.objects, Nat.add_right_comm _ count, add_comma_shift,
        Tree.objects_shift _ value]

theorem Elements.objects_shift (offset : Nat) : (more : Elements) →
    more.objects (offset + count) = (more.objects offset).map (Placed.shift count)
  | .done _ => rfl
  | .more before after element rest => by
      rw [Elements.objects, Elements.objects, add_comma_shift, Nat.add_right_comm _ count,
        Tree.objects_shift _ element, Elements.objects_shift _ rest, List.map_append]

theorem Members.objects_shift (offset : Nat) : (more : Members) →
    more.objects (offset + count) = (more.objects offset).map (Placed.shift count)
  | .done _ => rfl
  | .more before after item rest => by
      rw [Members.objects, Members.objects, add_comma_shift, Nat.add_right_comm _ count,
        Member.objects_shift _ item, Members.objects_shift _ rest, List.map_append]

end

end Grammar

open Grammar

namespace Scan.Slots

variable (settings : Settings) (count : Nat)

/-- Slots of an object further on in a text. -/
def shift (slots : Slots) : Slots :=
  { slots with
    target := slots.target.map fun (keyStart, valueStart, valueEnd) =>
      (keyStart + count, valueStart + count, valueEnd + count) }

theorem record_shift (slots : Slots) (entry : Entry) :
    (slots.shift count).record settings (entry.shift count) =
      (slots.record settings entry).shift count := by
  have hplace : (entry.shift count).place? =
      entry.place?.map fun (keyStart, valueStart, valueEnd) =>
        (keyStart + count, valueStart + count, valueEnd + count) := by
    rw [Entry.place?, Entry.place?, Entry.valueEnd_shift]
    by_cases harray : entry.value.isArray <;> simp [Entry.shift, harray]
  rw [record, record, shift, Slots.mk.injEq, hplace]
  refine ⟨rfl, ?_⟩
  exact (apply_ite (Option.map _) _ _ _).symm

theorem foldl_record_shift (slots : Slots) (entries : List Entry) :
    (entries.map (Entry.shift count)).foldl (record settings) (slots.shift count) =
      (entries.foldl (record settings) slots).shift count := by
  induction entries generalizing slots with
  | nil => rfl
  | cons entry entries ih => rw [List.map_cons, List.foldl_cons, record_shift, ih, List.foldl_cons]

theorem site?_shift (slots : Slots) :
    (slots.shift count).site? = slots.site?.map (Site.shift count) := by
  rcases slots with ⟨_ | identifier, _ | ⟨keyStart, valueStart, valueEnd⟩⟩ <;> rfl

end Scan.Slots

namespace Grammar

variable (settings : Settings) (offset count : Nat)

theorem Placed.reported?_shift (placed : Placed) :
    Placed.reported? settings (placed.shift count) =
      (Placed.reported? settings placed).map (Site.shift count) := by
  rw [Placed.reported?, Placed.reported?, ← Scan.Slots.site?_shift,
    ← Scan.Slots.foldl_record_shift, ← Tree.entries_shift]
  rfl

/-- What is reported for the objects of a tree moves with the tree. -/
theorem Tree.filterMap_reported?_shift (tree : Tree) :
    (tree.objects (offset + count)).filterMap (Placed.reported? settings) =
      ((tree.objects offset).filterMap (Placed.reported? settings)).map (Site.shift count) := by
  rw [Tree.objects_shift, List.filterMap_map, List.map_filterMap]
  exact congrArg (List.filterMap · _) (funext (Placed.reported?_shift settings count))

end Grammar

end ArrayPatch
