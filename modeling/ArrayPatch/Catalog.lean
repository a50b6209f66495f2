import ArrayPatch.Text

/-!
# Catalogs

A catalog keeps entries under distinct names, in ascending order of the names.
Names are compared character by character, by code point; this is also the
order of their UTF-8 bytes.  The order is part of the type, so the entries of a
catalog do not depend on the order in which they were put into it.
-/

namespace ArrayPatch

variable {α : Type}

/-- Entries in strictly ascending order of their names. -/
structure Catalog (name : α → Text) where
  entries : List α
  ascending : entries.Pairwise fun a b => name a < name b
deriving DecidableEq

namespace Catalog

variable {name : α → Text}

/-- Put an entry before the first one with a greater name, in the place of one
with the same name. -/
def place (name : α → Text) (entry : α) : List α → List α
  | [] => [entry]
  | other :: entries =>
      if name entry < name other then entry :: other :: entries
      else if name entry = name other then entry :: entries
      else other :: place name entry entries

theorem mem_of_mem_place {entry a : α} {entries : List α}
    (hmem : a ∈ place name entry entries) : a = entry ∨ a ∈ entries := by
  induction entries with
  | nil => simpa [place] using hmem
  | cons other entries ih =>
      rw [place] at hmem
      split at hmem
      · simpa using hmem
      · split at hmem
        · rcases List.mem_cons.mp hmem with rfl | hmem
          · exact .inl rfl
          · exact .inr (List.mem_cons_of_mem _ hmem)
        · rcases List.mem_cons.mp hmem with rfl | hmem
          · exact .inr List.mem_cons_self
          · exact (ih hmem).imp_right (List.mem_cons_of_mem _)

theorem pairwise_place (entry : α) {entries : List α}
    (hascending : entries.Pairwise fun a b => name a < name b) :
    (place name entry entries).Pairwise fun a b => name a < name b := by
  induction entries with
  | nil => simp [place]
  | cons other entries ih =>
      obtain ⟨hother, hrest⟩ := List.pairwise_cons.mp hascending
      rw [place]
      split
      · rename_i hless
        refine List.pairwise_cons.mpr ⟨fun a ha => ?_, hascending⟩
        rcases List.mem_cons.mp ha with rfl | ha
        · exact hless
        · exact List.lt_trans hless (hother a ha)
      · rename_i hnotLess
        split
        · rename_i hsame
          exact List.pairwise_cons.mpr ⟨fun a ha => hsame ▸ hother a ha, hrest⟩
        · rename_i hdistinct
          refine List.pairwise_cons.mpr ⟨fun a ha => ?_, ih hrest⟩
          rcases mem_of_mem_place ha with rfl | ha
          · grind
          · exact hother a ha

/-- The catalog without entries. -/
def empty : Catalog name :=
  ⟨[], .nil⟩

instance : EmptyCollection (Catalog name) :=
  ⟨empty⟩

/-- The entry of a name. -/
def find? (catalog : Catalog name) (key : Text) : Option α :=
  catalog.entries.find? fun entry => name entry = key

/-- Whether a name has an entry. -/
def contains (catalog : Catalog name) (key : Text) : Bool :=
  catalog.entries.any fun entry => name entry = key

/-- The number of entries. -/
def size (catalog : Catalog name) : Nat :=
  catalog.entries.length

/-- Whether there is no entry at all. -/
def isEmpty (catalog : Catalog name) : Bool :=
  catalog.entries.isEmpty

/-- Put an entry into a catalog; the last entry of a name wins. -/
def put (catalog : Catalog name) (entry : α) : Catalog name :=
  ⟨place name entry catalog.entries, pairwise_place entry catalog.ascending⟩

/-- Add an entry of a new name; the first entry of a name wins, and there is no
result for a second one. -/
def add? (catalog : Catalog name) (entry : α) : Option (Catalog name) :=
  if catalog.contains (name entry) then none else some (catalog.put entry)

/-- Put a list of entries into a catalog, one after the other. -/
def ofList (entries : List α) : Catalog name :=
  entries.foldl put empty

end Catalog

end ArrayPatch
