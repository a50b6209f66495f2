import ArrayPatch.Catalog
import Mathlib.Data.List.Nodup
import Mathlib.Tactic.Common

/-!
# Catalogs as sets of entries

Looking up a name finds the one entry with this name, and adding an entry of a
new name adds nothing else.  Both facts rest on the order that the type of
catalogs carries; with them the entries can be treated as a set.
-/

namespace ArrayPatch.Catalog

variable {α : Type} {name : α → Text}

theorem contains_iff {catalog : Catalog name} {key : Text} :
    catalog.contains key ↔ ∃ a ∈ catalog.entries, name a = key := by
  simp [contains]

theorem nodup_map_name (catalog : Catalog name) : (catalog.entries.map name).Nodup := by
  apply List.pairwise_map.mpr
  apply catalog.ascending.imp
  intro a b hless hname
  rw [hname] at hless
  exact List.lt_irrefl _ hless

theorem eq_of_name_eq {catalog : Catalog name} {a b : α} (ha : a ∈ catalog.entries)
    (hb : b ∈ catalog.entries) (hname : name a = name b) : a = b :=
  List.inj_on_of_nodup_map catalog.nodup_map_name ha hb hname

theorem find?_eq_some_iff {catalog : Catalog name} {key : Text} {a : α} :
    catalog.find? key = some a ↔ a ∈ catalog.entries ∧ name a = key := by
  constructor
  · intro hfind
    exact ⟨List.mem_of_find?_eq_some hfind, by simpa using List.find?_some hfind⟩
  · rintro ⟨ha, rfl⟩
    cases hfind : catalog.find? (name a) with
    | none => simpa using List.find?_eq_none.mp hfind a ha
    | some b =>
        have hb := List.mem_of_find?_eq_some hfind
        have hname : name b = name a := by simpa using List.find?_some hfind
        rw [eq_of_name_eq hb ha hname]

theorem isSome_find?_iff {catalog : Catalog name} {key : Text} :
    (catalog.find? key).isSome ↔ catalog.contains key := by
  rw [contains_iff, Option.isSome_iff_exists]
  simp only [find?_eq_some_iff]

theorem place_perm {entry : α} {entries : List α} (hnew : ∀ a ∈ entries, name a ≠ name entry) :
    (place name entry entries).Perm (entry :: entries) := by
  induction entries with
  | nil => exact List.Perm.refl _
  | cons other entries ih =>
      obtain ⟨hother, hrest⟩ := List.forall_mem_cons.mp hnew
      rw [place, if_neg hother.symm]
      split
      · exact List.Perm.refl _
      · exact ((ih hrest).cons other).trans (List.Perm.swap entry other entries)

/-- Adding succeeds exactly for a new name, and adds the entry. -/
theorem exists_add?_iff {catalog : Catalog name} {entry : α} :
    (∃ more, catalog.add? entry = some more) ↔ ¬ catalog.contains (name entry) := by
  rw [add?]
  split
  · rename_i hold
    simp [hold]
  · rename_i hnew
    simp [hnew]

theorem entries_perm_of_add? {catalog more : Catalog name} {entry : α}
    (hadd : catalog.add? entry = some more) : more.entries.Perm (entry :: catalog.entries) := by
  have hnew := exists_add?_iff.mp ⟨more, hadd⟩
  rw [add?, if_neg hnew] at hadd
  cases hadd
  apply place_perm
  intro a ha hname
  exact hnew (contains_iff.mpr ⟨a, ha, hname⟩)

/-- Behind placing an entry its name stands for it, and other names for what they
stood for. -/
theorem find?_place (entry : α) (entries : List α) (key : Text) :
    ((place name entry entries).find? fun a => name a = key) =
      if name entry = key then some entry else entries.find? fun a => name a = key := by
  induction entries with
  | nil => by_cases hkey : name entry = key <;> simp [place, hkey]
  | cons other entries ih =>
      rw [place]
      split
      · by_cases hkey : name entry = key <;> simp [hkey]
      · split
        · rename_i hsame
          by_cases hkey : name entry = key
          · simp [hkey]
          · simp [hkey, hsame ▸ hkey]
        · rename_i hdistinct
          by_cases hother : name other = key
          · have hkey : name entry ≠ key := fun hkey => hdistinct (hkey.trans hother.symm)
            simp [hother, hkey]
          · rw [List.find?_cons_of_neg (by simpa using hother), ih,
              List.find?_cons_of_neg (by simpa using hother)]

theorem find?_put (catalog : Catalog name) (entry : α) (key : Text) :
    (catalog.put entry).find? key = if name entry = key then some entry else catalog.find? key :=
  find?_place entry catalog.entries key

/-- The entries of two catalogs, those of the second one where both have a name. -/
def override (first second : Catalog name) : Catalog name :=
  second.entries.foldr (fun entry catalog => catalog.put entry) first

/-- A name is looked up in the second catalog, and in the first one if it is not
there. -/
theorem find?_override (first second : Catalog name) (key : Text) :
    (first.override second).find? key = (second.find? key).or (first.find? key) := by
  have hsecond : second.find? key = second.entries.find? fun a => name a = key := rfl
  rw [override, hsecond]
  generalize second.entries = entries
  induction entries with
  | nil => rfl
  | cons entry entries ih =>
      rw [List.foldr_cons, find?_put, ih]
      by_cases hkey : name entry = key <;> simp [hkey]

/-- If no name is in both catalogs, then it does not matter which one comes first. -/
theorem find?_override_of_disjoint {first second : Catalog name}
    (hdisjoint : ∀ key, first.contains key → ¬ second.contains key) (key : Text) :
    (first.override second).find? key = (first.find? key).or (second.find? key) := by
  rw [find?_override]
  cases hfirst : first.find? key with
  | none => rw [Option.or_none, Option.none_or]
  | some entry =>
      have hcontains := isSome_find?_iff.mp (Option.isSome_of_eq_some hfirst)
      have hsecond : second.find? key = none := by
        rw [← Option.not_isSome_iff_eq_none, isSome_find?_iff]
        exact hdisjoint key hcontains
      rw [hsecond, Option.none_or, Option.some_or]

end ArrayPatch.Catalog
