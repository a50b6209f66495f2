import ArrayPatch.Grammar.Sites
import ArrayPatch.Scan.Value
import Mathlib.Data.List.Induction
import Mathlib.Tactic.Common

/-!
# Slots hold the last members

The scanner keeps two slots while it reads the members of an object.  After any
list of members each slot says what the last member with the key of the slot
says: the identifier slot holds its string, the target slot the place of its
array, and a slot is empty if there is no such member or its value is of the
wrong kind.  Hence the site that the slots give when the object closes is the
site of the object.

This supposes that the two field names differ.  Which members are recorded in
the slots, and where a site comes from, is said without this.
-/

namespace ArrayPatch

open Grammar

namespace Grammar

/-- The place of the array of an entry. -/
def Entry.place? (entry : Entry) : Option (Nat × Nat × Nat) :=
  if entry.value.isArray then some (entry.keyStart, entry.valueStart, entry.valueEnd) else none

theorem Tree.isArray_eq_false_of_meaning? {tree : Tree} {text : Text}
    (hmeaning : tree.meaning? = some text) : tree.isArray = false := by
  apply Bool.eq_false_iff.mpr
  intro harray
  rw [Tree.meaning?_eq_none_of_isArray harray] at hmeaning
  cases hmeaning

/-- The last entry of a list decides if it has the key. -/
theorem lastEntry?_append_singleton (key : Text) (entries : List Entry) (entry : Entry) :
    lastEntry? key (entries ++ [entry]) =
      if entry.key = some key then some entry else lastEntry? key entries := by
  rw [ lastEntry?, List.reverse_append, List.reverse_singleton, List.singleton_append,
    List.find?_cons]
  by_cases hkey : entry.key = some key
  · simp [hkey]
  · simp [hkey, lastEntry?]

/-- The site of an object in terms of its last entries. -/
theorem siteOf?_eq_bind (settings : Settings) (entries : List Entry) :
    siteOf? settings entries =
      (( lastEntry? settings.identifierField entries).bind (·.value.meaning?)).bind
        fun identifier => (( lastEntry? settings.targetField entries).bind Entry.place?).map
          fun (keyStart, valueStart, valueEnd) =>
            { identifier, keyStart, valueStart, valueEnd } := by
  simp only [siteOf?]
  cases lastEntry? settings.identifierField entries with
  | none => rfl
  | some identified =>
      cases hmeaning : identified.value.meaning? with
      | none => simp [hmeaning]
      | some identifier =>
          cases lastEntry? settings.targetField entries with
          | none => simp [hmeaning]
          | some target =>
              by_cases harray : target.value.isArray
              · simp [hmeaning, Entry.place?, harray]
              · simp [hmeaning, Entry.place?, harray]

end Grammar

namespace Scan.Slots

variable {settings : Settings} {slots : Slots} {entry : Entry} {key : Text}

/-- Enter a member into the slots: the slot of its key takes over what the
member says. -/
def enter (settings : Settings) (slots : Slots) (entry : Entry) : Slots where
  identifier :=
    if entry.key = some settings.identifierField then entry.value.meaning? else slots.identifier
  target := if entry.key = some settings.targetField then entry.place? else slots.target

/-- Enter a member as reading it does, whatever the fields are.  A member whose
key is both fields enters only the slot that it fills, if it fills one. -/
def record (settings : Settings) (slots : Slots) (entry : Entry) : Slots where
  identifier :=
    if entry.key = some settings.identifierField ∧
        ¬ (entry.key = some settings.targetField ∧ entry.value.isArray) then
      entry.value.meaning?
    else slots.identifier
  target :=
    if entry.key = some settings.targetField ∧
        ¬ (entry.key = some settings.identifierField ∧ entry.value.meaning?.isSome) then
      entry.place?
    else slots.target

/-- Reading an identifier records its member. -/
theorem identify_eq_record {identifier : Text}
    (hkey : entry.key = some settings.identifierField)
    (hmeaning : entry.value.meaning? = some identifier) :
    slots.identify identifier = slots.record settings entry := by
  have harray := Tree.isArray_eq_false_of_meaning? hmeaning
  simp [identify, record, hkey, hmeaning, harray]

theorem aim_eq_record (hkey : entry.key = some settings.targetField)
    (harray : entry.value.isArray) :
    slots.aim entry.keyStart entry.valueStart entry.valueEnd = slots.record settings entry := by
  have hmeaning := Tree.meaning?_eq_none_of_isArray harray
  simp [aim, record, hkey, Entry.place?, harray, hmeaning]

theorem pass_eq_record (hkey : entry.key = some key)
    (hidentifier : key = settings.identifierField → entry.value.meaning? = none)
    (htarget : key = settings.targetField → entry.value.isArray = false) :
    slots.pass settings key = slots.record settings entry := by
  have hnoArray : ¬ (some key = some settings.targetField ∧ entry.value.isArray) := by
    rintro ⟨hfield, harray⟩
    rw [htarget (Option.some.inj hfield)] at harray
    cases harray
  have hnoText : ¬ (some key = some settings.identifierField ∧ entry.value.meaning?.isSome) := by
    rintro ⟨hfield, hsome⟩
    rw [hidentifier (Option.some.inj hfield)] at hsome
    cases hsome
  rw [pass, record, Slots.mk.injEq, hkey]
  constructor
  · by_cases hfield : key = settings.identifierField
    · rw [if_pos hfield, if_pos ⟨congrArg some hfield, hnoArray⟩, hidentifier hfield]
    · rw [if_neg hfield, if_neg fun hboth => hfield (Option.some.inj hboth.1)]
  · by_cases hfield : key = settings.targetField
    · rw [if_pos hfield, if_pos ⟨congrArg some hfield, hnoText⟩, Entry.place?, htarget hfield]
      rfl
    · rw [if_neg hfield, if_neg fun hboth => hfield (Option.some.inj hboth.1)]

/-- If the fields differ, then recording a member enters it. -/
theorem record_eq_enter (hfields : settings.identifierField ≠ settings.targetField) :
    record settings = enter settings := by
  funext slots entry
  have hone : entry.key = some settings.identifierField →
      entry.key ≠ some settings.targetField :=
    fun hkey hkey' => hfields (Option.some.inj (hkey.symm.trans hkey'))
  rw [record, enter, Slots.mk.injEq]
  constructor
  · exact if_congr (and_iff_left_of_imp fun hkey hboth => hone hkey hboth.1) rfl rfl
  · exact if_congr (and_iff_left_of_imp fun hkey hboth => hone hboth.1 hkey) rfl rfl

/-- The target slot comes from a member with the target field as its key. -/
theorem target_foldl_record {place : Nat × Nat × Nat} {entries : List Entry}
    (htarget : (entries.foldl (record settings) slots).target = some place) :
    slots.target = some place ∨
      ∃ entry ∈ entries, entry.key = some settings.targetField ∧ entry.place? = some place := by
  induction entries generalizing slots with
  | nil => exact .inl htarget
  | cons entry entries ih =>
      rcases ih htarget with hslot | ⟨other, hother, hplace⟩
      · by_cases hkey : entry.key = some settings.targetField ∧
            ¬ (entry.key = some settings.identifierField ∧ entry.value.meaning?.isSome)
        · have hplace := (if_pos hkey).symm.trans hslot
          exact .inr ⟨entry, List.mem_cons_self, hkey.1, hplace⟩
        · have hbefore := (if_neg hkey).symm.trans hslot
          exact .inl hbefore
      · exact .inr ⟨other, List.mem_cons_of_mem _ hother, hplace⟩

/-- A site that the slots give lies at the array of a member with the target
field as its key. -/
theorem exists_target_of_site? {entries : List Entry} {site : Site}
    (hsite : (entries.foldl (record settings) {}).site? = some site) :
    ∃ target ∈ entries, target.key = some settings.targetField ∧ target.value.isArray ∧
      site.keyStart = target.keyStart ∧ site.valueStart = target.valueStart ∧
        site.valueEnd = target.valueEnd := by
  rw [site?] at hsite
  split at hsite
  · rename_i identifier keyStart valueStart valueEnd _ htarget
    obtain rfl := Option.some.inj hsite
    rcases target_foldl_record htarget with hempty | ⟨target, hmem, hkey, hplace⟩
    · cases hempty
    · obtain ⟨harray, heq⟩ := Option.ite_none_right_eq_some.mp hplace
      cases heq
      exact ⟨target, hmem, hkey, harray, rfl, rfl, rfl⟩
  · cases hsite

/-- After all members of an object each slot says what the last member of its
key says. -/
theorem foldl_enter_eq (entries : List Entry) :
    entries.foldl (enter settings) {} =
      { identifier := ( lastEntry? settings.identifierField entries).bind (·.value.meaning?)
        target := ( lastEntry? settings.targetField entries).bind Entry.place? } := by
  induction entries using List.reverseRecOn with
  | nil => rfl
  | append_singleton entries entry ih =>
      rw [List.foldl_append, ih, List.foldl_cons, List.foldl_nil, enter, Slots.mk.injEq,
        lastEntry?_append_singleton, lastEntry?_append_singleton]
      constructor
      · by_cases hkey : entry.key = some settings.identifierField
        · rw [if_pos hkey, if_pos hkey]
          rfl
        · rw [if_neg hkey, if_neg hkey]
      · by_cases hkey : entry.key = some settings.targetField
        · rw [if_pos hkey, if_pos hkey]
          rfl
        · rw [if_neg hkey, if_neg hkey]

/-- The slots of an object that closes give the site of the object. -/
theorem site?_foldl_enter (entries : List Entry) :
    (entries.foldl (enter settings) {}).site? = siteOf? settings entries := by
  rw [foldl_enter_eq, siteOf?_eq_bind, site?]
  cases ( lastEntry? settings.identifierField entries).bind (·.value.meaning?) with
  | none => rfl
  | some identifier =>
      cases ( lastEntry? settings.targetField entries).bind Entry.place? with
      | none => rfl
      | some place => rfl

end Scan.Slots

end ArrayPatch
