import ArrayPatch.Grammar.Sites
import Mathlib.Data.List.Forall2

/-!
# Sites at other offsets

Two objects whose members agree except for where they stand have the same site
except for where it stands.  What takes the offsets of the one to those of the
other is a relation, so that this can be said of any way in which a text is moved
about.
-/

namespace ArrayPatch

open Grammar

/-- A site and the same site at other offsets. -/
structure Site.Relocated (moves : Nat → Nat → Prop) (site moved : Site) : Prop where
  identifier_eq : moved.identifier = site.identifier
  keyStart : moves site.keyStart moved.keyStart
  valueStart : moves site.valueStart moved.valueStart
  valueEnd : moves site.valueEnd moved.valueEnd

namespace Grammar

/-- An entry and the same entry at other offsets, as far as sites depend on it. -/
structure Entry.Relocated (moves : Nat → Nat → Prop) (entry moved : Entry) : Prop where
  key_eq : moved.key = entry.key
  meaning_eq : moved.value.meaning? = entry.value.meaning?
  isArray_eq : moved.value.isArray = entry.value.isArray
  keyStart : moves entry.keyStart moved.keyStart
  valueStart : moves entry.valueStart moved.valueStart
  valueEnd : moves entry.valueEnd moved.valueEnd

variable {moves : Nat → Nat → Prop} {entries newEntries : List Entry}

theorem lastEntry?_relocated (hentries : List.Forall₂ (Entry.Relocated moves) entries newEntries)
    (key : Text) :
    Option.Rel (Entry.Relocated moves) ( lastEntry? key entries) ( lastEntry? key newEntries) := by
  have hfind {first second : List Entry}
      (hlists : List.Forall₂ (Entry.Relocated moves) first second) :
      Option.Rel (Entry.Relocated moves) (first.find? fun entry => entry.key = some key)
        (second.find? fun entry => entry.key = some key) := by
    induction hlists with
    | nil => exact .none
    | @cons entry moved first second hentry hrest ih =>
        rw [List.find?_cons, List.find?_cons, hentry.key_eq]
        by_cases hkey : entry.key = some key
        · simpa [hkey] using Option.Rel.some hentry
        · simpa [hkey] using ih
  exact hfind (List.rel_reverse hentries)

/-- The site of an object is the same one. -/
theorem siteOf?_relocated (settings : Settings)
    (hentries : List.Forall₂ (Entry.Relocated moves) entries newEntries) :
    Option.Rel (Site.Relocated moves) (siteOf? settings entries)
      (siteOf? settings newEntries) := by
  have hidentified := lastEntry?_relocated hentries settings.identifierField
  have htarget := lastEntry?_relocated hentries settings.targetField
  rw [siteOf?, siteOf?]
  generalize lastEntry? settings.identifierField entries = identified at hidentified
  generalize lastEntry? settings.identifierField newEntries = newIdentified at hidentified
  generalize lastEntry? settings.targetField entries = target at htarget
  generalize lastEntry? settings.targetField newEntries = newTarget at htarget
  cases hidentified with
  | none => exact .none
  | @some identified newIdentified hidentified =>
      simp only [Option.bind_eq_bind, Option.bind_some, hidentified.meaning_eq]
      cases identified.value.meaning? with
      | none => exact .none
      | some identifier =>
          cases htarget with
          | none => exact .none
          | @some target newTarget htarget =>
              simp only [Option.bind_some, htarget.isArray_eq]
              by_cases harray : target.value.isArray
              · rw [if_pos harray, if_pos harray]
                exact .some ⟨rfl, htarget.keyStart, htarget.valueStart, htarget.valueEnd⟩
              · rw [if_neg harray, if_neg harray]
                exact .none

end Grammar

end ArrayPatch
