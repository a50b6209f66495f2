import ArrayPatch.Proofs.Site.Index
import ArrayPatch.Proofs.Text.Order
import Mathlib.Data.Finset.Card
import Mathlib.Data.List.Induction

/-!
# Inserting sites one after the other

After any sequence of insertions into the empty index the first site of every
identifier is there, and no later one.  This is the invariant of the index: an
insertion that is refused keeps the index, and it is refused only if the
identifier has its first site already; an insertion that succeeds adds the first
site of a new identifier.
-/

namespace ArrayPatch.SiteIndex

/-- The index after a sequence of insertions into the empty index. -/
def insertAll (sites : List Site) : SiteIndex :=
  sites.foldl (fun index site => (index.offer site).2) Catalog.empty

/-- An index looks up the first site of every identifier of a list. -/
def HoldsFirst (index : SiteIndex) (sites : List Site) : Prop :=
  ∀ identifier, index.find? identifier = sites.find? fun site => site.identifier = identifier

variable {index : SiteIndex} {sites : List Site} {site : Site}

/-- A site is refused exactly if the identifier is there. -/
theorem offer_eq_ite (index : SiteIndex) (site : Site) :
    index.offer site =
      if index.contains site.identifier then
        (.error (.duplicateIdentifier site.identifier), index)
      else (.ok (), index.put site) := by
  rw [offer, Catalog.add?]
  by_cases hold : index.contains site.identifier
  · rw [if_pos hold, if_pos hold]
  · rw [if_neg hold, if_neg hold]

theorem insert_eq_ite (index : SiteIndex) (site : Site) :
    index.insert site =
      if index.contains site.identifier then .error (.duplicateIdentifier site.identifier)
      else .ok (index.put site) := by
  rw [insert, offer_eq_ite]
  by_cases hold : index.contains site.identifier
  · rw [if_pos hold, if_pos hold]
    rfl
  · rw [if_neg hold, if_neg hold]
    rfl

theorem exists_insert_eq_error_iff :
    (∃ error, index.insert site = .error error) ↔ index.contains site.identifier := by
  rw [insert_eq_ite]
  by_cases hold : index.contains site.identifier <;> simp [hold]

theorem exists_insert_eq_ok_iff :
    (∃ more, index.insert site = .ok more) ↔ ¬ index.contains site.identifier := by
  rw [insert_eq_ite]
  by_cases hold : index.contains site.identifier <;> simp [hold]

theorem eq_duplicateIdentifier_of_insert {error : Error}
    (herror : index.insert site = .error error) :
    error = .duplicateIdentifier site.identifier := by
  rw [insert_eq_ite] at herror
  split at herror
  · cases herror
    rfl
  · cases herror

theorem snd_offer_of_insert_eq_error {error : Error} (herror : index.insert site = .error error) :
    (index.offer site).2 = index := by
  rw [offer_eq_ite, if_pos (exists_insert_eq_error_iff.mp ⟨error, herror⟩)]

theorem snd_offer_eq_ite (index : SiteIndex) (site : Site) :
    (index.offer site).2 =
      if index.contains site.identifier then index else index.put site := by
  rw [offer_eq_ite]
  by_cases hold : index.contains site.identifier
  · rw [if_pos hold, if_pos hold]
  · rw [if_neg hold, if_neg hold]

namespace HoldsFirst

theorem empty : HoldsFirst Catalog.empty [] :=
  fun _ => rfl

/-- The identifiers of the index are those of the list. -/
theorem contains_iff (hfirst : index.HoldsFirst sites) {identifier : Text} :
    index.contains identifier ↔ identifier ∈ sites.map Site.identifier := by
  rw [← Catalog.isSome_find?_iff, hfirst, List.find?_isSome]
  simp

/-- The sites of the index are the first ones of the list. -/
theorem mem_entries_iff (hfirst : index.HoldsFirst sites) :
    site ∈ index.entries ↔
      (sites.find? fun other => other.identifier = site.identifier) = some site := by
  rw [← hfirst, Catalog.find?_eq_some_iff, and_iff_left rfl]

/-- The index keeps first sites over one insertion, whether it is refused or not. -/
theorem offer (hfirst : index.HoldsFirst sites) (site : Site) :
    (index.offer site).2.HoldsFirst (sites ++ [site]) := by
  intro identifier
  rw [snd_offer_eq_ite, List.find?_append, ← hfirst identifier]
  by_cases hold : index.contains site.identifier
  · rw [if_pos hold]
    by_cases hsame : site.identifier = identifier
    · -- The identifier has its first site already.
      obtain ⟨first, hfind⟩ := Option.isSome_iff_exists.mp (Catalog.isSome_find?_iff.mpr hold)
      rw [← hsame, hfind, Option.some_or]
    · rw [List.find?_singleton, if_neg (by simpa using hsame), Option.or_none]
  · rw [if_neg hold, Catalog.find?_put, List.find?_singleton]
    by_cases hsame : site.identifier = identifier
    · have hnone : index.find? identifier = none := by
        rwa [← Option.not_isSome_iff_eq_none, Catalog.isSome_find?_iff, ← hsame]
      rw [if_pos hsame, hnone, if_pos (by simpa using hsame), Option.none_or]
    · rw [if_neg hsame, if_neg (by simpa using hsame), Option.or_none]

/-- There are as many sites as distinct identifiers. -/
theorem size_eq (hfirst : index.HoldsFirst sites) :
    index.size = (sites.map Site.identifier).toFinset.card := by
  have hnames : (index.entries.map Site.identifier).toFinset =
      (sites.map Site.identifier).toFinset := by
    ext identifier
    rw [List.mem_toFinset, List.mem_toFinset, ← hfirst.contains_iff, Catalog.contains_iff,
      List.mem_map]
  rw [← hnames, List.toFinset_card_of_nodup index.nodup_map_name, List.length_map, Catalog.size]

end HoldsFirst

/-! ## Sequences of insertions -/

theorem insertAll_append_singleton (sites : List Site) (site : Site) :
    insertAll (sites ++ [site]) = ((insertAll sites).offer site).2 :=
  List.foldl_append

/-- The index after any insertions holds the first sites, by induction on the
insertions. -/
theorem holdsFirst_insertAll (sites : List Site) : (insertAll sites).HoldsFirst sites := by
  induction sites using List.reverseRecOn with
  | nil => exact .empty
  | append_singleton sites site ih =>
      rw [insertAll_append_singleton]
      exact ih.offer site

/-- An identifier is there exactly if an insertion of it has succeeded: that of its
first site. -/
theorem contains_insertAll_iff {identifier : Text} :
    (insertAll sites).contains identifier ↔
      ∃ before earlier after, sites = before ++ earlier :: after ∧
        earlier.identifier = identifier ∧ ∃ more, (insertAll before).insert earlier = .ok more := by
  constructor
  · intro hcontains
    rw [← Catalog.isSome_find?_iff, holdsFirst_insertAll sites identifier] at hcontains
    obtain ⟨first, hfind⟩ := Option.isSome_iff_exists.mp hcontains
    obtain ⟨hsame, before, after, rfl, hbefore⟩ := List.find?_eq_some_iff_append.mp hfind
    obtain rfl : first.identifier = identifier := by simpa using hsame
    refine ⟨before, first, after, rfl, rfl, ?_⟩
    rw [exists_insert_eq_ok_iff, (holdsFirst_insertAll before).contains_iff]
    intro hmem
    obtain ⟨other, hother, hidentifier⟩ := List.mem_map.mp hmem
    have hdistinct : other.identifier ≠ first.identifier := by simpa using hbefore other hother
    exact hdistinct hidentifier
  · rintro ⟨before, earlier, after, rfl, rfl, -⟩
    rw [(holdsFirst_insertAll _).contains_iff]
    exact List.mem_map_of_mem (List.mem_append_right _ List.mem_cons_self)

/-- For every sequence of insertions into the empty index: a further insertion is
refused exactly if an earlier one of the same identifier has succeeded; it is
refused for its own identifier, and then the index stays as it is.  An identifier
is looked up to its first site, and it is there exactly if some site has it.  The
entries are the first sites, in strictly ascending order of the bytes of their
identifiers, and they are as many as there are distinct identifiers. -/
theorem insertAll_keeps_first (sites : List Site) :
    (∀ site, ((∃ error, (insertAll sites).insert site = .error error) ↔
        ∃ before earlier after, sites = before ++ earlier :: after ∧
          earlier.identifier = site.identifier ∧
          ∃ more, (insertAll before).insert earlier = .ok more) ∧
      ∀ error, (insertAll sites).insert site = .error error →
        error = .duplicateIdentifier site.identifier ∧
          insertAll (sites ++ [site]) = insertAll sites) ∧
    (∀ identifier, (insertAll sites).find? identifier =
      sites.find? fun site => site.identifier = identifier) ∧
    (∀ identifier, (insertAll sites).contains identifier ↔
      identifier ∈ sites.map Site.identifier) ∧
    (∀ site, site ∈ (insertAll sites).entries ↔
      (sites.find? fun other => other.identifier = site.identifier) = some site) ∧
    ((insertAll sites).entries.Pairwise fun earlier later =>
      earlier.identifier.bytes < later.identifier.bytes) ∧
    (insertAll sites).size = (sites.map Site.identifier).toFinset.card := by
  have hfirst := holdsFirst_insertAll sites
  refine ⟨fun site => ⟨?_, ?_⟩, hfirst, fun _ => hfirst.contains_iff,
    fun _ => hfirst.mem_entries_iff, ?_, hfirst.size_eq⟩
  · rw [exists_insert_eq_error_iff, contains_insertAll_iff]
  · intro error herror
    refine ⟨eq_duplicateIdentifier_of_insert herror, ?_⟩
    rw [insertAll_append_singleton, snd_offer_of_insert_eq_error herror]
  · exact (insertAll sites).ascending.imp Text.bytes_lt_bytes_iff.mpr

/-- Of three insertions the last one repeats the identifier of the first one and is
refused.  The other two are listed by their bytes, in which U+FFFF comes before
U+1F600, although its code unit is greater than the surrogates of that. -/
theorem insertAll_keeps_first_of_repeated :
    ∃ first second third : Site, first = ⟨['😀'], 0, 5, 7⟩ ∧ second = ⟨['\uffff'], 9, 14, 16⟩ ∧
      third = ⟨['😀'], 18, 23, 25⟩ ∧
      (insertAll [first, second]).insert third = .error (.duplicateIdentifier ['😀']) ∧
      insertAll [first, second, third] = insertAll [first, second] ∧
      (insertAll [first, second, third]).find? ['😀'] = some first ∧
      (insertAll [first, second, third]).entries = [second, first] := by
  obtain ⟨first, hfirst⟩ : ∃ first : Site, first = ⟨['😀'], 0, 5, 7⟩ := ⟨_, rfl⟩
  obtain ⟨second, hsecond⟩ : ∃ second : Site, second = ⟨['\uffff'], 9, 14, 16⟩ := ⟨_, rfl⟩
  obtain ⟨third, hthird⟩ : ∃ third : Site, third = ⟨['😀'], 18, 23, 25⟩ := ⟨_, rfl⟩
  have hrefused : (insertAll [first, second]).insert third =
      .error (.duplicateIdentifier ['😀']) := by
    have hcontains : (insertAll [first, second]).contains third.identifier := by
      rw [hfirst, hsecond, hthird]
      decide
    rw [insert_eq_ite, if_pos hcontains, hthird]
  have hlast := (insertAll_keeps_first [first, second]).1 third
  obtain ⟨-, hunchanged⟩ := hlast.2 _ hrefused
  obtain ⟨-, hfind, -, -, -, -⟩ := insertAll_keeps_first [first, second, third]
  refine ⟨first, second, third, hfirst, hsecond, hthird, hrefused, hunchanged, ?_, ?_⟩
  · rw [hfind, hfirst]
    rfl
  · rw [hfirst, hsecond, hthird]
    decide

end ArrayPatch.SiteIndex
