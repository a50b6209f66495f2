import ArrayPatch.Proofs.Patch.Build
import ArrayPatch.Proofs.Scan.Agreement
import ArrayPatch.Proofs.Site.Spans

/-!
# The values of a site can be read

The scan that makes an index reads every array of the index where it lies, with
the arrays and objects around it open.  Reading the values of a site starts at
the array with nothing open, and by loops of its own.  It does not fail: the array
is the text of a tree which is no deeper than the document, and whatever follows
the array does not matter.  So a document refuses to read values only for an
identifier that it does not have.
-/

namespace ArrayPatch

open Grammar

/-- At a site of an index stands an array that is no deeper than the limit. -/
theorem SiteIndex.exists_array_of_mem {settings : Settings} {text : Text} {index : SiteIndex}
    {site : Site} (hlocate : SiteIndex.locate settings text = .ok index)
    (hsite : site ∈ index.entries) :
    ∃ array : Tree, array.isArray ∧ array.WellFormed ∧ array.depth ≤ settings.maxDepth ∧
      text.HasAt 0 array.text site.valueStart ∧
      site.valueEnd = site.valueStart + array.text.size := by
  obtain ⟨blanks, tree, after, hdocument, hperm⟩ := exists_reported_of_locate hlocate
  have hplace : text.HasAt 0 tree.text blanks.size :=
    ⟨blanks, after, hdocument.text_eq, Nat.zero_add _⟩
  obtain ⟨placed, hplaced, hreported⟩ := List.mem_filterMap.mp (hperm.mem_iff.mp hsite)
  obtain ⟨entry, hentry, -, harray, -, hstart, hend⟩ :=
    Placed.exists_entry_of_reported? hreported
  obtain ⟨hobject, hobjectDepth⟩ := Tree.wellFormed_of_mem_objects tree hdocument.wellFormed hplaced
  obtain ⟨hvalue, hvalueDepth⟩ := Tree.wellFormed_of_mem_entries hobject hentry
  have hobjectAt := hplace.trans (Tree.hasAt_of_mem_objects tree hplaced)
  refine ⟨entry.value, harray, hvalue, ?_, ?_, ?_⟩
  · exact Nat.le_trans hvalueDepth (Nat.le_trans hobjectDepth hdocument.depth_le)
  · rw [hstart]
    exact ((Tree.standsIn_of_mem_entries hentry).trans hobjectAt).value
  · rw [hend, hstart, Entry.valueEnd]

namespace Site

variable {settings : Settings} {text : Text} {site : Site} {array : Tree}

/-- Reading strings where an array stands ends behind the array. -/
theorem result_stringsAt_of_hasAt (hat : text.HasAt 0 array.text site.valueStart)
    (hend : site.valueEnd = site.valueStart + array.text.size) (harray : array.isArray)
    (hwell : array.WellFormed) (hdepth : array.depth ≤ settings.maxDepth) :
    (Scan.stringsAt settings text site.valueStart).result =
      .ok (array.strings?, site.valueEnd) := by
  obtain ⟨before, after, rfl, hbefore⟩ := hat
  rw [Nat.zero_add] at hbefore
  rw [hend, ← hbefore,
    Scan.stringsAt_of_tree hwell hdepth (Tree.canPrecede_of_isArray harray after)]

theorem spansIn_of_hasAt (hat : text.HasAt 0 array.text site.valueStart)
    (hend : site.valueEnd = site.valueStart + array.text.size) (hwell : array.WellFormed) :
    array.SpansIn text site.valueStart site.valueEnd := by
  obtain ⟨before, after, rfl, hbefore⟩ := hat
  rw [Nat.zero_add] at hbefore
  exact ⟨hwell, before, [], after, List.append_assoc .., allBlank_nil, hbefore, hend⟩

end Site

/-- A document has no values to read exactly for the identifiers that it does not have,
if those of every site can be read. -/
theorem Document.readValues_eq_error_iff {document : Document} {identifier : Text} {error : Error}
    (hread : ∀ site ∈ document.sites.entries,
      ∃ values, site.readValues document.settings document.text = .ok values) :
    document.readValues identifier = .error error ↔
      error = .unknownIdentifier identifier ∧ ¬ document.sites.contains identifier := by
  rw [Document.readValues, ← Catalog.isSome_find?_iff]
  cases hfind : document.sites.find? identifier with
  | none => simp [eq_comm]
  | some site =>
      obtain ⟨values, hvalues⟩ := hread site (Catalog.find?_eq_some_iff.mp hfind).1
      simp [hvalues]

/-- At every site of an index stands an array, and reading the values of the site yields
the strings that the elements of the array spell, or none if some element is no string
token; it never fails.  So a document yields the values of all identifiers that it has,
and it refuses every other identifier as unknown. -/
theorem readValues_never_fails (settings : Settings) (text : Text) :
    (∀ index, SiteIndex.locate settings text = .ok index → ∀ site ∈ index.entries,
      (∃ array : Tree, array.isArray ∧ array.SpansIn text site.valueStart site.valueEnd) ∧
      ∃ values, site.readValues settings text = .ok values ∧ ∀ list, values = some list ↔
        ∃ array : Tree, array.SpansIn text site.valueStart site.valueEnd ∧
          array.SpellsAll list) ∧
    ∀ document, Document.scan settings text = .ok document → ∀ identifier error,
      document.readValues identifier = .error error ↔
        error = .unknownIdentifier identifier ∧ ¬ document.sites.contains identifier := by
  constructor
  · intro index hlocate site hsite
    obtain ⟨array, harray, hwell, hdepth, hat, hend⟩ := SiteIndex.exists_array_of_mem hlocate hsite
    have hresult := Site.result_stringsAt_of_hasAt hat hend harray hwell hdepth
    exact ⟨⟨array, harray, Site.spansIn_of_hasAt hat hend hwell⟩, array.strings?,
      Site.readValues_eq_ok hat harray hwell hdepth, Scan.eq_some_iff_of_result_stringsAt hresult⟩
  · intro document hscan identifier error
    obtain ⟨-, index, hlocate, rfl⟩ := Document.scan_eq_ok_iff.mp hscan
    apply Document.readValues_eq_error_iff
    intro site hsite
    obtain ⟨array, harray, hwell, hdepth, hat, -⟩ := SiteIndex.exists_array_of_mem hlocate hsite
    exact ⟨array.strings?, Site.readValues_eq_ok hat harray hwell hdepth⟩

/-- An array as deep as the limit allows, with an escape in one of its strings, and an
array with an element that is no string. -/
theorem readValues_never_fails_at_limit :
    ∃ (settings : Settings) (text : Text) (document : Document) (inner outer : Site),
      settings.maxDepth = 3 ∧
      text = ("\x7b\"a\":\x7b\"id\":\"i\",\"tags\":[\"\\u00e9\",\"b\"]\x7d," ++
        "\"id\":\"o\",\"tags\":[[],\"x\"]\x7d").toList ∧
      inner = ⟨['i'], 15, 22, 36⟩ ∧ outer = ⟨['o'], 47, 54, 62⟩ ∧
      Document.scan settings text = .ok document ∧ document.sites.entries = [inner, outer] ∧
      inner.readValues settings text = .ok (some [['é'], ['b']]) ∧
      (∃ array : Tree, array.SpansIn text inner.valueStart inner.valueEnd ∧
        array.SpellsAll [['é'], ['b']]) ∧
      outer.readValues settings text = .ok none ∧
      (∃ array : Tree, array.isArray ∧ array.SpansIn text outer.valueStart outer.valueEnd) ∧
      (∀ list, ¬ ∃ array : Tree, array.SpansIn text outer.valueStart outer.valueEnd ∧
        array.SpellsAll list) ∧
      document.readValues ['x'] = .error (.unknownIdentifier ['x']) := by
  obtain ⟨text, htext⟩ : ∃ text : Text, text =
      ("\x7b\"a\":\x7b\"id\":\"i\",\"tags\":[\"\\u00e9\",\"b\"]\x7d," ++
        "\"id\":\"o\",\"tags\":[[],\"x\"]\x7d").toList := ⟨_, rfl⟩
  have hentries : (Document.scan { maxDepth := 3 } text).map
      (fun document => document.sites.entries) =
        .ok [⟨['i'], 15, 22, 36⟩, ⟨['o'], 47, 54, 62⟩] := by
    rw [htext]
    decide +kernel
  have hinner : Site.readValues ⟨['i'], 15, 22, 36⟩ { maxDepth := 3 } text =
      .ok (some [['é'], ['b']]) := by
    rw [htext]
    decide +kernel
  have houter : Site.readValues ⟨['o'], 47, 54, 62⟩ { maxDepth := 3 } text = .ok none := by
    rw [htext]
    decide +kernel
  cases hscan : Document.scan { maxDepth := 3 } text with
  | error =>
      rw [hscan] at hentries
      cases hentries
  | ok document =>
      rw [hscan] at hentries
      have hentries : document.sites.entries = _ := Except.ok.inj hentries
      obtain ⟨-, index, hlocate, hdocument⟩ := Document.scan_eq_ok_iff.mp hscan
      obtain ⟨hsites, hdocuments⟩ := readValues_never_fails { maxDepth := 3 } text
      have hindex : document.sites = index := by rw [hdocument]
      rw [hindex] at hentries
      obtain ⟨-, values, hvalues, hspells⟩ := hsites index hlocate ⟨['i'], 15, 22, 36⟩
        (hentries ▸ List.mem_cons_self)
      obtain ⟨harray, others, hothers, hnone⟩ := hsites index hlocate ⟨['o'], 47, 54, 62⟩
        (hentries ▸ List.mem_cons_of_mem _ List.mem_cons_self)
      obtain rfl := Except.ok.inj (hinner.symm.trans hvalues)
      obtain rfl := Except.ok.inj (houter.symm.trans hothers)
      have hmissing : ¬ document.sites.contains ['x'] := by
        rw [Catalog.contains, hindex, hentries]
        decide
      refine ⟨_, text, document, _, _, rfl, htext, rfl, rfl, hscan, hindex ▸ hentries, hinner,
        (hspells _).mp rfl, houter, harray, fun list hlist => ?_,
        (hdocuments document hscan ['x'] _).mpr ⟨rfl, hmissing⟩⟩
      cases (hnone list).mpr hlist

end ArrayPatch
