import ArrayPatch.Proofs.Grammar.Nesting
import ArrayPatch.Proofs.Site.Locate
import ArrayPatch.Proofs.Text.Bytes

/-!
# Where the sites of an index lie

Every site of a located text lies at a member of an object of the tree of the
text.  So its key is a token that stands for the target field, its array is the
text of a tree by itself, and the arrays of two sites are nested or have nothing
in common.

The settings are not restricted: the two field names may be the same.
-/

namespace ArrayPatch

open Grammar

/-- The key and the array of a site stand in a text, and the array can be read
by itself. -/
structure Site.StandsIn (settings : Settings) (text : Text) (site : Site) : Prop where
  keyStart_lt : site.keyStart < site.valueStart
  valueStart_lt : site.valueStart < site.valueEnd
  valueEnd_le : site.valueEnd ≤ text.size
  isBoundary_keyStart : text.IsBoundary site.keyStart
  isBoundary_valueStart : text.IsBoundary site.valueStart
  isBoundary_valueEnd : text.IsBoundary site.valueEnd
  byte_keyStart : text.bytes[site.keyStart]? = some '"'.toUInt8
  byte_valueStart : text.bytes[site.valueStart]? = some '['.toUInt8
  byte_valueEnd : text.bytes[site.valueEnd - 1]? = some ']'.toUInt8
  key : ∃ keyEnd, Scan.stringAt text site.keyStart = .ok (settings.targetField, keyEnd)
  array : ∃ raw, site.rawValue? text = some raw ∧
    (Scan.valueAt settings raw 0).result = .ok raw.size

section Parts

variable {text : Text} {start : Nat}

theorem Text.HasAt.getElem?_bytes_start {c : Char} {rest : Text}
    (hat : text.HasAt 0 (c :: rest) start) (hwidth : c.utf8Size = 1) :
    text.bytes[start]? = some c.toUInt8 := by
  obtain ⟨before, after, rfl, rfl⟩ := hat
  rw [List.append_assoc, Nat.zero_add]
  exact Text.getElem?_bytes_size hwidth before (rest ++ after)

theorem Text.HasAt.getElem?_bytes_end {c : Char} {front : Text}
    (hat : text.HasAt 0 (front ++ [c]) start) (hwidth : c.utf8Size = 1) :
    text.bytes[start + Text.size (front ++ [c]) - 1]? = some c.toUInt8 := by
  obtain ⟨before, after, rfl, rfl⟩ := hat
  have hlast : 0 + before.size + Text.size (front ++ [c]) - 1 = Text.size (before ++ front) := by
    simp only [Text.size_append, Text.size_cons, Text.size_nil, hwidth]
    omega
  have htext : before ++ (front ++ [c]) ++ after = before ++ front ++ c :: after := by
    simp only [List.append_assoc, List.singleton_append]
  rw [hlast, htext]
  exact Text.getElem?_bytes_size hwidth (before ++ front) after

/-- A token that stands in a text is read there. -/
theorem Text.HasAt.stringAt_eq_ok {pieces : List StringPiece} {value : Text}
    (hat : text.HasAt 0 (StringPiece.tokenText pieces) start)
    (hmeaning : StringPiece.meaning? pieces = some value) :
    Scan.stringAt text start =
      .ok (value, start + (StringPiece.tokenText pieces).size) := by
  obtain ⟨before, after, rfl, rfl⟩ := hat
  have hpasses : (Cursor.mk before.size (StringPiece.tokenText pieces ++ after)).Passes
      (StringPiece.tokenText pieces)
      ⟨before.size + (StringPiece.tokenText pieces).size, after⟩ := ⟨rfl, rfl⟩
  obtain ⟨_, hread⟩ := StringToken.reads_read_iff_passes.mpr ⟨pieces, hpasses, hmeaning⟩
  rw [Scan.stringAt, List.append_assoc, Nat.zero_add, Text.tailAt_size_append]
  dsimp only
  rw [if_pos rfl, hread]
  rfl

end Parts

namespace Grammar

/-- A tree alone is read to its end. -/
theorem Tree.result_valueAt_text {settings : Settings} {tree : Tree} (hwell : tree.WellFormed)
    (hdepth : tree.depth ≤ settings.maxDepth) (hprecede : tree.CanPrecede []) :
    (Scan.valueAt settings tree.text 0).result = .ok tree.text.size := by
  have htree : StartsWithTree settings tree.text tree.text.size [] tree [] :=
    ⟨(List.append_nil _).symm, allBlank_nil, hwell, hdepth, hprecede,
      (Nat.zero_add _).symm⟩
  rw [Scan.valueAt_zero_of_startsWithTree htree]

/-- The site of an array stands in the text that the array belongs to. -/
theorem Entry.Has.standsIn {settings : Settings} {text : Text} {site : Site} {entry : Entry}
    (hsite : entry.Has site) (hkey : entry.key = some settings.targetField)
    (hstands : entry.StandsIn text 0) (hwell : entry.value.WellFormed)
    (hdepth : entry.value.depth ≤ settings.maxDepth) : site.StandsIn settings text := by
  obtain ⟨harray, hkeyStart, hvalueStart, hvalueEnd⟩ := hsite
  obtain ⟨pieces, hmeaning, hkeyAt⟩ := hstands.key
  have hvalueAt := hstands.value
  obtain ⟨⟨rest, hopen⟩, front, hclose⟩ := Tree.exists_brackets_of_isArray harray
  constructor
  · rw [hkeyStart, hvalueStart]
    exact hstands.keyStart_lt
  · rw [hvalueStart, hvalueEnd]
    exact Nat.lt_add_of_pos_right (Tree.size_pos_of_isArray harray)
  · rw [hvalueEnd]
    exact Nat.le_trans hvalueAt.bounds.2 (Nat.le_of_eq (Nat.zero_add _))
  · rw [hkeyStart]
    exact hkeyAt.isBoundary.1
  · rw [hvalueStart]
    exact hvalueAt.isBoundary.1
  · rw [hvalueEnd]
    exact hvalueAt.isBoundary.2
  · rw [hkeyStart]
    exact hkeyAt.getElem?_bytes_start rfl
  · rw [hopen] at hvalueAt
    rw [hvalueStart]
    exact hvalueAt.getElem?_bytes_start rfl
  · rw [hclose] at hvalueAt
    rw [hvalueEnd, Entry.valueEnd, hclose]
    exact hvalueAt.getElem?_bytes_end rfl
  · rw [hkeyStart]
    exact ⟨_, hkeyAt.stringAt_eq_ok (hmeaning.trans hkey)⟩
  · refine ⟨entry.value.text, ?_, ?_⟩
    · rw [Site.rawValue?, hvalueStart, hvalueEnd]
      exact hvalueAt.slice?_eq_some
    · exact Tree.result_valueAt_text hwell hdepth (Tree.canPrecede_of_isArray harray [])

/-- The site that is reported for an object is that of an array under the target
field. -/
theorem Placed.exists_entry_of_reported? {settings : Settings} {placed : Placed} {site : Site}
    (hsite : placed.reported? settings = some site) :
    ∃ entry ∈ placed.tree.entries placed.start, entry.key = some settings.targetField ∧
      entry.Has site := by
  obtain ⟨entry, hentry, hkey, hplace⟩ := Scan.Slots.exists_target_of_site? hsite
  exact ⟨entry, hentry, hkey, hplace⟩

end Grammar

/-- The index of a located text holds what is reported for the objects of the
text. -/
theorem SiteIndex.exists_reported_of_locate {settings : Settings} {text : Text}
    {index : SiteIndex} (hlocate : SiteIndex.locate settings text = .ok index) :
    ∃ blanks tree after, IsDocument settings text blanks tree after ∧
      index.entries.Perm ((tree.objects blanks.size).filterMap (Placed.reported? settings)) := by
  obtain ⟨found, hscan, hindex⟩ := SiteIndex.exists_document_of_locate hlocate
  obtain ⟨blanks, tree, after, hdocument⟩ := Scan.exists_isDocument_of_document hscan
  cases hscan.symm.trans (Scan.document_of_isDocument hdocument)
  exact ⟨blanks, tree, after, hdocument, (SiteIndex.entries_perm_of_ofSites hindex).1⟩

/-- Every site of the index of a text has its key in front of its array, both in
the text and between boundaries of it; the bytes at the ends are a quote and the
two brackets; the key stands for the target field; and the array is a value by
itself.  Of the arrays of two sites with different identifiers either both lie
apart or one lies strictly inside the other. -/
theorem SiteIndex.standsIn_of_locate {settings : Settings} {text : Text} {index : SiteIndex}
    (hlocate : SiteIndex.locate settings text = .ok index) :
    (∀ site ∈ index.entries, site.StandsIn settings text) ∧
      ∀ first ∈ index.entries, ∀ second ∈ index.entries, first.identifier ≠ second.identifier →
        (first.valueEnd ≤ second.valueStart ∨ second.valueEnd ≤ first.valueStart) ∨
          (first.valueStart < second.valueStart ∧ second.valueEnd < first.valueEnd) ∨
          (second.valueStart < first.valueStart ∧ first.valueEnd < second.valueEnd) := by
  obtain ⟨blanks, tree, after, hdocument, hperm⟩ := exists_reported_of_locate hlocate
  have hplace : text.HasAt 0 tree.text blanks.size :=
    ⟨blanks, after, hdocument.text_eq, Nat.zero_add _⟩
  have hstands : ∀ site ∈ index.entries, site.StandsIn settings text := by
    intro site hsite
    obtain ⟨placed, hplaced, hreported⟩ := List.mem_filterMap.mp (hperm.mem_iff.mp hsite)
    obtain ⟨entry, hentry, hkey, hhas⟩ := Placed.exists_entry_of_reported? hreported
    obtain ⟨hobject, hobjectDepth⟩ :=
      Tree.wellFormed_of_mem_objects tree hdocument.wellFormed hplaced
    obtain ⟨hvalue, hvalueDepth⟩ := Tree.wellFormed_of_mem_entries hobject hentry
    have hobjectAt := hplace.trans (Tree.hasAt_of_mem_objects tree hplaced)
    apply hhas.standsIn hkey ((Tree.standsIn_of_mem_entries hentry).trans hobjectAt) hvalue
    exact Nat.le_trans hvalueDepth (Nat.le_trans hobjectDepth hdocument.depth_le)
  refine ⟨hstands, ?_⟩
  intro first hfirst second hsecond hdistinct
  have hreport : ∀ {placed site}, Placed.reported? settings placed = some site →
      ∃ entry ∈ placed.tree.entries placed.start, entry.Has site := by
    intro placed site hsite
    obtain ⟨entry, hentry, -, hhas⟩ := Placed.exists_entry_of_reported? hsite
    exact ⟨entry, hentry, hhas⟩
  have hfirstKey := (hstands first hfirst).keyStart_lt
  have hsecondKey := (hstands second hsecond).keyStart_lt
  rcases Tree.nested_of_mem_filterMap hreport (hperm.mem_iff.mp hfirst)
    (hperm.mem_iff.mp hsecond) with rfl | (hbefore | hbehind) | hwithin | hwithin
  · exact absurd rfl hdistinct
  · exact .inl (.inl (Nat.le_trans hbefore (Nat.le_of_lt hsecondKey)))
  · exact .inl (.inr (Nat.le_trans hbehind (Nat.le_of_lt hfirstKey)))
  · right
    right
    exact ⟨Nat.lt_trans hwithin.low_lt hwithin.keyStart_lt, hwithin.lt_high⟩
  · right
    left
    exact ⟨Nat.lt_trans hwithin.low_lt hwithin.keyStart_lt, hwithin.lt_high⟩

/-- An object inside the array of another one, where one field names both the
identifiers and the arrays. -/
theorem SiteIndex.standsIn_of_locate_one_field :
    ∃ (settings : Settings) (text : Text) (index : SiteIndex) (outer inner : Site),
      settings.identifierField = settings.targetField ∧
      text = "\x7b\"t\":\"a\",\"t\":[\x7b\"t\":\"b\",\"t\":[]\x7d]\x7d".toList ∧
      outer = ⟨['a'], 9, 13, 31⟩ ∧ inner = ⟨['b'], 23, 27, 29⟩ ∧
      SiteIndex.locate settings text = .ok index ∧ index.entries = [outer, inner] ∧
      outer.StandsIn settings text ∧ inner.StandsIn settings text ∧
      outer.valueStart < inner.valueStart ∧ inner.valueEnd < outer.valueEnd := by
  have hentries : (SiteIndex.locate { identifierField := ['t'], targetField := ['t'] }
      "\x7b\"t\":\"a\",\"t\":[\x7b\"t\":\"b\",\"t\":[]\x7d]\x7d".toList).map Catalog.entries =
      .ok [⟨['a'], 9, 13, 31⟩, ⟨['b'], 23, 27, 29⟩] := by
    decide +kernel
  cases hlocate : SiteIndex.locate { identifierField := ['t'], targetField := ['t'] }
      "\x7b\"t\":\"a\",\"t\":[\x7b\"t\":\"b\",\"t\":[]\x7d]\x7d".toList with
  | error =>
      rw [hlocate] at hentries
      cases hentries
  | ok index =>
      rw [hlocate] at hentries
      have hentries := Except.ok.inj hentries
      obtain ⟨hstands, hspans⟩ := SiteIndex.standsIn_of_locate hlocate
      have houter : ⟨['a'], 9, 13, 31⟩ ∈ index.entries := by
        rw [hentries]
        exact List.mem_cons_self
      have hinner : ⟨['b'], 23, 27, 29⟩ ∈ index.entries := by
        rw [hentries]
        exact List.mem_cons_of_mem _ List.mem_cons_self
      have hapart := (hspans _ houter _ hinner (by decide)).resolve_left (by decide)
      have hinside := hapart.resolve_right (by decide)
      exact ⟨_, _, index, _, _, rfl, rfl, rfl, rfl, hlocate, hentries, hstands _ houter,
        hstands _ hinner, hinside⟩

end ArrayPatch
