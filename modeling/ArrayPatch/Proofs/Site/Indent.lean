import ArrayPatch.Proofs.Layout.Indent
import ArrayPatch.Proofs.Site.Spans

/-!
# The unit of indentation and the keys of an index

The unit of indentation of a text is a matter of its lines alone.  A key that only
indentation stands before on its line makes this line one of those that are looked at,
as a key starts with a quotation mark; so the indentation of the property, found by
looking back from the key, is one that the unit is chosen among.
-/

namespace ArrayPatch

/-- A text is cut at a site in front of the quotation mark of its key. -/
theorem Site.StandsIn.exists_eq_cons {settings : Settings} {text front behind : Text} {site : Site}
    (hstands : site.StandsIn settings text) (htext : text = front ++ behind)
    (hsize : front.size = site.keyStart) : ∃ rest, behind = '"' :: rest := by
  have hbyte := hstands.byte_keyStart
  rw [htext, ← hsize] at hbyte
  exact Text.exists_eq_cons_of_getElem?_bytes rfl hbyte

/-- The unit of indentation is a tab if the text shows an indentation with a tab in it,
and otherwise the length of the shortest indentation that the text shows, or two if it
shows none.  So it is never zero, and texts with the same lines, in whatever order, have
the same unit.  Where only indentation stands before the key of a site on its line, it
is what is found there, and it bounds the unit. -/
theorem SiteIndex.detectIndent_at_keys (text : Text) :
    (Layout.detectIndent text = .tab ↔ ∃ leading, text.ShowsIndent leading ∧ '\t' ∈ leading) ∧
    (∀ count, Layout.detectIndent text = .spaces count ↔
      (∀ leading, text.ShowsIndent leading → '\t' ∉ leading) ∧
        (IsLeast {length | ∃ leading, text.ShowsIndent leading ∧ leading.length = length} count ∨
          (∀ leading, ¬ text.ShowsIndent leading) ∧ count = 2)) ∧
    Layout.detectIndent text ≠ .spaces 0 ∧
    (∀ other : Text, (∀ line, other.HasLine line ↔ text.HasLine line) →
      Layout.detectIndent other = Layout.detectIndent text) ∧
    ∀ settings index, SiteIndex.locate settings text = .ok index → ∀ site ∈ index.entries,
      ∀ before leading behind : Text, text = before ++ leading ++ behind →
        (before = [] ∨ before.getLast? = some '\n') →
        (before ++ leading).size = site.keyStart → leading ≠ [] → (∀ c ∈ leading, isIndent c) →
        text.indentationAt? site.keyStart = some leading ∧
          ('\t' ∈ leading → Layout.detectIndent text = .tab) ∧
          ('\t' ∉ leading → Layout.detectIndent text = .tab ∨
            ∃ count, Layout.detectIndent text = .spaces count ∧ 0 < count ∧
              count ≤ leading.length) := by
  refine ⟨Layout.detectIndent_eq_tab_iff, fun _ => Layout.detectIndent_eq_spaces_iff,
    Layout.detectIndent_ne_zero text, ?_, ?_⟩
  · intro other hsame
    apply Layout.detectIndent_congr
    simp only [Text.ShowsIndent, hsame, implies_true]
  · intro settings index hlocate site hsite before leading behind htext hbefore hsize hne hindent
    have hstands := (SiteIndex.standsIn_of_locate hlocate).1 site hsite
    obtain ⟨rest, rfl⟩ := hstands.exists_eq_cons htext hsize
    have hshows : text.ShowsIndent leading := by
      rw [htext, List.append_assoc]
      exact Text.showsIndent_append hbefore hne hindent (by decide)
    refine ⟨?_, Layout.detectIndent_of_showsIndent hshows⟩
    rw [htext, ← hsize]
    exact Text.indentationAt?_append hbefore hindent _

/-- A key that is indented more than another one, in a text with a line of nothing but a
space; and the lines of the text in reverse order. -/
theorem SiteIndex.detectIndent_at_keys_crlf :
    ∃ (text other : Text) (settings : Settings) (index : SiteIndex) (site : Site),
      text = "\x7b\r\n \r\n  \"i\":\"a\",\n   \"t\":[]\r\n\x7d".toList ∧
      other = "\x7d\n   \"t\":[]\r\n  \"i\":\"a\",\n \r\n\x7b".toList ∧
      SiteIndex.locate settings text = .ok index ∧ site ∈ index.entries ∧ site.keyStart = 20 ∧
      text.indentationAt? 20 = some [' ', ' ', ' '] ∧
      (∀ leading, text.ShowsIndent leading → '\t' ∉ leading) ∧
      Layout.detectIndent text = .spaces 2 ∧ 2 ≤ 3 ∧ Layout.detectIndent other = .spaces 2 := by
  obtain ⟨text, htext⟩ : ∃ text : Text,
      text = "\x7b\r\n \r\n  \"i\":\"a\",\n   \"t\":[]\r\n\x7d".toList := ⟨_, rfl⟩
  obtain ⟨other, hreverse⟩ : ∃ other : Text,
      other = "\x7d\n   \"t\":[]\r\n  \"i\":\"a\",\n \r\n\x7b".toList := ⟨_, rfl⟩
  obtain ⟨settings, hsettings⟩ : ∃ settings : Settings,
      settings = { identifierField := ['i'], targetField := ['t'] } := ⟨_, rfl⟩
  have hentries : (SiteIndex.locate settings text).map Catalog.entries =
      .ok [⟨['a'], 20, 24, 26⟩] := by
    rw [htext, hsettings]
    decide +kernel
  have hunit : Layout.detectIndent text = .spaces 2 := by
    rw [htext]
    decide
  have hlines : other.lines = text.lines.reverse := by
    rw [htext, hreverse]
    decide
  obtain ⟨-, hspaces, -, horder, hkeys⟩ := SiteIndex.detectIndent_at_keys text
  have hother : Layout.detectIndent other = .spaces 2 := by
    rw [horder other, hunit]
    intro line
    rw [← Text.mem_lines_iff, ← Text.mem_lines_iff, hlines, List.mem_reverse]
  cases hlocate : SiteIndex.locate settings text with
  | error =>
      rw [hlocate] at hentries
      cases hentries
  | ok index =>
      rw [hlocate] at hentries
      have hsite : ⟨['a'], 20, 24, 26⟩ ∈ index.entries := by
        rw [Except.ok.inj hentries]
        exact List.mem_cons_self
      obtain ⟨hindentation, -, hbound⟩ := hkeys settings index hlocate _ hsite
        "\x7b\r\n \r\n  \"i\":\"a\",\n".toList [' ', ' ', ' '] "\"t\":[]\r\n\x7d".toList
        htext (by decide) (by decide) (by decide) (by simp [isIndent])
      obtain ⟨count, hcount, -, hle⟩ := (hbound (by decide)).resolve_left (by rw [hunit]; decide)
      obtain rfl : 2 = count := IndentUnit.spaces.inj (hunit.symm.trans hcount)
      exact ⟨text, other, settings, index, _, htext, hreverse, hlocate, hsite, rfl, hindentation,
        ((hspaces 2).mp hunit).1, hunit, hle, hother⟩

end ArrayPatch
