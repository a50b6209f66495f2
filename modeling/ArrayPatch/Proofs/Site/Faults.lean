import ArrayPatch.Proofs.Grammar.Completion
import ArrayPatch.Proofs.Scan.Scanner
import ArrayPatch.Proofs.Site.Locate

/-!
# Faults are at the first place where a text goes wrong

Whenever a document is refused for its form, what stands before the fault is
the start of a text that is read.  So nothing before the fault is wrong, at
whatever depth and in whatever token it is met.
-/

namespace ArrayPatch

open Grammar

namespace Scan

variable {settings : Settings} {text : Text} {fault : Fault} {found : List Site}

/-- A document fails as its value or behind it, where blanks should be. -/
theorem fails_document_iff :
    (document settings text).Fails found fault ↔
      (value settings settings.maxDepth (Cursor.start text)).Fails found fault ∨
        ∃ next, (value settings settings.maxDepth (Cursor.start text)).Ends found next ∧
          next.skipBlanks.rest ≠ [] ∧ fault = ⟨.trailingContent, next.skipBlanks.offset⟩ := by
  rw [document, fails_bind_ends_iff]
  refine or_congr_right ⟨?_, ?_⟩
  · rintro ⟨first, next, hends, more, hmore, rfl⟩
    dsimp only at hmore
    split at hmore
    · exact absurd hmore not_fails_pure
    · rename_i offset c rest hskip
      obtain ⟨rfl, rfl⟩ := fails_fail_iff.mp hmore
      refine ⟨next, by rwa [List.append_nil], ?_, ?_⟩
      · rw [hskip]
        exact List.cons_ne_nil c rest
      · rw [hskip]
  · rintro ⟨next, hends, hbehind, rfl⟩
    refine ⟨found, next, hends, [], ?_, (List.append_nil found).symm⟩
    dsimp only
    generalize next.skipBlanks = skipped at hbehind
    rcases skipped with ⟨offset, _ | ⟨c, rest⟩⟩
    · exact absurd rfl hbehind
    · exact fails_fail_iff.mpr ⟨rfl, rfl⟩

/-- What is read of a document can be completed to one. -/
theorem exists_isDocument_of_fails_document (hfails : (document settings text).Fails found fault) :
    ∃ front place suffix blanks tree after, (Cursor.start text).Passes front place ∧
      fault.IsAt place ∧ IsDocument settings (front ++ suffix) blanks tree after := by
  rcases fails_document_iff.mp hfails with hvalue | ⟨next, hends, -, rfl⟩
  · obtain ⟨front, place, suffix, closed, opened, hpasses, hplace, -,
      ⟨blanks, tree, htext, hblanks, hwell, hdepth, -⟩, -⟩ := closes_of_fails_value hvalue
    refine ⟨front, place, suffix, blanks, tree, [], hpasses, hplace, ?_⟩
    exact ⟨by rw [htext, List.append_nil], hblanks, allBlank_nil, hwell, hdepth⟩
  · obtain ⟨blanks, tree, hblanks, hpasses, hwell, hdepth, -⟩ := passesValue_of_ends hends
    obtain ⟨after, hafter, hbehind⟩ :=
      Cursor.exists_passes_skipBlanks (rfl : next.skipBlanks = _)
    refine ⟨_, _, [], blanks, tree, after, hpasses.trans hbehind, rfl, ?_⟩
    exact ⟨List.append_nil _, hblanks, hafter, hwell, hdepth⟩

/-- A scanner reads the value of a document up to the blanks behind it. -/
theorem exists_ask_of_isDocument {blanks after : Text} {tree : Tree}
    (hdocument : IsDocument settings text blanks tree after) :
    ∃ stop, ((Scanner.new settings text).ask (.value 0)).1 = .ok (.stop stop) ∧
      ∃ before behind, text = before ++ behind ∧ before.size = stop ∧ AllBlank behind := by
  obtain ⟨found, hscan, -⟩ := exists_document_of_isDocument hdocument
  obtain ⟨next, hends, hblank⟩ := document_eq_ok_iff.mp hscan
  obtain ⟨before, tree, -, hpasses, -⟩ := passesValue_of_ends hends
  refine ⟨next.offset, ?_, before ++ tree.text, next.rest, hpasses.rest_eq, ?_, hblank⟩
  · have hread : valueAt settings text 0 = ⟨found, .ok next.offset⟩ :=
      valueAt_zero_eq_ok_iff.mpr ⟨next, hends, rfl⟩
    rw [Scanner.ask_eq _ rfl, Scanner.new, Request.scan, hread]
    rfl
  · rw [hpasses.offset_eq]
    exact (Nat.zero_add _).symm

end Scan

/-- A document that is malformed has a fault in its scan. -/
theorem SiteIndex.locate_eq_malformed_iff {settings : Settings} {text : Text} {fault : Fault} :
    locate settings text = .error (.malformed fault) ↔
      ∃ found, (Scan.document settings text).Fails found fault := by
  simp only [locate, Scan.Fails]
  rcases Scan.document settings text with ⟨sites, other | done⟩
  · simp
  · refine iff_of_false ?_ ?_
    · intro herror
      obtain ⟨identifier, heq⟩ := exists_duplicate_of_ofSites herror
      cases heq
    · rintro ⟨found, hfails⟩
      cases hfails

/-- A document that is refused for its form is right up to the fault.  If it
ends too early the whole text, and otherwise the text up to the offset of the
fault, can be continued to a text whose value a scanner reads with nothing but
blanks behind it. -/
theorem exists_completion_of_malformed {settings : Settings} {text : Text} {fault : Fault}
    (hmalformed : SiteIndex.locate settings text = .error (.malformed fault)) :
    ∃ front, (if fault.flaw.isUnterminated then front = text
        else text.slice? 0 fault.offset = some front) ∧
      ∃ suffix stop,
        ((Scanner.new settings (front ++ suffix)).ask (.value 0)).1 = .ok (.stop stop) ∧
        ∃ before behind, front ++ suffix = before ++ behind ∧ before.size = stop ∧
          AllBlank behind := by
  obtain ⟨found, hfails⟩ := SiteIndex.locate_eq_malformed_iff.mp hmalformed
  obtain ⟨front, place, suffix, blanks, tree, after, hpasses, hplace, hdocument⟩ :=
    Scan.exists_isDocument_of_fails_document hfails
  refine ⟨front, ?_, suffix, Scan.exists_ask_of_isDocument hdocument⟩
  have htext : text = front ++ place.rest := hpasses.rest_eq
  by_cases hend : fault.flaw.isUnterminated
  · rw [Fault.IsAt, if_pos hend] at hplace
    rw [if_pos hend, htext, hplace, List.append_nil]
  · rw [Fault.IsAt, if_neg hend] at hplace
    have hpart : text.HasAt 0 front 0 := ⟨[], place.rest, htext, rfl⟩
    have hoffset : fault.offset = 0 + front.size := hplace.symm.trans hpasses.offset_eq
    rw [if_neg hend, hoffset]
    exact hpart.slice?_eq_some

/-- A surrogate pair whose second half is broken: what stands before the second
half can be continued. -/
theorem exists_completion_of_half_pair :
    ∃ (text front suffix : Text) (stop : Nat),
      text = "[\"\\ud83d\\u0041\"]".toList ∧ front = "[\"\\ud83d".toList ∧
      SiteIndex.locate {} text = .error (.malformed ⟨.invalidUnicodeEscape, 8⟩) ∧
      ((Scanner.new {} (front ++ suffix)).ask (.value 0)).1 = .ok (.stop stop) := by
  have hmalformed : SiteIndex.locate {} "[\"\\ud83d\\u0041\"]".toList =
      .error (.malformed ⟨.invalidUnicodeEscape, 8⟩) := by
    decide +kernel
  obtain ⟨front, hfront, suffix, stop, hread, -⟩ := exists_completion_of_malformed hmalformed
  obtain rfl : "[\"\\ud83d".toList = front := Option.some.inj hfront
  exact ⟨_, _, suffix, stop, rfl, rfl, hmalformed, hread⟩

end ArrayPatch
