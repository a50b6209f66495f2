import ArrayPatch.Proofs.Document.Outcome
import ArrayPatch.Proofs.Grammar.Crlf
import ArrayPatch.Proofs.Layout.Crlf
import ArrayPatch.Proofs.Patch.Crlf

/-!
# Patching does not depend on the line ending

A text that ends its lines with line feeds, none of them inside a string, is
patched like the text with a carriage return in front of every line feed: the
two runs find the same sites, render the same arrays but for the line ending,
leave out the same entries and meet the same overlaps.
-/

namespace ArrayPatch

open Grammar Patch

/-- A site with its offsets moved by a function. -/
def Site.mapOffsets (f : Nat → Nat) (site : Site) : Site where
  identifier := site.identifier
  keyStart := f site.keyStart
  valueStart := f site.valueStart
  valueEnd := f site.valueEnd

variable {settings : Settings} {text blanks after : Text} {tree : Tree} {index newIndex : SiteIndex}
variable {desired : Desired} {patches : List Patch}

namespace SiteIndex

theorem sites_crlf (hdocument : IsDocument settings text blanks tree after)
    (htokens : WithoutFeed tree.tokens) :
    tree.crlf.sites settings blanks.crlf.size =
      (tree.sites settings blanks.size).map (Site.mapOffsets text.shift) := by
  have hsize : text.shift blanks.size = blanks.crlf.size := by
    rw [hdocument.text_eq, List.append_assoc, Text.shift_size]
  have hfollows := Text.follows_shift text
  generalize text.shift = f at hsize hfollows ⊢
  rw [hdocument.text_eq] at hfollows
  have htree := hfollows.left.right
  rw [Nat.zero_add] at htree
  have hsites : List.Forall₂ (Site.Relocated fun old new => new = f old)
      (tree.sites settings blanks.size) (tree.crlf.sites settings (f blanks.size)) :=
    tree.sites_crlf hdocument.wellFormed htokens htree
  rw [hsize] at hsites
  symm
  rw [← List.forall₂_eq_eq_eq, List.forall₂_map_left_iff]
  apply hsites.imp
  rintro site ⟨_, _, _, _⟩ ⟨rfl, rfl, rfl, rfl⟩
  rfl

/-- The text with carriage returns is located too, and its index holds the sites at
the offsets they move to. -/
theorem exists_locate_crlf (hfields : settings.identifierField ≠ settings.targetField)
    (hlocate : locate settings text = .ok index)
    (hdocument : IsDocument settings text blanks tree after) (htokens : WithoutFeed tree.tokens) :
    ∃ newIndex, locate settings text.crlf = .ok newIndex ∧
      ∀ identifier, newIndex.find? identifier =
        (index.find? identifier).map (Site.mapOffsets text.shift) := by
  obtain ⟨found, hscan, hindex⟩ := exists_document_of_locate hlocate
  obtain ⟨hperm, hnodup⟩ := entries_perm_of_ofSites hindex
  obtain ⟨sites, hsame, hsites⟩ := Scan.exists_document_of_isDocument hdocument
  cases hscan.symm.trans hsame
  obtain ⟨newFound, hnewScan, hnewSites⟩ :=
    Scan.exists_document_of_isDocument (hdocument.crlf htokens)
  have hmap : newFound = found.map (Site.mapOffsets text.shift) := by
    rw [hnewSites hfields, hsites hfields, sites_crlf hdocument htokens]
  have hnewNodup : (newFound.map Site.identifier).Nodup := by
    rw [hmap, List.map_map]
    exact hnodup
  obtain ⟨newIndex, hnewIndex, hnewPerm⟩ := exists_ofSites_of_nodup hnewNodup
  refine ⟨newIndex, (locate_eq_ofSites hnewScan).trans hnewIndex, ?_⟩
  intro identifier
  rw [hmap] at hnewPerm
  ext moved
  rw [Catalog.find?_eq_some_iff, Option.map_eq_some_iff, hnewPerm.mem_iff, List.mem_map]
  simp only [Catalog.find?_eq_some_iff, hperm.mem_iff]
  constructor
  · rintro ⟨⟨site, hsite, rfl⟩, rfl⟩
    exact ⟨site, ⟨hsite, rfl⟩, rfl⟩
  · rintro ⟨site, ⟨hsite, rfl⟩, rfl⟩
    exact ⟨⟨site, hsite, rfl⟩, rfl⟩

end SiteIndex

namespace Patch

theorem renderAt_crlf {unit : IndentUnit} {site : Site} {values : List Text} {rendered : Text}
    (hrender : renderAt text ⟨unit, .lf⟩ site values = .ok rendered) :
    renderAt text.crlf ⟨unit, .crlf⟩ (site.mapOffsets text.shift) values = .ok rendered.crlf := by
  obtain ⟨indentation, hindentation, rfl⟩ := renderAt_eq_ok_iff.mp hrender
  have hindent := Text.isIndent_of_indentationAt? hindentation
  exact renderAt_eq_ok_iff.mpr
    ⟨indentation, Text.indentationAt?_crlf hindentation, Layout.crlf_render hindent values⟩

variable (hlocated : Located settings text index blanks tree after)
variable (hfind : ∀ identifier,
  newIndex.find? identifier = (index.find? identifier).map (Site.mapOffsets text.shift))
variable (hreturn : '\r' ∉ text) (hfeed : '\n' ∈ text)

include hlocated hfind hreturn hfeed

theorem build?_crlf (identifier : Text) (values : List Text) :
    build? text.crlf (Layout.detect text.crlf) newIndex identifier values =
      (build? text (Layout.detect text) index identifier values).map
        (Option.map (crlf text.shift)) := by
  have hnew := hfind identifier
  rw [Layout.detect_crlf hreturn hfeed, Layout.detect_of_not_mem hreturn]
  cases hsite : index.find? identifier with
  | none =>
      rw [hsite] at hnew
      rw [build?, build?, hsite, hnew]
      rfl
  | some site =>
      rw [hsite] at hnew
      have hmem := (Catalog.find?_eq_some_iff.mp hsite).1
      obtain ⟨raw, hraw⟩ := hlocated.exists_rawValue? hmem
      obtain ⟨indentation, hindentation⟩ := hlocated.exists_indentationAt? hmem
      obtain ⟨rendered, hrender⟩ : ∃ rendered,
          renderAt text ⟨Layout.detectIndent text, .lf⟩ site values = .ok rendered :=
        ⟨_, renderAt_eq_ok_iff.mpr ⟨indentation, hindentation, rfl⟩⟩
      rw [build?_eq_ok_iff.mpr ⟨site, rendered, raw, hsite, hrender, hraw, rfl⟩,
        build?_eq_ok_iff.mpr ⟨site.mapOffsets text.shift, rendered.crlf, raw.crlf, hnew,
          renderAt_crlf hrender, Text.slice?_crlf hraw, rfl⟩]
      -- An entry changes nothing in the one text if it changes nothing in the other.
      simp only [Text.crlf_injective.eq_iff]
      split <;> rfl

theorem buildAll_crlf (desired : Desired) :
    buildAll text.crlf (Layout.detect text.crlf) newIndex desired =
      (buildAll text (Layout.detect text) index desired).map (List.map (crlf text.shift)) := by
  have hbuild := fun entry : Text × List Text =>
    build?_crlf hlocated hfind hreturn hfeed entry.1 entry.2
  rw [buildAll, buildAll]
  simp only [hbuild, except_mapM_map]
  cases desired.entries.mapM fun entry =>
      build? text (Layout.detect text) index entry.1 entry.2 with
  | error failure => rfl
  | ok built => exact congrArg Except.ok List.reduceOption_map

theorem update_crlf (desired : Desired) :
    update text.crlf (Layout.detect text.crlf) newIndex desired =
      (update text (Layout.detect text) index desired).map Text.crlf := by
  rw [update, update, buildAll_crlf hlocated hfind hreturn hfeed]
  cases hbuild : buildAll text (Layout.detect text) index desired with
  | error failure => rfl
  | ok patches =>
      have hrange : ∀ patch ∈ patches, patch.start ≤ patch.stop := fun patch hpatch =>
        Nat.le_of_lt (start_lt_stop_of_mem hlocated.entries_perm hbuild hpatch)
      apply applyAll_crlf hrange
      intro hoverlap
      have hascends := ascends_of_overlap?_eq_none hlocated.entries_perm hbuild hoverlap
      exact ⟨_, spliceAll_ordered_eq hlocated hbuild hascends⟩

end Patch

/-- A text whose line feeds all stand outside of strings is patched, or refused, like
the text with carriage returns. -/
theorem patchText_crlf (hvalid : settings.fault? = none)
    (hlocate : SiteIndex.locate settings text = .ok index)
    (hdocument : IsDocument settings text blanks tree after) (htokens : WithoutFeed tree.tokens)
    (hreturn : '\r' ∉ text) (hfeed : '\n' ∈ text) (desired : Desired) :
    patchText settings text.crlf desired = (patchText settings text desired).map Text.crlf := by
  obtain ⟨-, -, hfields, -⟩ := settings.fault?_eq_none_iff.mp hvalid
  have hlocated := SiteIndex.located_of_isDocument hfields hlocate hdocument
  obtain ⟨newIndex, hnewLocate, hfind⟩ :=
    SiteIndex.exists_locate_crlf hfields hlocate hdocument htokens
  rw [patchText_eq_update hvalid hlocate, patchText_eq_update hvalid hnewLocate]
  exact update_crlf hlocated hfind hreturn hfeed desired

/-- The two versions of a text are patched to the two versions of one result. -/
theorem patchText_crlf_eq_ok_iff (settings : Settings) (hvalid : settings.fault? = none)
    (text : Text) (index : SiteIndex) (hlocate : SiteIndex.locate settings text = .ok index)
    (blanks : Text) (tree : Tree) (after : Text)
    (hdocument : IsDocument settings text blanks tree after) (htokens : WithoutFeed tree.tokens)
    (hreturn : '\r' ∉ text) (hfeed : '\n' ∈ text) (desired : Desired) (out : Text) :
    patchText settings text desired = .ok out ↔
      patchText settings text.crlf desired = .ok out.crlf := by
  rw [patchText_crlf hvalid hlocate hdocument htokens hreturn hfeed]
  cases patchText settings text desired with
  | error failure => simp [Except.map]
  | ok result => simp [Except.map, Text.crlf_injective.eq_iff]

/-- An array that gets its first element, in both versions of a text of two lines. -/
theorem patchText_crlf_of_two_lines :
    ∃ (text out : Text) (desired : Desired),
      text = "\x7b\"id\":\"a\",\n\"tags\":[]\x7d".toList ∧
      desired = Catalog.ofList [(['a'], [['b']])] ∧
      out = "\x7b\"id\":\"a\",\n\"tags\":[\n  \"b\"\n]\x7d".toList ∧
      patchText {} text desired = .ok out ∧ patchText {} text.crlf desired = .ok out.crlf := by
  have hpatch : patchText {} "\x7b\"id\":\"a\",\n\"tags\":[]\x7d".toList
      (Catalog.ofList [(['a'], [['b']])]) =
      .ok "\x7b\"id\":\"a\",\n\"tags\":[\n  \"b\"\n]\x7d".toList := by
    decide +kernel
  obtain ⟨hvalid, index, hlocate, -⟩ := patchText_eq_ok_iff.mp hpatch
  have hdocument : IsDocument {} "\x7b\"id\":\"a\",\n\"tags\":[]\x7d".toList []
      (.object [] (.mk [.plain 'i', .plain 'd'] [] [] (.string [.plain 'a']))
        (.more [] ['\n'] (.mk [.plain 't', .plain 'a', .plain 'g', .plain 's'] [] []
          (.emptyArray [])) (.done []))) [] := by
    refine ⟨rfl, ?_, ?_, ?_, by decide⟩
    · simp [AllBlank]
    · simp [AllBlank]
    · simp [Tree.WellFormed, Member.WellFormed, Members.WellFormed, AllBlank, StringPiece.value?,
        isBlank]
  refine ⟨_, _, _, rfl, rfl, rfl, hpatch, ?_⟩
  exact (patchText_crlf_eq_ok_iff {} hvalid _ index hlocate _ _ _ hdocument (by decide) (by decide)
    (by decide) _ _).mp hpatch

end ArrayPatch
