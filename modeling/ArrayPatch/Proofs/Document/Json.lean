import ArrayPatch.Proofs.Document.Rescan
import ArrayPatch.Proofs.Grammar.Exchange
import ArrayPatch.Proofs.Json.Read

/-!
# Patching JSON texts

A JSON text is never refused for its form, and patching it gives a JSON text
again.  The value of the new text is that of the old one with the arrays at the
ranges of the patches exchanged for the desired lists.
-/

namespace ArrayPatch

open Grammar Patch

namespace Patch

/-- The list that is desired by a patch that starts at an offset. -/
def desiredAt? (desired : Desired) (patches : List Patch) (start : Nat) : Option (List Text) := do
  let patch ← patches.find? fun patch => patch.start = start
  let (_, values) ← desired.find? patch.identifier
  return values

/-- A patch ranges over an array that is the value of a member of an object in a
tree. -/
def RangesOverArray (patch : Patch) (tree : Tree) (offset : Nat) : Prop :=
  ∃ placed ∈ tree.objects offset, ∃ entry ∈ placed.tree.entries placed.start,
    entry.value.isArray ∧ patch.start = entry.valueStart ∧ patch.stop = entry.valueEnd

section Built

variable {text : Text} {layout : Layout} {index : SiteIndex} {desired : Desired}
variable {patches : List Patch} (hbuild : buildAll text layout index desired = .ok patches)

include hbuild

theorem exists_newArrayAt? {start : Nat} {patch : Patch}
    (hfind : (patches.find? fun patch => patch.start = start) = some patch) :
    ∃ new values, newArrayAt? text layout index desired patches start = some new ∧
      desiredAt? desired patches start = some values ∧
      new.array.json? = some (jsonTexts values) := by
  obtain ⟨site, values, hsite, hdesired, hrenders⟩ :=
    exists_renders_of_mem hbuild (List.mem_of_find?_eq_some hfind)
  obtain ⟨array, harray, -⟩ := hrenders.exists_newArray? hsite hdesired
  refine ⟨⟨patch.identifier, array⟩, values, ?_, ?_, ?_⟩
  · rw [newArrayAt?, hfind]
    simp [harray]
  · rw [desiredAt?, hfind]
    simp [hdesired]
  · obtain ⟨_, others, indentation, -, hothers, -, rfl⟩ := newArray?_eq_some_iff.mp harray
    cases hdesired.symm.trans hothers
    exact Layout.json?_renderTree _ indentation values

theorem exchanges_newArrayAt? :
    Exchanges (newArrayAt? text layout index desired patches) (desiredAt? desired patches) := by
  constructor
  · intro start
    cases hfind : patches.find? fun patch => patch.start = start with
    | none => simp [newArrayAt?, desiredAt?, hfind]
    | some patch =>
        obtain ⟨new, values, hnew, hvalues, -⟩ := exists_newArrayAt? hbuild hfind
        simp [hnew, hvalues]
  · intro start new texts hnew htexts
    cases hfind : patches.find? fun patch => patch.start = start with
    | none => simp [newArrayAt?, hfind] at hnew
    | some patch =>
        obtain ⟨other, values, hother, hvalues, hjson⟩ := exists_newArrayAt? hbuild hfind
        cases hnew.symm.trans hother
        cases htexts.symm.trans hvalues
        exact hjson

end Built

end Patch

namespace Patching

variable {settings : Settings} {layout : Layout} {text out : Text} {desired : Desired}
variable {index : SiteIndex} {patches : List Patch} {blanks after : Text} {tree : Tree}
variable {patch : Patch}
variable (hpatching : Patching settings layout text out desired index patches blanks tree after)

include hpatching

theorem rangesOverArray (hpatch : patch ∈ patches) : patch.RangesOverArray tree blanks.size := by
  obtain ⟨site, hsite, -, hstart, hstop⟩ :=
    exists_site_of_mem hpatching.located.entries_perm hpatching.build hpatch
  obtain ⟨placed, hplaced, entry, hentry, harray, hvalueStart, hvalueEnd⟩ :=
    Tree.exists_entry_of_mem_sites hsite
  exact ⟨placed, hplaced, entry, hentry, harray, hstart.trans hvalueStart, hstop.trans hvalueEnd⟩

/-- If the old tree has a JSON value, the new text is JSON with that value except
for the desired lists. -/
theorem exists_readWhole {value : Json.Value} (hvalue : tree.json? = some value) :
    ∃ replaced, tree.jsonWith? (desiredAt? desired patches) blanks.size = some replaced ∧
      Json.readWhole out = some replaced := by
  obtain ⟨replaced, hreplaced⟩ :=
    tree.exists_jsonWith? (desiredAt? desired patches) blanks.size hvalue
  refine ⟨replaced, hreplaced, ?_⟩
  have hnew := hpatching.isDocument
  apply Json.readWhole_eq_some_iff.mpr
  refine ⟨blanks, _, after, hnew.text_eq, hnew.allBlank_before, hnew.allBlank_after,
    hnew.wellFormed, ?_⟩
  rw [Tree.json?_replace (exchanges_newArrayAt? hpatching.build), hreplaced]

end Patching

/-- A JSON text within the nesting limit is never refused for its form.  If it is
patched, every patch ranges over an array, and the result is JSON: its value is
that of the text with the arrays of the patches exchanged for the desired lists. -/
theorem readWhole_of_patchText {settings : Settings} {text : Text} {value : Json.Value}
    (hread : Json.readWhole text = some value) (hdepth : value.depth ≤ settings.maxDepth) :
    (∀ error, SiteIndex.locate settings text = .error error → error.kind ≠ .parse) ∧
      ∃ blanks tree after, IsDocument settings text blanks tree after ∧
        tree.json? = some value ∧
        ∀ desired out, patchText settings text desired = .ok out →
          ∃ index patches replaced, SiteIndex.locate settings text = .ok index ∧
            Patch.buildAll text (Layout.detect text) index desired = .ok patches ∧
            (∀ patch ∈ patches, patch.RangesOverArray tree blanks.size) ∧
            tree.jsonWith? (desiredAt? desired patches) blanks.size = some replaced ∧
            Json.readWhole out = some replaced := by
  obtain ⟨blanks, tree, after, htext, hblanks, hafter, hwell, hjson⟩ :=
    Json.readWhole_eq_some_iff.mp hread
  rw [(tree.whole_and_depth_of_json? hjson).2] at hdepth
  have hdocument : IsDocument settings text blanks tree after :=
    ⟨htext, hblanks, hafter, hwell, hdepth⟩
  obtain ⟨found, hscan, -⟩ := Scan.exists_document_of_isDocument hdocument
  refine ⟨SiteIndex.kind_locate_ne_parse_iff.mpr ⟨found, hscan⟩, blanks, tree, after, hdocument,
    hjson, ?_⟩
  intro desired out hpatch
  obtain ⟨index, patches, hpatching⟩ := exists_patching_of_isDocument hpatch hdocument
  obtain ⟨replaced, hreplaced, hout⟩ := hpatching.exists_readWhole hjson
  exact ⟨index, patches, replaced, hpatching.locate, hpatching.build,
    fun patch hmem => hpatching.rangesOverArray hmem, hreplaced, hout⟩

/-- A number stays as it is spelled, and an array with an object in it gives way
to a desired list. -/
theorem readWhole_of_patchText_number :
    ∃ text out value replaced,
      text = "\x7b\"id\":\"a\",\"n\":-1e3,\"tags\":[\"x\",\x7b\x7d]\x7d".toList ∧
      out = "\x7b\"id\":\"a\",\"n\":-1e3,\"tags\":[\n  \"y\"\n]\x7d".toList ∧
      value = .object [(some "id".toList, .string (some ['a'])),
        (some ['n'], .number "-1e3".toList),
        (some "tags".toList, .array [.string (some ['x']), .object []])] ∧
      replaced = .object [(some "id".toList, .string (some ['a'])),
        (some ['n'], .number "-1e3".toList),
        (some "tags".toList, .array [.string (some ['y'])])] ∧
      Json.readWhole text = some value ∧ value.depth ≤ ({} : Settings).maxDepth ∧
      patchText {} text (Catalog.ofList [(['a'], [['y']])]) = .ok out ∧
      ∃ (blanks : Text) (tree : Tree) (patches : List Patch), tree.json? = some value ∧
        tree.jsonWith? (desiredAt? (Catalog.ofList [(['a'], [['y']])]) patches) blanks.size =
          some replaced ∧
        Json.readWhole out = some replaced := by
  obtain ⟨text, htext⟩ : ∃ text : Text,
    text = "\x7b\"id\":\"a\",\"n\":-1e3,\"tags\":[\"x\",\x7b\x7d]\x7d".toList := ⟨_, rfl⟩
  obtain ⟨out, hout⟩ : ∃ out : Text,
    out = "\x7b\"id\":\"a\",\"n\":-1e3,\"tags\":[\n  \"y\"\n]\x7d".toList := ⟨_, rfl⟩
  -- The document around an array, and the array before and after, as trees.
  obtain ⟨document, hdocument⟩ : ∃ document : Tree → Tree, document = fun tags =>
      .object [] (.mk (StringPiece.ofText "id".toList) [] [] (.string [.plain 'a']))
        (.more [] [] (.mk [.plain 'n'] [] [] (.literal "-1e3".toList))
          (.more [] [] (.mk (StringPiece.ofText "tags".toList) [] [] tags) (.done []))) :=
    ⟨_, rfl⟩
  obtain ⟨old, hold⟩ : ∃ old : Tree,
    old = .array [] (.string [.plain 'x']) (.more [] [] (.emptyObject []) (.done [])) := ⟨_, rfl⟩
  obtain ⟨new, hnew⟩ : ∃ new : Tree,
    new = .array ['\n', ' ', ' '] (.string [.plain 'y']) (.done ['\n']) := ⟨_, rfl⟩
  have hnil := allBlank_nil
  have hnumber : IsLiteral "-1e3".toList :=
    Json.isLiteral_of_word (show Json.word _ = some (.number _) from rfl)
  have hwell : ∀ tags : Tree, tags.WellFormed → (document tags).WellFormed := by
    intro tags htags
    rw [hdocument]
    exact ⟨hnil, ⟨rfl, hnil, hnil, rfl⟩, hnil, hnil, ⟨rfl, hnil, hnil, hnumber⟩, hnil, hnil,
      ⟨rfl, hnil, hnil, htags⟩, hnil⟩
  have holdWell : old.WellFormed := by
    rw [hold]
    exact ⟨hnil, rfl, hnil, hnil, hnil, hnil⟩
  have hnewWell : new.WellFormed := by
    rw [hnew]
    exact ⟨List.all_eq_true.mp rfl, rfl, allBlank_singleton rfl⟩
  have holdText : text = (document old).text := by
    rw [htext, hdocument, hold]
    decide +kernel
  have hnewText : out = (document new).text := by
    rw [hout, hdocument, hnew]
    decide +kernel
  have hread : Json.readWhole text = some (.object [(some "id".toList, .string (some ['a'])),
      (some ['n'], .number "-1e3".toList),
      (some "tags".toList, .array [.string (some ['x']), .object []])]) := by
    rw [holdText]
    refine Json.readWhole_text (hwell old holdWell) ?_
    rw [hdocument, hold]
    rfl
  have hpatch : patchText {} text (Catalog.ofList [(['a'], [['y']])]) = .ok out := by
    rw [htext, hout]
    decide +kernel
  obtain ⟨-, blanks, tree, after, -, hjson, hpatched⟩ :=
    readWhole_of_patchText hread (show _ ≤ ({} : Settings).maxDepth by decide)
  obtain ⟨index, patches, replaced, -, -, -, hreplaced, hagain⟩ := hpatched _ _ hpatch
  have hvalue : Json.readWhole out = some (.object [(some "id".toList, .string (some ['a'])),
      (some ['n'], .number "-1e3".toList),
      (some "tags".toList, .array [.string (some ['y'])])]) := by
    rw [hnewText]
    refine Json.readWhole_text (hwell new hnewWell) ?_
    rw [hdocument, hnew]
    rfl
  cases hvalue.symm.trans hagain
  exact ⟨text, out, _, _, htext, hout, rfl, rfl, hread, by decide, hpatch, blanks, tree, patches,
    hjson, hreplaced, hagain⟩

end ArrayPatch
