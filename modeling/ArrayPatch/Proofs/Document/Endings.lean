import ArrayPatch.Proofs.Document.Again
import ArrayPatch.Proofs.Text.Crlf

/-!
# Patching does not mix line endings

In a text with double line ends only, every line feed comes right behind a carriage
return.  Texts of this kind can be put side by side, and they can be cut wherever no
carriage return comes before the cut.  An array ends in its bracket, so cutting it out
leaves two such texts, and what is rendered in its place is one as well: a written
string has no raw line feed, and the indentation of a key has none either.  In a text
without double line ends, none comes about where a rendered array meets the text
around it.
-/

namespace ArrayPatch

open Grammar Patch

/-- Every line feed of a text comes right behind a carriage return. -/
def Text.FeedsPaired (text : Text) : Prop :=
  ∀ before after, text = before ++ '\n' :: after → before.getLast? = some '\r'

namespace Text.FeedsPaired

variable {text first second : Text}

theorem of_not_mem (hfeed : '\n' ∉ text) : text.FeedsPaired := by
  rintro before after rfl
  simp at hfeed

theorem pair : FeedsPaired ['\r', '\n'] := by
  intro before after heq
  rcases before with _ | ⟨c, _ | ⟨d, before⟩⟩
  · cases heq
  · obtain ⟨rfl, -⟩ := List.cons.inj heq
    rfl
  · simp at heq

theorem append (hfirst : first.FeedsPaired) (hsecond : second.FeedsPaired) :
    FeedsPaired (first ++ second) := by
  intro before after heq
  rcases List.append_eq_append_iff.mp heq with ⟨more, rfl, htext⟩ | ⟨more, htext, hrest⟩
  · rw [List.getLast?_append, hsecond more after htext]
    rfl
  · cases more with
    | nil => cases hsecond [] after hrest.symm
    | cons c more =>
        obtain ⟨rfl, -⟩ := List.cons.inj hrest
        exact hfirst before more htext

theorem left (hpaired : FeedsPaired (first ++ second)) : first.FeedsPaired := by
  rintro before after rfl
  exact hpaired before (after ++ second) (List.append_assoc ..)

/-- What is behind a cut that does not part a pair. -/
theorem right (hpaired : FeedsPaired (first ++ second)) (hlast : first.getLast? ≠ some '\r') :
    second.FeedsPaired := by
  rintro before after rfl
  have hall := hpaired (first ++ before) after (List.append_assoc ..).symm
  rw [List.getLast?_append] at hall
  cases hbefore : before.getLast? with
  | none =>
      rw [hbefore] at hall
      exact absurd hall hlast
  | some c =>
      rw [hbefore] at hall
      exact hall

/-- A text becomes one with double line ends only by a carriage return in front of every
line feed. -/
theorem crlf (text : Text) : text.crlf.FeedsPaired := by
  induction text with
  | nil => exact of_not_mem List.not_mem_nil
  | cons c text ih =>
      by_cases hc : c = '\n'
      · rw [hc, crlf_cons_feed]
        exact pair.append ih
      · rw [crlf_cons hc]
        have hone : FeedsPaired [c] := of_not_mem (by simpa using Ne.symm hc)
        exact hone.append ih

end Text.FeedsPaired

namespace Layout

/-- A text has a carriage return in front of a line feed exactly if the two are a part
of it. -/
theorem hasCrlf_iff_isInfix {text : Text} : hasCrlf text ↔ ['\r', '\n'] <:+: text := by
  rw [hasCrlf_iff]
  constructor
  · rintro ⟨before, after, rfl⟩
    exact ⟨before, after, by simp⟩
  · rintro ⟨before, after, rfl⟩
    exact ⟨before, after, by simp⟩

variable {layout : Layout} {indentation : Text} {values : List Text}

theorem feedsPaired_breakTo (hending : layout.ending = .crlf)
    (hindentation : ∀ c ∈ indentation, isIndent c) :
    (layout.breakTo indentation).FeedsPaired := by
  have hindent : '\n' ∉ indentation := fun hmem => by
    simpa [isIndent] using hindentation _ hmem
  rw [breakTo, hending]
  exact Text.FeedsPaired.pair.append (.of_not_mem hindent)

theorem feedsPaired_elementBreak (hending : layout.ending = .crlf)
    (hindentation : ∀ c ∈ indentation, isIndent c) :
    (layout.elementBreak indentation).FeedsPaired := by
  apply feedsPaired_breakTo hending
  intro c hc
  rcases List.mem_append.mp hc with hc | hc
  · exact hindentation c hc
  · exact IndentUnit.isIndent_of_mem_text c hc

theorem feedsPaired_encodeString (value : Text) : (Json.encodeString value).FeedsPaired :=
  .of_not_mem (Json.not_mem_encodeString (by decide) value)

theorem feedsPaired_renderElements (hbreak : (layout.elementBreak indentation).FeedsPaired) :
    (layout.renderElements indentation values).FeedsPaired := by
  have hcomma : Text.FeedsPaired [','] := .of_not_mem (by decide)
  induction values with
  | nil => exact .of_not_mem List.not_mem_nil
  | cons value values ih =>
      have hvalue := hbreak.append (feedsPaired_encodeString value)
      cases values with
      | nil => rwa [renderElements_singleton]
      | cons next values =>
          rw [renderElements_cons_cons]
          exact hvalue.append (hcomma.append ih)

/-- Rendered with double line ends, an array has no other ones. -/
theorem feedsPaired_render (hending : layout.ending = .crlf)
    (hindentation : ∀ c ∈ indentation, isIndent c) :
    (layout.render indentation values).FeedsPaired := by
  have hopen : Text.FeedsPaired ['['] := .of_not_mem (by decide)
  have hclose : Text.FeedsPaired [']'] := .of_not_mem (by decide)
  rw [render]
  split
  · exact .of_not_mem (by decide)
  · have helements : (layout.renderElements indentation values).FeedsPaired :=
      feedsPaired_renderElements (feedsPaired_elementBreak hending hindentation)
    exact ((hopen.append helements).append (feedsPaired_breakTo hending hindentation)).append hclose

end Layout

/-- A rewritten text has double line ends only if this holds of the text before and of
what the patches bring, and what they exchange ends in brackets. -/
theorem Patch.Rewrites.feedsPaired {patches : List Patch} {offset : Nat} {old new : Text}
    (hrewrites : Rewrites patches offset old new) (before : Text) (hbefore : before.size = offset)
    (hold : old.FeedsPaired)
    (hpatches : ∀ patch ∈ patches, patch.text.FeedsPaired ∧
      ∃ front, Text.slice? (before ++ old) patch.start patch.stop = some (front ++ [']'])) :
    new.FeedsPaired := by
  induction hrewrites generalizing before with
  | done => exact hold
  | @step patch patches offset kept exchanged rest newRest hstart hstop hsize hrest ih =>
      obtain ⟨⟨htext, front, hraw⟩, hpatches⟩ := List.forall_mem_cons.mp hpatches
      have hbehind : Text.size (before ++ kept ++ exchanged) = patch.stop := by
        rw [Text.size_append, Text.size_append, hbefore, ← hstart, hstop]
      simp only [← List.append_assoc] at hold hraw hpatches
      have hexchanged : Text.slice? (before ++ kept ++ exchanged ++ rest) patch.start
          patch.stop = some exchanged := by
        apply Text.slice?_eq_some_iff.mpr
        refine ⟨before ++ kept, rest, rfl, ?_, ?_⟩
        · rw [Text.size_append, hbefore, hstart]
        · rw [← Text.size_append, hbehind]
      obtain rfl := Option.some.inj (hexchanged.symm.trans hraw)
      -- What is kept may end in a carriage return, but a bracket comes before the rest.
      have hlast : (kept ++ (front ++ [']'])).getLast? ≠ some '\r' := by
        rw [← List.append_assoc, List.getLast?_concat]
        decide
      exact hold.left.left.append (htext.append (ih _ hbehind (hold.right hlast) hpatches))

namespace Patching

variable {settings : Settings} {text out : Text} {desired : Desired} {index : SiteIndex}
variable {patches : List Patch} {blanks after : Text} {tree : Tree}
variable (hpatching :
  Patching settings (Layout.detect text) text out desired index patches blanks tree after)

include hpatching

theorem feedsPaired (hcrlf : Layout.hasCrlf text) (htext : text.FeedsPaired) : out.FeedsPaired := by
  obtain ⟨ascending, hperm, hrewrites⟩ := hpatching.exists_rewrites
  apply hrewrites.feedsPaired [] rfl htext
  intro patch hpatch
  obtain ⟨site, values, hsite, -, hrenders⟩ :=
    exists_renders_of_mem hpatching.build (hperm.mem_iff.mpr hpatch)
  obtain ⟨indentation, hindentation, hpatchText⟩ := renderAt_eq_ok_iff.mp hrenders.renderAt_eq
  have hending : (Layout.detect text).ending = .crlf := if_pos hcrlf
  obtain ⟨array, harray, hat, hend⟩ :=
    hpatching.located.exists_array (Catalog.find?_eq_some_iff.mp hsite).1
  obtain ⟨-, front, hclose⟩ := Tree.exists_brackets_of_isArray harray
  refine ⟨?_, front, ?_⟩
  · rw [hpatchText]
    exact Layout.feedsPaired_render hending (Text.isIndent_of_indentationAt? hindentation)
  · rw [hrenders.start_eq, hrenders.stop_eq, hend, ← hclose]
    exact hat.slice?_eq_some

end Patching

/-- Patching does not mix line endings: a text whose line feeds all come behind carriage
returns is patched to such a text if it has a line feed, and a text without a carriage
return in front of a line feed is patched to one without. -/
theorem patchText_keeps_line_endings {settings : Settings} {text out : Text} {desired : Desired}
    (hpatch : patchText settings text desired = .ok out) :
    (['\r', '\n'] <:+: text → text.FeedsPaired → out.FeedsPaired) ∧
      (¬ ['\r', '\n'] <:+: text → ¬ ['\r', '\n'] <:+: out) := by
  obtain ⟨index, patches, blanks, tree, after, hpatching⟩ := exists_patching hpatch
  rw [← Layout.hasCrlf_iff_isInfix, ← Layout.hasCrlf_iff_isInfix]
  exact ⟨hpatching.feedsPaired, hpatching.not_hasCrlf⟩

/-- A string with raw line ends is put into a text with double line ends, and into one
that has a carriage return in front of the array and a line feed behind it. -/
theorem patchText_keeps_line_endings_of_raw :
    ∃ (double single outDouble outSingle : Text) (desired : Desired),
      desired = Catalog.ofList [(['a'], [['\r', '\n', '\r'], ['\n']])] ∧
      double = "\x7b\r\n\"id\":\"a\",\r\n\"tags\":[\r]\x7d\r".toList ∧
      outDouble =
        "\x7b\r\n\"id\":\"a\",\r\n\"tags\":[\r\n  \"\\r\\n\\r\",\r\n  \"\\n\"\r\n]\x7d\r".toList ∧
      single = "\x7b\"id\":\"a\",\n\"tags\":\r[]\n\x7d".toList ∧
      outSingle = "\x7b\"id\":\"a\",\n\"tags\":\r[\n  \"\\r\\n\\r\",\n  \"\\n\"\n]\n\x7d".toList ∧
      patchText {} double desired = .ok outDouble ∧ double ≠ outDouble ∧
      double.FeedsPaired ∧ outDouble.FeedsPaired ∧
      patchText {} single desired = .ok outSingle ∧ single ≠ outSingle ∧
      ¬ ['\r', '\n'] <:+: single ∧ ¬ ['\r', '\n'] <:+: outSingle := by
  have hdouble : patchText {} "\x7b\r\n\"id\":\"a\",\r\n\"tags\":[\r]\x7d\r".toList
      (Catalog.ofList [(['a'], [['\r', '\n', '\r'], ['\n']])]) =
    .ok
      "\x7b\r\n\"id\":\"a\",\r\n\"tags\":[\r\n  \"\\r\\n\\r\",\r\n  \"\\n\"\r\n]\x7d\r".toList := by
    decide +kernel
  have hsingle : patchText {} "\x7b\"id\":\"a\",\n\"tags\":\r[]\n\x7d".toList
      (Catalog.ofList [(['a'], [['\r', '\n', '\r'], ['\n']])]) =
    .ok "\x7b\"id\":\"a\",\n\"tags\":\r[\n  \"\\r\\n\\r\",\n  \"\\n\"\n]\n\x7d".toList := by
    decide +kernel
  have hpaired :
      Text.FeedsPaired "\x7b\r\n\"id\":\"a\",\r\n\"tags\":[\r]\x7d\r".toList :=
    Text.FeedsPaired.crlf "\x7b\n\"id\":\"a\",\n\"tags\":[\r]\x7d\r".toList
  exact ⟨_, _, _, _, _, rfl, rfl, rfl, rfl, rfl, hdouble, by decide, hpaired,
    (patchText_keeps_line_endings hdouble).1 (by decide) hpaired, hsingle, by decide, by decide,
    (patchText_keeps_line_endings hsingle).2 (by decide)⟩

end ArrayPatch
