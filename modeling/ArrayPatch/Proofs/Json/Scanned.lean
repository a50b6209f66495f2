import ArrayPatch.Json.Decode
import ArrayPatch.Proofs.Json.Read
import ArrayPatch.Proofs.Scan.Agreement
import ArrayPatch.Proofs.Site.Spans

/-!
# What is decoded from JSON is scanned alike

Strings and lists of strings are decoded in two ways: from a JSON text, strictly, and
by the scanner, which also accepts what is no JSON.  A JSON text is the text of a tree
between blanks, and the tree stands for the same texts as its JSON value.  The scanner
yields what the tree stands for and ends behind the tree.  So it yields whatever is
decoded, and only blanks are left.
-/

namespace ArrayPatch

namespace Json.Value

variable {value : Value} {texts : List Text}

theorem asText?_eq_some_iff {text : Text} :
    value.asText? = some text ↔ value = .string (some text) := by
  cases value <;> simp [asText?]

theorem asText?_of_isScalar (hscalar : value.isScalar) :
    value.asText? = none ∧ value.asTexts? = none := by
  cases value with
  | null | bool | number => exact ⟨rfl, rfl⟩
  | string | array | object => cases hscalar

/-- Strings that stand for texts are whole and open nothing. -/
theorem whole_and_depth_of_mapM_asText? {elements : List Value}
    (htexts : elements.mapM asText? = some texts) :
    elementsAreWhole elements ∧ elementsDepth elements = 0 := by
  induction elements generalizing texts with
  | nil => exact ⟨rfl, rfl⟩
  | cons element elements ih =>
      simp only [List.mapM_cons, bind, pure, Option.bind_eq_some_iff] at htexts
      obtain ⟨text, htext, more, hmore, -⟩ := htexts
      obtain ⟨hwhole, hdepth⟩ := ih hmore
      rw [asText?_eq_some_iff.mp htext]
      constructor
      · rw [elementsAreWhole, hwhole]
        rfl
      · rw [elementsDepth, hdepth]
        rfl

/-- A list of texts has a text for every string and opens nothing but itself. -/
theorem whole_and_depth_of_asTexts? (htexts : value.asTexts? = some texts) :
    value.isWhole ∧ value.depth = 1 := by
  cases value with
  | array elements =>
      obtain ⟨hwhole, hdepth⟩ := whole_and_depth_of_mapM_asText? htexts
      exact ⟨hwhole, by rw [depth, hdepth]⟩
  | null | bool | number | string | object => cases htexts

end Json.Value

namespace Grammar

open Json (Value)

theorem StringPiece.meaning?_of_jsonText? {pieces : List StringPiece} {text : Text}
    (htext : jsonText? pieces = some text) : meaning? pieces = some text := by
  rw [jsonText?, Option.ite_none_right_eq_some] at htext
  exact htext.2

theorem asText?_of_word {run : Text} {value : Value} (hword : Json.word run = some value) :
    value.asText? = none ∧ value.asTexts? = none := by
  have hreads := Json.reads_scalar_of_word hword (AllBlank.delimited allBlank_nil)
  exact Value.asText?_of_isScalar (Json.isScalar_of_reads hreads)

/-- A tree is a string token that stands for a text exactly if its value is the text. -/
theorem Tree.meaning?_of_json? {tree : Tree} {value : Value} (hjson : tree.json? = some value) :
    tree.meaning? = value.asText? := by
  cases tree with
  | literal run => exact (asText?_of_word hjson).1.symm
  | string pieces =>
      obtain ⟨text, htext, rfl⟩ := Tree.json?_string_eq_some_iff.mp hjson
      exact StringPiece.meaning?_of_jsonText? htext
  | emptyArray | emptyObject =>
      cases hjson
      rfl
  | array blanks first more =>
      obtain ⟨_, _, -, -, rfl⟩ := Tree.json?_array_eq_some_iff.mp hjson
      rfl
  | object blanks first more =>
      obtain ⟨_, _, -, -, rfl⟩ := Tree.json?_object_eq_some_iff.mp hjson
      rfl

theorem Elements.mapM_meaning?_of_json? : {values : List Value} → (more : Elements) →
    more.json? = some values → more.toList.mapM Tree.meaning? = values.mapM Value.asText?
  | _, .done _, hjson => by
      cases hjson
      rfl
  | _, .more before after element rest, hjson => by
      obtain ⟨value, behind, hvalue, hbehind, rfl⟩ := Elements.json?_more_eq_some_iff.mp hjson
      rw [Elements.toList, List.mapM_cons, List.mapM_cons, Tree.meaning?_of_json? hvalue,
        rest.mapM_meaning?_of_json? hbehind]

/-- A tree is an array of string tokens exactly if its value is a list of texts, and
these are what the tokens stand for. -/
theorem Tree.strings?_of_json? {tree : Tree} {value : Value} (hjson : tree.json? = some value) :
    tree.strings? = value.asTexts? := by
  cases tree with
  | literal run => exact (asText?_of_word hjson).2.symm
  | string pieces =>
      obtain ⟨text, -, rfl⟩ := Tree.json?_string_eq_some_iff.mp hjson
      rfl
  | emptyArray | emptyObject =>
      cases hjson
      rfl
  | array blanks first more =>
      obtain ⟨element, elements, helement, helements, rfl⟩ :=
        Tree.json?_array_eq_some_iff.mp hjson
      rw [Tree.strings?, Value.asTexts?, List.mapM_cons, List.mapM_cons,
        Tree.meaning?_of_json? helement, more.mapM_meaning?_of_json? helements]
  | object blanks first more =>
      obtain ⟨_, _, -, -, rfl⟩ := Tree.json?_object_eq_some_iff.mp hjson
      rfl

end Grammar

open Grammar

/-! ## Scanning JSON texts -/

/-- From an offset on a text holds blanks only. -/
def Text.BlankFrom (text : Text) (offset : Nat) : Prop :=
  ∃ before after, text = before ++ after ∧ before.size = offset ∧ AllBlank after

namespace Json

variable {settings : Settings} {text : Text} {value : Value}

/-- A JSON text within the nesting limit is scanned for its strings to its end, and what
is yielded are the texts of its value, if it is a list of texts. -/
theorem exists_ask_strings (hread : readWhole text = some value)
    (hdepth : value.depth ≤ settings.maxDepth) :
    ∃ stop, ((Scanner.new settings text).ask (.strings 0)).1 =
      .ok (.strings value.asTexts? stop) ∧ text.BlankFrom stop := by
  obtain ⟨blanks, tree, after, rfl, hblanks, hafter, hwell, hjson⟩ :=
    readWhole_eq_some_iff.mp hread
  rw [(tree.whole_and_depth_of_json? hjson).2] at hdepth
  have hpasses : (Cursor.mk 0 (blanks ++ tree.text ++ after)).Passes (blanks ++ tree.text)
      ⟨(blanks ++ tree.text).size, after⟩ := ⟨rfl, (Nat.zero_add _).symm⟩
  have hresult := Scan.result_stringsAt_of_passes (Text.tailAt_size_append [] _) hblanks hpasses
    hwell hdepth (Tree.canPrecede_of_delimited hafter.delimited)
  refine ⟨(blanks ++ tree.text).size, ?_, blanks ++ tree.text, after, rfl, rfl, hafter⟩
  rw [Scanner.ask_eq (Scanner.new settings _) rfl, Request.result_scan_strings,
    ← Tree.strings?_of_json? hjson]
  exact congrArg (Except.map _) hresult

/-- The string that a JSON text holds is scanned behind the blanks, to its end. -/
theorem exists_stringAt {string : Text} (hread : readWhole text = some (.string (some string))) :
    ∃ stop, Scan.stringAt text (Scan.blanksEnd text 0) = .ok (string, stop) ∧
      text.BlankFrom stop := by
  obtain ⟨blanks, tree, after, rfl, hblanks, hafter, hwell, hjson⟩ :=
    readWhole_eq_some_iff.mp hread
  have hmeaning := Tree.meaning?_of_json? hjson
  obtain ⟨pieces, rfl⟩ : ∃ pieces, tree = .string pieces := by
    obtain ⟨pieces, htree, -⟩ := Tree.meaning?_eq_some_iff.mp hmeaning
    exact ⟨pieces, htree⟩
  have hstart : Scan.blanksEnd (blanks ++ (Tree.string pieces).text ++ after) 0 = blanks.size := by
    have hbefore : (Cursor.mk 0 (blanks ++ (Tree.string pieces).text ++ after)).Passes blanks
        ⟨blanks.size, (Tree.string pieces).text ++ after⟩ :=
      ⟨List.append_assoc _ _ _, (Nat.zero_add _).symm⟩
    have htoken : (Cursor.mk blanks.size ((Tree.string pieces).text ++ after)).Passes
        (Tree.string pieces).text ⟨blanks.size + (Tree.string pieces).text.size, after⟩ :=
      ⟨rfl, rfl⟩
    have hskip := Cursor.skipBlanks_eq_of_tree hblanks hbefore htoken hwell
    have htail := Text.tailAt_size_append [] (blanks ++ (Tree.string pieces).text ++ after)
    rw [List.nil_append, Text.size_nil] at htail
    rw [Scan.blanksEnd, htail, if_pos rfl]
    exact congrArg Cursor.offset hskip
  have hat : (blanks ++ (Tree.string pieces).text ++ after).HasAt 0
      (StringPiece.tokenText pieces) blanks.size := ⟨blanks, after, rfl, Nat.zero_add _⟩
  refine ⟨_, ?_, blanks ++ (Tree.string pieces).text, after, rfl, Text.size_append _ _, hafter⟩
  rw [hstart]
  exact hat.stringAt_eq_ok hmeaning

/-- A list of texts that is decoded is read as a whole, and only itself is open in it. -/
theorem exists_readWhole_of_decodeStrings {values : List Text}
    (hdecode : decodeStrings text = .ok values) :
    ∃ value, readWhole text = some value ∧ value.asTexts? = some values ∧ value.depth = 1 := by
  have hread : readStrings text = some values := by
    rw [decodeStrings] at hdecode
    split at hdecode
    · rename_i hread
      rw [hread, Except.ok.inj hdecode]
    · cases hdecode
  obtain ⟨value, hvalue, htexts⟩ := Option.bind_eq_some_iff.mp hread
  obtain ⟨hwhole, hdepth⟩ := Value.whole_and_depth_of_asTexts? htexts
  exact ⟨value, Option.filter_eq_some_iff.mpr ⟨hvalue, hwhole⟩, htexts, hdepth⟩

theorem readWhole_of_decodeString {string : Text} (hdecode : decodeString text = .ok string) :
    readWhole text = some (.string (some string)) := by
  have hread : readString text = some string := by
    rw [decodeString] at hdecode
    split at hdecode
    · rename_i hread
      rw [hread, Except.ok.inj hdecode]
    · cases hdecode
  obtain ⟨value, hvalue, htext⟩ := Option.bind_eq_some_iff.mp hread
  obtain rfl := Value.asText?_eq_some_iff.mp htext
  exact Option.filter_eq_some_iff.mpr ⟨hvalue, rfl⟩

/-- Whatever is decoded from a JSON text, a new scanner yields as well: a list of texts
from the start of the text, if one array may be open, and a text from the end of the
blanks there.  Behind what is scanned stand blanks only. -/
theorem scanned_of_decoded (text : Text) :
    (∀ values, decodeStrings text = .ok values →
      ∀ settings : Settings, 1 ≤ settings.maxDepth →
        ∃ stop, ((Scanner.new settings text).ask (.strings 0)).1 =
          .ok (.strings (some values) stop) ∧ text.BlankFrom stop) ∧
    ∀ string, decodeString text = .ok string →
      ∃ stop, Scan.stringAt text (Scan.blanksEnd text 0) = .ok (string, stop) ∧
        text.BlankFrom stop := by
  constructor
  · intro values hdecode settings hlimit
    obtain ⟨value, hread, htexts, hdepth⟩ := exists_readWhole_of_decodeStrings hdecode
    rw [← htexts]
    exact exists_ask_strings hread (hdepth ▸ hlimit)
  · intro string hdecode
    exact exists_stringAt (readWhole_of_decodeString hdecode)

/-- Escapes in either case, a surrogate pair among them, in a list that is the only array
that may be open, and in a string behind blanks. -/
theorem scanned_of_decoded_pair :
    ∃ list string : Text,
      list = "\t[ \"\\u00E9\\ud83D\\uDE00\" ,\"\\/\"]\r\n".toList ∧
      string = " \n\"\\uD83d\\ude00\\\"\" ".toList ∧
      decodeStrings list = .ok [['é', '😀'], ['/']] ∧
      1 ≤ ({ maxDepth := 1 } : Settings).maxDepth ∧
      (∃ stop, ((Scanner.new { maxDepth := 1 } list).ask (.strings 0)).1 =
        .ok (.strings (some [['é', '😀'], ['/']]) stop) ∧ list.BlankFrom stop) ∧
      decodeString string = .ok ['😀', '"'] ∧
      ∃ stop, Scan.stringAt string (Scan.blanksEnd string 0) = .ok (['😀', '"'], stop) ∧
        string.BlankFrom stop := by
  have hlist : decodeStrings "\t[ \"\\u00E9\\ud83D\\uDE00\" ,\"\\/\"]\r\n".toList =
      .ok [['é', '😀'], ['/']] := by
    decide +kernel
  have hstring : decodeString " \n\"\\uD83d\\ude00\\\"\" ".toList = .ok ['😀', '"'] := by
    decide +kernel
  exact ⟨_, _, rfl, rfl, hlist, Nat.le_refl 1,
    (scanned_of_decoded _).1 _ hlist { maxDepth := 1 } (Nat.le_refl 1), hstring,
    (scanned_of_decoded _).2 _ hstring⟩

end Json

end ArrayPatch
