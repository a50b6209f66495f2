import ArrayPatch.Proofs.Grammar.Acceptance
import ArrayPatch.Proofs.Scan.Requests
import ArrayPatch.Proofs.Scan.Spelling
import ArrayPatch.Proofs.Scan.Strings

/-!
# Reading strings is reading a value

An array is read for its strings by loops of their own.  From whatever a scanner
keeps, a request for strings leaves behind what a request for the value at the
same offset leaves, and it fails or ends as that does.  What is added are the
strings, if the value is an array of nothing else.
-/

namespace ArrayPatch

namespace Grammar

/-- A string token that spells a text. -/
def Tree.Spells (tree : Tree) (value : Text) : Prop :=
  ∃ pieces, tree = .string pieces ∧ List.Forall₂ StringPiece.Spells pieces value

/-- An array of string tokens, which spell texts one after the other. -/
inductive Tree.SpellsAll : Tree → List Text → Prop
  | emptyArray {blanks : Text} : SpellsAll (.emptyArray blanks) []
  | array {blanks : Text} {first : Tree} {more : Elements} {values : List Text}
      (helements : List.Forall₂ Spells (first :: more.toList) values) :
      SpellsAll (.array blanks first more) values

/-- A tree stands in a text behind the blanks at an offset, and it ends at
another. -/
def Tree.SpansIn (tree : Tree) (text : Text) (start stop : Nat) : Prop :=
  tree.WellFormed ∧ ∃ before blanks after : Text,
    text = before ++ (blanks ++ tree.text ++ after) ∧ AllBlank blanks ∧ before.size = start ∧
      stop = start + (blanks ++ tree.text).size

/-- The string tokens are those that stand for the text that they spell. -/
theorem Tree.meaning?_eq_some_iff {tree : Tree} {value : Text} :
    tree.meaning? = some value ↔ tree.Spells value := by
  constructor
  · intro hmeaning
    cases tree with
    | string pieces => exact ⟨pieces, rfl, StringPiece.meaning?_eq_some_iff_spells.mp hmeaning⟩
    | literal | emptyArray | array | emptyObject | object => cases hmeaning
  · rintro ⟨pieces, rfl, hspells⟩
    exact StringPiece.meaning?_eq_some_iff_spells.mpr hspells

theorem mapM_meaning?_eq_some_iff {trees : List Tree} {values : List Text} :
    trees.mapM Tree.meaning? = some values ↔ List.Forall₂ Tree.Spells trees values := by
  induction trees generalizing values with
  | nil => simp [eq_comm]
  | cons tree trees ih =>
      simp only [List.mapM_cons, bind, pure, Option.bind_eq_some_iff, Option.some.injEq,
        Tree.meaning?_eq_some_iff, ih, List.forall₂_cons_left_iff]
      constructor
      · rintro ⟨value, hvalue, more, hmore, rfl⟩
        exact ⟨value, more, hvalue, hmore, rfl⟩
      · rintro ⟨value, more, hvalue, hmore, rfl⟩
        exact ⟨value, hvalue, more, hmore, rfl⟩

/-- The trees with strings are the arrays of string tokens. -/
theorem Tree.strings?_eq_some_iff {tree : Tree} {values : List Text} :
    tree.strings? = some values ↔ tree.SpellsAll values := by
  constructor
  · intro hstrings
    cases tree with
    | emptyArray blanks =>
        cases hstrings
        exact .emptyArray
    | array blanks first more => exact .array (mapM_meaning?_eq_some_iff.mp hstrings)
    | literal | string | emptyObject | object => cases hstrings
  · intro hspells
    cases hspells with
    | emptyArray => rfl
    | array helements => exact mapM_meaning?_eq_some_iff.mpr helements

/-- Elements that open nothing. -/
theorem Elements.depth_eq_zero : (more : Elements) →
    (∀ element ∈ more.toList, element.depth = 0) → more.depth = 0
  | .done _, _ => rfl
  | .more _ _ element rest, hall => by
      rw [Elements.toList, List.forall_mem_cons] at hall
      rw [Elements.depth, hall.1, rest.depth_eq_zero hall.2]
      rfl

theorem Tree.SpellsAll.depth_eq_one {tree : Tree} {values : List Text}
    (hspells : tree.SpellsAll values) : tree.depth = 1 := by
  cases hspells with
  | emptyArray => rfl
  | array helements =>
      have htokens := helements.imp fun element value hvalue => by
        show element.depth = 0 ∧ element.Spells value
        obtain ⟨pieces, rfl, -⟩ := id hvalue
        exact ⟨rfl, hvalue⟩
      have hdepth := ((List.forall₂_and_left _ _).mp htokens).1
      rw [List.forall_mem_cons] at hdepth
      rw [Tree.depth, hdepth.1, Elements.depth_eq_zero _ hdepth.2]
      rfl

theorem Tree.SpellsAll.isArray {tree : Tree} {values : List Text}
    (hspells : tree.SpellsAll values) : tree.isArray := by
  cases hspells <;> rfl

theorem Tree.one_le_depth_of_isArray {tree : Tree} (harray : tree.isArray) : 1 ≤ tree.depth := by
  cases tree with
  | emptyArray => exact Nat.le_refl 1
  | array blanks first more => exact Nat.le_add_left 1 _
  | literal | string | emptyObject | object => cases harray

/-- Behind blanks an array is told by its bracket. -/
theorem Tree.isArray_iff_of_passes {tree : Tree} {cursor next : Cursor} {blanks : Text}
    (hblanks : AllBlank blanks) (hpasses : cursor.Passes (blanks ++ tree.text) next)
    (hwell : tree.WellFormed) : tree.isArray ↔ cursor.skipBlanks.rest.head? = some '[' := by
  obtain ⟨start, hstart, htree⟩ := Cursor.passes_append_iff.mp hpasses
  obtain ⟨c, tail, htext, -⟩ := Tree.exists_text_eq_cons hwell
  rw [Cursor.skipBlanks_eq_of_tree hblanks hstart htree hwell, Tree.isArray_iff_head hwell,
    htree.rest_eq, htext]
  rfl

end Grammar

open Grammar

namespace Scan

/-! ## Two ways to read a value -/

variable {settings : Settings} {text : Text} {start stop : Nat}

theorem map_stringsAt_eq_valueAt (settings : Settings) (text : Text) (start : Nat) :
    (·.2) <$> stringsAt settings text start = valueAt settings text start := by
  rw [map_stringsAt, valueAt_eq_map]

/-- The strings of a tree behind blanks are read. -/
theorem result_stringsAt_of_passes {blanks rest : Text} {tree : Tree} {next : Cursor}
    (htail : text.tailAt start = ⟨0, rest⟩) (hblanks : AllBlank blanks)
    (hpasses : (Cursor.mk start rest).Passes (blanks ++ tree.text) next) (hwell : tree.WellFormed)
    (hdepth : tree.depth ≤ settings.maxDepth) (hprecede : tree.CanPrecede next.rest) :
    (stringsAt settings text start).result = .ok (tree.strings?, next.offset) := by
  obtain ⟨behind, hbehind, htree⟩ := Cursor.passes_append_iff.mp hpasses
  have hskip := Cursor.skipBlanks_eq_of_tree hblanks hbehind htree hwell
  obtain ⟨_, hstrings⟩ := yields_strings_of_tree settings hskip htree hwell hdepth hprecede
  rw [stringsAt, htail]
  dsimp only
  rw [if_pos rfl, hstrings]
  rfl

/-- The strings that are read are those of the array that stands there. -/
theorem eq_some_iff_of_result_stringsAt {values : Option (List Text)}
    (hresult : (stringsAt settings text start).result = .ok (values, stop)) (list : List Text) :
    values = some list ↔ ∃ tree : Tree, tree.SpansIn text start stop ∧ tree.SpellsAll list := by
  have hvalue : (valueAt settings text start).result = .ok stop := by
    rw [← map_stringsAt_eq_valueAt, result_map, hresult]
    rfl
  rcases valueAt_eq_ok_iff.mp hvalue with ⟨hboundary, next, hvalueThere, rfl⟩ | ⟨hfragment, -⟩
  · obtain ⟨blanks, tree, hblanks, hpasses, hwell, hdepth, hprecede⟩ := hvalueThere
    have htail : text.tailAt start = ⟨0, (text.tailAt start).rest⟩ := by rw [← hboundary]
    have hread := result_stringsAt_of_passes htail hblanks hpasses hwell hdepth hprecede
    constructor
    · rintro rfl
      have hstart : start ≤ text.size := by
        by_contra hpast
        exact valueAt_ne_ok_of_size_lt (Nat.lt_of_not_le hpast) hvalue
      obtain ⟨before, htext, hbefore⟩ := Text.exists_eq_append_tailAt hstart hboundary
      have hstrings : tree.strings? = some list :=
        (Prod.mk.inj (Except.ok.inj (hread.symm.trans hresult))).1
      refine ⟨tree, ⟨hwell, before, blanks, next.rest, ?_, hblanks, hbefore, hpasses.offset_eq⟩,
        Tree.strings?_eq_some_iff.mp hstrings⟩
      rwa [← hpasses.rest_eq]
    · rintro ⟨array, ⟨harrayWell, before, blanks', after, rfl, hblanks', rfl, -⟩, hspells⟩
      have htail' := Text.tailAt_size_append before (blanks' ++ array.text ++ after)
      rw [htail'] at hpasses
      have hpasses' : (Cursor.mk before.size (blanks' ++ array.text ++ after)).Passes
          (blanks' ++ array.text) ⟨before.size + (blanks' ++ array.text).size, after⟩ := ⟨rfl, rfl⟩
      -- The value that was read starts with the same bracket, so one may be opened.
      have harray : tree.isArray := by
        rw [Tree.isArray_iff_of_passes hblanks hpasses hwell,
          ← Tree.isArray_iff_of_passes hblanks' hpasses' harrayWell]
        exact hspells.isArray
      have hdepth' : array.depth ≤ settings.maxDepth := by
        rw [hspells.depth_eq_one]
        exact Nat.le_trans (Tree.one_le_depth_of_isArray harray) hdepth
      have hread' := result_stringsAt_of_passes htail' hblanks' hpasses' harrayWell hdepth'
        (Tree.canPrecede_of_isArray hspells.isArray after)
      rw [hresult, Tree.strings?_eq_some_iff.mpr hspells] at hread'
      exact (Prod.mk.inj (Except.ok.inj hread')).1
  · -- Inside a character a literal is read, and no tree starts there.
    rw [stringsAt] at hresult
    dsimp only at hresult
    rw [if_neg hfragment] at hresult
    cases hresult
    simp only [reduceCtorEq, false_iff]
    rintro ⟨array, ⟨-, before, blanks, after, rfl, -, rfl, -⟩, -⟩
    rw [Text.tailAt_size_append] at hfragment
    exact hfragment rfl

end Scan

/-- A request for strings finds and ends with what a request for the value does. -/
theorem Request.map_scan_strings (settings : Settings) (text : Text) (start : Nat) :
    (fun answer => Answer.stop answer.offset) <$> (strings start).scan settings text =
      (value start).scan settings text := by
  simp [scan, ← Scan.map_stringsAt_eq_valueAt, Answer.offset]

theorem Request.result_scan_strings (settings : Settings) (text : Text) (start : Nat) :
    ((strings start).scan settings text).result =
      (Scan.stringsAt settings text start).result.map fun read => .strings read.1 read.2 :=
  Scan.result_map _ (Scan.stringsAt settings text start)

namespace Scanner

variable (scanner : Scanner) (start : Nat)

/-- Whatever a scanner has found and however many arrays and objects are open,
reading a value for its strings adds the same sites as reading it, and has the
same fault or the same end.  Strings are yielded exactly if the value is an array
of string tokens, and they are what the tokens spell. -/
theorem ask_strings_eq :
    (∃ sites, (scanner.ask (.strings start)).2 = { scanner with found := scanner.found ++ sites } ∧
      (scanner.ask (.value start)).2 = { scanner with found := scanner.found ++ sites }) ∧
    (scanner.ask (.value start)).1 =
      (scanner.ask (.strings start)).1.map (fun answer => .stop answer.offset) ∧
    ∀ answer, (scanner.ask (.strings start)).1 = .ok answer →
      ∃ values, answer = .strings values answer.offset ∧ ∀ list, values = some list ↔
        ∃ tree : Tree, tree.SpansIn scanner.text start answer.offset ∧ tree.SpellsAll list := by
  have hmap := Request.map_scan_strings (scanner.settings.below scanner.depth) scanner.text start
  rw [ask_eq_below, ask_eq_below, ← hmap, Scan.found_map, Scan.result_map]
  refine ⟨⟨_, rfl, rfl⟩, rfl, fun answer hanswer => ?_⟩
  dsimp only at hanswer
  rw [Request.result_scan_strings] at hanswer
  cases hresult : (Scan.stringsAt (scanner.settings.below scanner.depth) scanner.text start).result
  · rw [hresult] at hanswer
    cases hanswer
  · rename_i read
    rw [hresult] at hanswer
    cases hanswer
    exact ⟨read.1, rfl, Scan.eq_some_iff_of_result_stringsAt hresult⟩

/-- While an array is open and a site has been found, an array with an object
between its strings yields the site of the object, and no strings.  The array in
the object yields its string. -/
theorem ask_strings_eq_between_strings :
    ∃ (scanner : Scanner) (earlier site : Site),
      scanner.text = "[\"a\\n\",\x7b\"id\":\"b\",\"tags\":[\"\\u00e9\"]\x7d,\"d\"]".toList ∧
      scanner.settings.maxDepth = 4 ∧ scanner.depth = 1 ∧ scanner.found = [earlier] ∧
      earlier = ⟨['x'], 0, 5, 9⟩ ∧ site = ⟨['b'], 17, 24, 34⟩ ∧
      scanner.ask (.strings 0) =
        (.ok (.strings none 40), { scanner with found := [earlier, site] }) ∧
      (scanner.ask (.value 0)).1 = .ok (.stop 40) ∧
      (∀ list, ¬ ∃ tree : Tree, tree.SpansIn scanner.text 0 40 ∧ tree.SpellsAll list) ∧
      (scanner.ask (.strings 24)).1 = .ok (.strings (some [['é']]) 34) ∧
      ∃ tree : Tree, tree.SpansIn scanner.text 24 34 ∧ tree.SpellsAll [['é']] := by
  obtain ⟨scanner, hscanner⟩ : ∃ scanner : Scanner, scanner =
      { settings := { maxDepth := 4 }, depth := 1, found := [⟨['x'], 0, 5, 9⟩],
        text := "[\"a\\n\",\x7b\"id\":\"b\",\"tags\":[\"\\u00e9\"]\x7d,\"d\"]".toList } :=
    ⟨_, rfl⟩
  have hmixed : scanner.ask (.strings 0) = (.ok (.strings none 40),
      { scanner with found := [⟨['x'], 0, 5, 9⟩, ⟨['b'], 17, 24, 34⟩] }) := by
    rw [hscanner]
    decide +kernel
  have hplain : (scanner.ask (.strings 24)).1 = .ok (.strings (some [['é']]) 34) := by
    rw [hscanner]
    decide +kernel
  refine ⟨scanner, _, _, ?_, ?_, ?_, ?_, rfl, rfl, hmixed, ?_, ?_, hplain, ?_⟩
  · rw [hscanner]
  · rw [hscanner]
  · rw [hscanner]
  · rw [hscanner]
  · rw [(ask_strings_eq scanner 0).2.1, hmixed]
    rfl
  · obtain ⟨values, hvalues, hiff⟩ := (ask_strings_eq scanner 0).2.2 _ (congrArg Prod.fst hmixed)
    cases hvalues
    intro list hlist
    exact absurd ((hiff list).mpr hlist) (by simp)
  · obtain ⟨values, hvalues, hiff⟩ := (ask_strings_eq scanner 24).2.2 _ hplain
    cases hvalues
    exact (hiff _).mp rfl

end Scanner

end ArrayPatch
