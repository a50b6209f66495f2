import ArrayPatch.Proofs.Grammar.Document
import ArrayPatch.Proofs.Text.Part
import ArrayPatch.Scan.Strings

/-!
# Reading arrays of strings

Reading a value for its strings ends where reading the value ends and finds the
same sites.  It yields the strings of the syntax tree that stands there: all of
them, if the tree is an array of string tokens, and otherwise none.
-/

namespace ArrayPatch

open Grammar

namespace Grammar

/-- Add the text of a string token to the texts before it. -/
def Tree.addTo (values : Option (List Text)) (tree : Tree) : Option (List Text) :=
  values.bind fun values => tree.meaning?.map fun value => values ++ [value]

/-- Once an element is no string, none are added. -/
theorem foldl_addTo_none (trees : List Tree) : trees.foldl Tree.addTo none = none := by
  induction trees with
  | nil => rfl
  | cons tree trees ih => exact ih

/-- Adding the elements one by one decodes them all. -/
theorem foldl_addTo_some (trees : List Tree) (values : List Text) :
    trees.foldl Tree.addTo (some values) = (trees.mapM Tree.meaning?).map (values ++ ·) := by
  induction trees generalizing values with
  | nil =>
      rw [List.foldl_nil, List.mapM_nil]
      exact congrArg some (List.append_nil values).symm
  | cons tree trees ih =>
      rw [List.foldl_cons, List.mapM_cons, Tree.addTo]
      cases tree.meaning? with
      | none => exact foldl_addTo_none trees
      | some value =>
          have hrest := ih (values ++ [value])
          simp only [Option.bind_some, Option.map_some, Option.bind_eq_bind, hrest]
          cases trees.mapM Tree.meaning? with
          | none => rfl
          | some texts => simp

end Grammar

namespace Scan

section Nested

variable {element : (cursor : Cursor) → Scan (After cursor)} {opening : Nat}
variable {cursor next : Cursor} {found : List Site} {before after : Option (List Text)}

/-- A string behind strings only is decoded. -/
theorem yields_stringElement_mark_iff {values : List Text} (hmark : cursor.rest.head? = some '"') :
    (stringElement element (some values) cursor).Yields found after next ↔
      found = [] ∧ ∃ value, StringToken.Reads (StringToken.read cursor) value next ∧
        after = some (values ++ [value]) := by
  simp only [stringElement, hmark, yields_bind_iff, yields_ofExcept_iff, yields_pure_iff]
  constructor
  · rintro ⟨_, value, mid, _, ⟨rfl, hreads⟩, ⟨rfl, rfl, rfl⟩, rfl⟩
    exact ⟨rfl, value, hreads, rfl⟩
  · rintro ⟨rfl, value, hreads, rfl⟩
    exact ⟨[], value, next, [], ⟨rfl, hreads⟩, ⟨rfl, rfl, rfl⟩, rfl⟩

theorem yields_stringElement_iff (hother : before = none ∨ cursor.rest.head? ≠ some '"') :
    (stringElement element before cursor).Yields found after next ↔
      (element cursor).Ends found next ∧ after = none := by
  have hmismatch : ∀ values, before = some values → cursor.rest.head? = some '"' → False := by
    rintro values rfl hmark
    rcases hother with hnone | hhead
    · cases hnone
    · exact hhead hmark
  rw [stringElement, yields_bind_ends_iff]
  · simp only [yields_pure_iff]
    constructor
    · rintro ⟨first, mid, _, hends, ⟨rfl, rfl, rfl⟩, rfl⟩
      rw [List.append_nil]
      exact ⟨hends, rfl⟩
    · rintro ⟨hends, rfl⟩
      exact ⟨found, next, [], hends, ⟨rfl, rfl, rfl⟩, (List.append_nil found).symm⟩
  · exact hmismatch

theorem yields_stringElements_iff :
    (stringElements element opening cursor).Yields found after next ↔
      ∃ offset c rest, cursor.skipBlanks = ⟨offset, c :: rest⟩ ∧
        (c = ']' ∧ found = [] ∧ after = some [] ∧ next = ⟨offset + 1, rest⟩ ∨
          c ≠ ']' ∧ ∃ first values mid more,
            (stringElement element (some []) ⟨offset, c :: rest⟩).Yields first values mid ∧
            (moreStrings element opening values mid).Yields more after next ∧
            found = first ++ more) := by
  rw [stringElements]
  split
  · rename_i hskip
    simp [hskip]
  · rename_i offset c rest hskip
    rw [exists_skipBlanks_iff hskip]
    split
    · rename_i hclose
      simp [hclose]
    · rename_i hopen
      rw [yields_bind_iff]
      simp only [hopen, false_and, false_or, ne_eq, not_false_eq_true, true_and,
        yields_bind_pure_iff, exists_prop]

/-- Behind an element an array of strings closes or goes on with a comma and one
more element, which is not the end of the text. -/
theorem yields_moreStrings_iff :
    (moreStrings element opening before cursor).Yields found after next ↔
      ∃ offset c rest, cursor.skipBlanks = ⟨offset, c :: rest⟩ ∧
        (c = ']' ∧ found = [] ∧ after = before ∧ next = ⟨offset + 1, rest⟩ ∨
          c = ',' ∧ (Cursor.skipBlanks ⟨offset + 1, rest⟩).rest ≠ [] ∧
            ∃ first values mid more,
              (stringElement element before (Cursor.skipBlanks ⟨offset + 1, rest⟩)).Yields first
                values mid ∧
              (moreStrings element opening values mid).Yields more after next ∧
              found = first ++ more) := by
  rw [moreStrings]
  split
  · rename_i hskip
    simp [hskip]
  · rename_i offset c rest hskip
    rw [exists_skipBlanks_iff hskip]
    dsimp only
    split
    · rename_i hcomma
      split
      · rename_i hend
        simp [hcomma, hend]
      · rename_i hmore
        rw [yields_bind_iff]
        simp only [hcomma, hmore, Char.reduceEq, false_and, false_or, ne_eq, not_false_eq_true,
          true_and, yields_bind_pure_iff, exists_prop]
    · rename_i hother
      split
      · rename_i hclose
        simp [hclose]
      · rename_i hopen
        simp [hother, hopen]

end Nested

variable {settings : Settings} {depth : Nat} {cursor start next : Cursor}

theorem yields_strings_array {rest : Text} {offset : Nat} {found : List Site}
    {values : Option (List Text)} (hskip : cursor.skipBlanks = ⟨offset, '[' :: rest⟩)
    (hyields : (stringElements (value settings depth) offset ⟨offset + 1, rest⟩).Yields found values
      next) :
    (strings settings (depth + 1) cursor).Yields found values next := by
  rw [strings]
  split
  · rename_i hskip'
    cases hskip.symm.trans hskip'
    exact yields_bind_pure_iff.mpr hyields
  · rename_i hother
    exact absurd hskip (hother offset rest)

theorem yields_strings_other {found : List Site} (hhead : cursor.skipBlanks.rest.head? ≠ some '[')
    (hends : (value settings depth cursor.skipBlanks).Ends found next) :
    (strings settings depth cursor).Yields found none next := by
  rw [strings]
  split
  · rename_i hskip
    rw [hskip] at hhead
    exact absurd rfl hhead
  · rw [yields_bind_ends_iff]
    exact ⟨found, next, [], hends, yields_pure_iff.mpr ⟨rfl, rfl, rfl⟩, (List.append_nil _).symm⟩

/-! ## Reading trees for their strings -/

/-- An element is read as a value is, and its string is added. -/
theorem exists_yields_stringElement (settings : Settings) (values : Option (List Text))
    {tree : Tree} (hpasses : start.Passes tree.text next) (hwell : tree.WellFormed)
    (hdepth : tree.depth ≤ depth) (hprecede : tree.CanPrecede next.rest) :
    ∃ found, (value settings depth start).Ends found next ∧
      (stringElement (value settings depth) values start).Yields found (tree.addTo values)
        next := by
  obtain ⟨found, hends, -⟩ := exists_ends_value settings
    (Cursor.skipBlanks_eq_self_of_tree hpasses hwell) tree hpasses hwell hdepth hprecede
  obtain ⟨c, tail, htext, -⟩ := Tree.exists_text_eq_cons hwell
  have hhead : start.rest.head? = some c := by rw [hpasses.rest_eq, htext]; rfl
  by_cases hmark : c = '"'
  · obtain ⟨pieces, rfl⟩ := Tree.exists_string_of_head hwell (by rw [htext, hmark]; rfl)
    have hskip := Cursor.skipBlanks_eq_self_of_tree hpasses hwell
    have hplain : (value settings depth start).Ends [] next :=
      ends_value_string settings hskip hpasses hwell
    obtain ⟨text, hmeaning⟩ := Option.isSome_iff_exists.mp hwell
    have hreads := StringToken.reads_read_iff_passes.mpr ⟨pieces, hpasses, hmeaning⟩
    rw [hmark] at hhead
    refine ⟨[], hplain, ?_⟩
    cases values with
    | none => exact (yields_stringElement_iff (.inl rfl)).mpr ⟨hplain, rfl⟩
    | some values =>
        apply (yields_stringElement_mark_iff hhead).mpr
        refine ⟨rfl, text, hreads, ?_⟩
        rw [Tree.addTo, Option.bind_some, Tree.meaning?, hmeaning]
        rfl
  · refine ⟨found, hends, ?_⟩
    apply (yields_stringElement_iff _).mpr
    · refine ⟨hends, ?_⟩
      have hnone : tree.meaning? = none := by
        cases tree with
        | string => exact absurd (List.cons.inj htext).1.symm hmark
        | literal | emptyArray | array | emptyObject | object => rfl
      cases values with
      | none => rfl
      | some values => rw [Tree.addTo, Option.bind_some, hnone, Option.map_none]
    · right
      rw [hhead]
      simpa using hmark

/-- The rest of an array is read as a value is, and its strings are added. -/
theorem exists_yields_moreStrings (settings : Settings) (opening : Nat) : (more : Elements) →
    {cursor next : Cursor} → (values : Option (List Text)) → cursor.Passes more.text next →
    more.WellFormed → more.depth ≤ depth →
    ∃ found, (moreElements (value settings depth) opening cursor).Ends found next ∧
      (moreStrings (value settings depth) opening values cursor).Yields found
        (more.toList.foldl Tree.addTo values) next
  | .done blanks, _, _, values, hpasses, hwell, _ => by
      obtain ⟨offset, rest, hskip, rfl⟩ := hpasses.split_close rfl (by decide) hwell
      refine ⟨[], ends_moreElements_iff.mpr ?_, yields_moreStrings_iff.mpr ?_⟩
      · exact ⟨offset, ']', rest, hskip, .inl ⟨rfl, rfl, rfl⟩⟩
      · exact ⟨offset, ']', rest, hskip, .inl ⟨rfl, rfl, rfl, rfl⟩⟩
  | .more before after element rest, _, _, values, hpasses, hwell, hdepth => by
      obtain ⟨hbefore, hafter, helementWell, hrestWell⟩ := hwell
      obtain ⟨helementDepth, hrestDepth⟩ := Nat.max_le.mp hdepth
      obtain ⟨comma, behind, start, mid, hcomma, hblanks, helement, hrest, -⟩ :=
        hpasses.split_comma hbefore
      have hskip := Cursor.skipBlanks_eq_of_tree hafter hblanks helement helementWell
      obtain ⟨c, tail, htext, -⟩ := Tree.exists_text_eq_cons helementWell
      have hprecede : element.CanPrecede mid.rest := by
        rw [hrest.rest_eq]
        exact Tree.canPrecede_of_delimited (Elements.delimited_text_append hrestWell _)
      have hmore : start.rest ≠ [] := by
        rw [helement.rest_eq, htext]
        exact List.cons_ne_nil c _
      obtain ⟨foundElement, hends, hyields⟩ :=
        exists_yields_stringElement settings values helement helementWell helementDepth hprecede
      obtain ⟨foundRest, hendsRest, hyieldsRest⟩ :=
        exists_yields_moreStrings settings opening rest (element.addTo values) hrest hrestWell
          hrestDepth
      refine ⟨foundElement ++ foundRest, ends_moreElements_iff.mpr ?_,
        yields_moreStrings_iff.mpr ?_⟩
      · refine ⟨comma, ',', behind, hcomma, .inr ⟨rfl, ?_⟩⟩
        rw [hskip]
        exact ⟨hmore, foundElement, mid, foundRest, hends, hendsRest, rfl⟩
      · refine ⟨comma, ',', behind, hcomma, .inr ⟨rfl, ?_⟩⟩
        rw [hskip]
        exact ⟨hmore, foundElement, _, mid, foundRest, hyields, hyieldsRest, rfl⟩

theorem exists_yields_strings_other {tree : Tree} (hskip : cursor.skipBlanks = start)
    (hpasses : start.Passes tree.text next) (hwell : tree.WellFormed) (hdepth : tree.depth ≤ depth)
    (hprecede : tree.CanPrecede next.rest) (harray : tree.isArray = false) :
    ∃ found, (value settings depth cursor).Ends found next ∧
      (strings settings depth cursor).Yields found none next := by
  have hself := Cursor.skipBlanks_eq_self_of_tree hpasses hwell
  obtain ⟨found, hends, -⟩ := exists_ends_value settings hself tree hpasses hwell hdepth hprecede
  refine ⟨found, ?_, ?_⟩
  · rw [ends_value_iff] at hends ⊢
    rwa [hskip, ← hself]
  · rw [← hskip] at hends
    apply yields_strings_other _ hends
    intro hhead
    obtain ⟨c, tail, htext, -⟩ := Tree.exists_text_eq_cons hwell
    rw [hskip, hpasses.rest_eq, htext] at hhead
    have hbracket := (Tree.isArray_iff_head hwell).mpr (by rw [htext]; exact hhead)
    rw [harray] at hbracket
    cases hbracket

/-- A value is read for its strings as it is read otherwise, and yields the
strings of its tree. -/
theorem exists_yields_strings (settings : Settings) {tree : Tree}
    (hskip : cursor.skipBlanks = start) (hpasses : start.Passes tree.text next)
    (hwell : tree.WellFormed) (hdepth : tree.depth ≤ depth) (hprecede : tree.CanPrecede next.rest) :
    ∃ found, (value settings depth cursor).Ends found next ∧
      (strings settings depth cursor).Yields found tree.strings? next := by
  cases tree with
  | emptyArray inner =>
      obtain ⟨below, rfl⟩ := Nat.exists_eq_add_of_le' hdepth
      obtain ⟨rest, hstart, hclose⟩ := (Cursor.passes_cons_iff rfl).mp hpasses
      obtain ⟨close, after, hbehind, rfl⟩ := hclose.split_close rfl (by decide) hwell
      rcases start with ⟨offset, _⟩
      obtain rfl := hstart
      refine ⟨[], ends_value_array hskip (ends_elements_iff.mpr ?_),
        yields_strings_array hskip (yields_stringElements_iff.mpr ?_)⟩
      · exact ⟨close, ']', after, hbehind, .inl ⟨rfl, rfl, rfl⟩⟩
      · exact ⟨close, ']', after, hbehind, .inl ⟨rfl, rfl, rfl, rfl⟩⟩
  | array inner first more =>
      obtain ⟨hinner, hfirstWell, hmoreWell⟩ := hwell
      obtain ⟨below, rfl⟩ := Nat.exists_eq_add_of_le' (Nat.le_of_add_left_le hdepth)
      obtain ⟨hfirstDepth, hmoreDepth⟩ := Nat.max_le.mp (Nat.le_of_add_le_add_right hdepth)
      obtain ⟨rest, here, mid, hstart, hblanks, hfirstText, hmoreText⟩ := hpasses.split_open rfl
      have hhere := Cursor.skipBlanks_eq_of_tree hinner hblanks hfirstText hfirstWell
      have hprecede : first.CanPrecede mid.rest := by
        rw [hmoreText.rest_eq]
        exact Tree.canPrecede_of_delimited (Elements.delimited_text_append hmoreWell _)
      obtain ⟨foundFirst, hfirst, hyieldsFirst⟩ := exists_yields_stringElement settings
        (some []) hfirstText hfirstWell hfirstDepth hprecede
      obtain ⟨foundMore, hmore, hyieldsMore⟩ := exists_yields_moreStrings settings
        start.offset more (first.addTo (some [])) hmoreText hmoreWell hmoreDepth
      have hvalues : more.toList.foldl Tree.addTo (first.addTo (some [])) =
          (Tree.array inner first more).strings? := by
        rw [← List.foldl_cons, foldl_addTo_some, Tree.strings?]
        exact Option.map_id'
      rw [hvalues] at hyieldsMore
      obtain ⟨c, tail, htext, hc⟩ := Tree.exists_text_eq_cons hfirstWell
      rw [hstart] at hskip
      rcases here with ⟨hereOffset, _⟩
      obtain rfl := hfirstText.rest_eq.trans (congrArg (· ++ mid.rest) htext)
      have hopen : c ≠ ']' := by
        rintro rfl
        exact hc (.inr (.inr (.inl rfl)))
      refine ⟨foundFirst ++ foundMore, ends_value_array hskip (ends_elements_iff.mpr ?_),
        yields_strings_array hskip (yields_stringElements_iff.mpr ?_)⟩
      · exact ⟨hereOffset, c, _, hhere,
          .inr ⟨hopen, foundFirst, mid, foundMore, hfirst, hmore, rfl⟩⟩
      · exact ⟨hereOffset, c, _, hhere,
          .inr ⟨hopen, foundFirst, _, mid, foundMore, hyieldsFirst, hyieldsMore, rfl⟩⟩
  | literal | string | emptyObject | object =>
      exact exists_yields_strings_other hskip hpasses hwell hdepth hprecede rfl

/-- Reading a value for its strings finds what is reported for its objects. -/
theorem yields_strings_of_tree (settings : Settings) {tree : Tree}
    (hskip : cursor.skipBlanks = start) (hpasses : start.Passes tree.text next)
    (hwell : tree.WellFormed) (hdepth : tree.depth ≤ depth) (hprecede : tree.CanPrecede next.rest) :
    (strings settings depth cursor).Yields
      ((tree.objects start.offset).filterMap (Placed.reported? settings)) tree.strings? next := by
  obtain ⟨found, ⟨_, hfound⟩, hyields⟩ :=
    exists_yields_strings settings hskip hpasses hwell hdepth hprecede
  obtain ⟨_, hends⟩ := ends_value_of_tree settings hskip tree hpasses hwell hdepth hprecede
  cases hfound.symm.trans hends
  exact hyields

/-- A tree anywhere in a text is read for its strings. -/
theorem stringsAt_of_tree {before after : Text} {tree : Tree} (hwell : tree.WellFormed)
    (hdepth : tree.depth ≤ settings.maxDepth) (hprecede : tree.CanPrecede after) :
    stringsAt settings (before ++ tree.text ++ after) before.size =
      ⟨(tree.objects before.size).filterMap (Placed.reported? settings),
        .ok (tree.strings?, before.size + tree.text.size)⟩ := by
  have hpasses : (Cursor.mk before.size (tree.text ++ after)).Passes tree.text
      ⟨before.size + tree.text.size, after⟩ := ⟨rfl, rfl⟩
  obtain ⟨_, hstrings⟩ := yields_strings_of_tree settings
    (Cursor.skipBlanks_eq_self_of_tree hpasses hwell) hpasses hwell hdepth hprecede
  rw [stringsAt, List.append_assoc, Text.tailAt_size_append]
  dsimp only
  rw [if_pos rfl, hstrings]
  exact ext_iff.mpr ⟨List.append_nil _, rfl⟩

end Scan

/-- The array at a site is read for the strings of its tree. -/
theorem Site.readValues_eq_ok {settings : Settings} {text : Text} {site : Site} {tree : Tree}
    (hat : text.HasAt 0 tree.text site.valueStart) (harray : tree.isArray)
    (hwell : tree.WellFormed) (hdepth : tree.depth ≤ settings.maxDepth) :
    site.readValues settings text = .ok tree.strings? := by
  obtain ⟨before, after, rfl, hbefore⟩ := hat
  rw [Nat.zero_add] at hbefore
  rw [Site.readValues, Site.scanValues, ← hbefore,
    Scan.stringsAt_of_tree hwell hdepth (Tree.canPrecede_of_isArray harray after)]
  rfl

end ArrayPatch
