import ArrayPatch.Proofs.Grammar.Completeness
import ArrayPatch.Proofs.Grammar.Json
import ArrayPatch.Proofs.Json.Steps
import Mathlib.Data.List.TakeWhile

/-!
# JSON texts are trees

A text is read as JSON with a text for every string exactly if it is the text of
a well-formed syntax tree with that JSON value, between blanks.  Hence the scanner
cuts a JSON text where JSON itself does.

What is read yields a tree by induction on the value; a tree is read by induction
on the tree.
-/

namespace ArrayPatch.Json

open Grammar

variable {text rest : Text}

theorem exists_dropBlanks (text : Text) :
    ∃ blanks, AllBlank blanks ∧ text = blanks ++ dropBlanks text := by
  refine ⟨text.takeWhile isBlank, ?_, List.takeWhile_append_dropWhile.symm⟩
  intro c hc
  exact List.all_eq_true.mp List.all_takeWhile c hc

theorem dropBlanks_append {blanks : Text} {c : Char} (hblanks : AllBlank blanks)
    (hc : ¬ isBlank c) : dropBlanks (blanks ++ c :: rest) = c :: rest := by
  apply Text.dropWhile_run_append hblanks
  intro d hd
  obtain rfl : c = d := by simpa using hd
  exact hc

theorem dropBlanks_eq_nil_iff : dropBlanks text = [] ↔ AllBlank text :=
  List.dropWhile_eq_nil_iff

theorem dropBlanks_tree {blanks : Text} {tree : Tree} (hblanks : AllBlank blanks)
    (hwell : tree.WellFormed) (rest : Text) :
    dropBlanks (blanks ++ (tree.text ++ rest)) = tree.text ++ rest := by
  obtain ⟨c, tail, htext, hc⟩ := Tree.exists_text_eq_cons hwell
  rw [htext]
  exact dropBlanks_append hblanks fun hblank => hc (.inl hblank)

theorem dropBlanks_member {blanks : Text} (hblanks : AllBlank blanks) (item : Member)
    (rest : Text) : dropBlanks (blanks ++ (item.text ++ rest)) = item.text ++ rest := by
  obtain ⟨tail, htext⟩ := item.exists_text_eq_cons
  rw [htext]
  exact dropBlanks_append hblanks (by decide)

/-! ## What is read is a tree -/

/-- A text goes on with a tree that has a JSON value. -/
def SpellsValue (text : Text) (result : Value) (rest : Text) : Prop :=
  ∃ tree : Tree, text = tree.text ++ rest ∧ tree.WellFormed ∧ tree.json? = some result

/-- A text goes on with a member that has a JSON value. -/
def SpellsMember (text : Text) (result : Option Text × Value) (rest : Text) : Prop :=
  ∃ item : Member, text = item.text ++ rest ∧ item.WellFormed ∧ item.json? = some result

/-- A text goes on with one or more elements and the closing bracket. -/
def SpellsElements (text : Text) (result : List Value) (rest : Text) : Prop :=
  ∃ blanks first more, text = blanks ++ (first.text ++ (more.text ++ rest)) ∧
    (Tree.array blanks first more).WellFormed ∧
    (Tree.array blanks first more).json? = some (.array result)

/-- A text goes on with one or more members and the closing brace. -/
def SpellsMembers (text : Text) (result : List (Option Text × Value)) (rest : Text) : Prop :=
  ∃ blanks first more, text = blanks ++ (first.text ++ (more.text ++ rest)) ∧
    (Tree.object blanks first more).WellFormed ∧
    (Tree.object blanks first more).json? = some (.object result)

/-- What is read as a word or a number is a literal. -/
theorem spellsValue_of_scalar {result : Value} (hscalar : result.isScalar)
    (hreads : Reads (value text) result rest) : SpellsValue text result rest := by
  obtain ⟨run, rfl, hword⟩ := exists_word_of_reads ((reads_value_scalar_iff hscalar).mp hreads)
  exact ⟨.literal run, rfl, isLiteral_of_word hword, hword⟩

/-- A key, a colon and a value are a member. -/
theorem SpellsValue.member {key behind valueText : Text} {result : Value}
    (hkey : Reads (string text) (some key) behind) (hcolon : dropBlanks behind = ':' :: valueText)
    (hvalue : SpellsValue (dropBlanks valueText) result rest) :
    SpellsMember text (some key, result) rest := by
  obtain ⟨tokens, rfl, htokens⟩ := reads_string_iff.mp hkey
  obtain ⟨beforeColon, hbefore, hbehind⟩ := exists_dropBlanks behind
  obtain ⟨afterColon, hafter, hvalueText⟩ := exists_dropBlanks valueText
  obtain ⟨tree, htree, hwell, hjson⟩ := hvalue
  refine ⟨.mk tokens beforeColon afterColon tree, ?_, ⟨?_, hbefore, hafter, hwell⟩, ?_⟩
  · rw [hbehind, hcolon, hvalueText, htree, Member.text]
    simp only [List.append_assoc, List.cons_append]
  · exact StringPiece.isSome_meaning?_of_jsonText? htokens
  · exact Member.json?_eq_some_iff.mpr ⟨key, result, htokens, hjson, rfl⟩

theorem SpellsValue.lastElement {first : Value} {behind : Text}
    (hfirst : SpellsValue (dropBlanks text) first behind)
    (hclose : dropBlanks behind = ']' :: rest) : SpellsElements text [first] rest := by
  obtain ⟨blanks, hblanks, htext⟩ := exists_dropBlanks text
  obtain ⟨beforeClose, hbefore, hbehind⟩ := exists_dropBlanks behind
  obtain ⟨tree, htree, hwell, hjson⟩ := hfirst
  refine ⟨blanks, tree, .done beforeClose, ?_, ⟨hblanks, hwell, hbefore⟩, ?_⟩
  · rw [htext, htree, hbehind, hclose, Elements.text, List.append_assoc]
    rfl
  · exact Tree.json?_array_eq_some_iff.mpr ⟨first, [], hjson, rfl, rfl⟩

/-- An element, a comma and elements are elements. -/
theorem SpellsValue.consElements {first : Value} {more : List Value} {behind body : Text}
    (hfirst : SpellsValue (dropBlanks text) first behind)
    (hcomma : dropBlanks behind = ',' :: body) (hmore : SpellsElements body more rest) :
    SpellsElements text (first :: more) rest := by
  obtain ⟨blanks, hblanks, htext⟩ := exists_dropBlanks text
  obtain ⟨beforeComma, hbefore, hbehind⟩ := exists_dropBlanks behind
  obtain ⟨tree, htree, hwell, hjson⟩ := hfirst
  obtain ⟨afterComma, element, others, rfl, ⟨hafter, helement, hothers⟩, hmore⟩ := hmore
  obtain ⟨value, values, hvalue, hvalues, heq⟩ := Tree.json?_array_eq_some_iff.mp hmore
  cases heq
  refine ⟨blanks, tree, .more beforeComma afterComma element others, ?_,
    ⟨hblanks, hwell, hbefore, hafter, helement, hothers⟩, ?_⟩
  · rw [htext, htree, hbehind, hcomma, Elements.text]
    simp only [List.append_assoc, List.cons_append]
  · exact Tree.json?_array_eq_some_iff.mpr ⟨first, _, hjson,
      Elements.json?_more_eq_some_iff.mpr ⟨value, values, hvalue, hvalues, rfl⟩, rfl⟩

theorem SpellsMember.lastMember {first : Option Text × Value} {behind : Text}
    (hfirst : SpellsMember (dropBlanks text) first behind)
    (hclose : dropBlanks behind = '\x7d' :: rest) : SpellsMembers text [first] rest := by
  obtain ⟨blanks, hblanks, htext⟩ := exists_dropBlanks text
  obtain ⟨beforeClose, hbefore, hbehind⟩ := exists_dropBlanks behind
  obtain ⟨item, hitem, hwell, hjson⟩ := hfirst
  refine ⟨blanks, item, .done beforeClose, ?_, ⟨hblanks, hwell, hbefore⟩, ?_⟩
  · rw [htext, hitem, hbehind, hclose, Members.text, List.append_assoc]
    rfl
  · exact Tree.json?_object_eq_some_iff.mpr ⟨first, [], hjson, rfl, rfl⟩

/-- A member, a comma and members are members. -/
theorem SpellsMember.consMembers {first : Option Text × Value}
    {more : List (Option Text × Value)} {behind body : Text}
    (hfirst : SpellsMember (dropBlanks text) first behind)
    (hcomma : dropBlanks behind = ',' :: body) (hmore : SpellsMembers body more rest) :
    SpellsMembers text (first :: more) rest := by
  obtain ⟨blanks, hblanks, htext⟩ := exists_dropBlanks text
  obtain ⟨beforeComma, hbefore, hbehind⟩ := exists_dropBlanks behind
  obtain ⟨item, hitem, hwell, hjson⟩ := hfirst
  obtain ⟨afterComma, next, others, rfl, ⟨hafter, hnext, hothers⟩, hmore⟩ := hmore
  obtain ⟨value, values, hvalue, hvalues, heq⟩ := Tree.json?_object_eq_some_iff.mp hmore
  cases heq
  refine ⟨blanks, item, .more beforeComma afterComma next others, ?_,
    ⟨hblanks, hwell, hbefore, hafter, hnext, hothers⟩, ?_⟩
  · rw [htext, hitem, hbehind, hcomma, Members.text]
    simp only [List.append_assoc, List.cons_append]
  · exact Tree.json?_object_eq_some_iff.mpr ⟨first, _, hjson,
      Members.json?_more_eq_some_iff.mpr ⟨value, values, hvalue, hvalues, rfl⟩, rfl⟩

mutual

/-- What is read as a value with a text for every string is a tree. -/
theorem spellsValue_of_reads : (result : Value) → {text rest : Text} →
    Reads (value text) result rest → result.isWhole → SpellsValue text result rest
  | .null, _, _, hreads, _ | .bool _, _, _, hreads, _ | .number _, _, _, hreads, _ =>
      spellsValue_of_scalar rfl hreads
  | .string none, _, _, _, hwhole => by
      cases hwhole
  | .string (some value), _, _, hreads, _ => by
      obtain ⟨tokens, rfl, htokens⟩ := reads_string_iff.mp (reads_value_string_iff.mp hreads)
      refine ⟨.string tokens, rfl, StringPiece.isSome_meaning?_of_jsonText? htokens, ?_⟩
      exact Tree.json?_string_eq_some_iff.mpr ⟨value, htokens, rfl⟩
  | .array found, _, _, hreads, hwhole => by
      obtain ⟨body, rfl, ⟨hclose, rfl⟩ | ⟨-, hfound⟩⟩ := reads_value_array_iff.mp hreads
      · obtain ⟨blanks, hblanks, htext⟩ := exists_dropBlanks body
        refine ⟨.emptyArray blanks, ?_, hblanks, rfl⟩
        rw [htext, hclose, Tree.text, List.cons_append, List.cons_append, List.append_assoc]
        rfl
      · obtain ⟨blanks, first, more, rfl, hwell, hjson⟩ :=
          spellsElements_of_reads found hfound hwhole
        refine ⟨.array blanks first more, ?_, hwell, hjson⟩
        simp only [Tree.text, List.append_assoc, List.cons_append]
  | .object found, _, _, hreads, hwhole => by
      obtain ⟨body, rfl, ⟨hclose, rfl⟩ | ⟨-, hfound⟩⟩ := reads_value_object_iff.mp hreads
      · obtain ⟨blanks, hblanks, htext⟩ := exists_dropBlanks body
        refine ⟨.emptyObject blanks, ?_, hblanks, rfl⟩
        rw [htext, hclose, Tree.text, List.cons_append, List.cons_append, List.append_assoc]
        rfl
      · obtain ⟨blanks, first, more, rfl, hwell, hjson⟩ :=
          spellsMembers_of_reads found hfound hwhole
        refine ⟨.object blanks first more, ?_, hwell, hjson⟩
        simp only [Tree.text, List.append_assoc, List.cons_append]

theorem spellsElements_of_reads : (found : List Value) → {text rest : Text} →
    Reads (elements text) found rest → Value.elementsAreWhole found →
    SpellsElements text found rest
  | [], _, _, hreads, _ => by
      obtain ⟨_, _, -, ⟨-, heq⟩ | ⟨_, _, -, -, heq⟩⟩ := reads_elements_iff.mp hreads
      all_goals cases heq
  | first :: more, _, rest, hreads, hwhole => by
      obtain ⟨hfirstWhole, hmoreWhole⟩ := Bool.and_eq_true_iff.mp hwhole
      obtain ⟨_, behind, hfirst, ⟨hclose, heq⟩ | ⟨body, _, hcomma, hmore, heq⟩⟩ :=
        reads_elements_iff.mp hreads
      · cases heq
        exact (spellsValue_of_reads first hfirst hfirstWhole).lastElement hclose
      · cases heq
        exact (spellsValue_of_reads first hfirst hfirstWhole).consElements hcomma
          (spellsElements_of_reads more hmore hmoreWhole)

theorem spellsMembers_of_reads : (found : List (Option Text × Value)) → {text rest : Text} →
    Reads (members text) found rest → Value.membersAreWhole found →
    SpellsMembers text found rest
  | [], _, _, hreads, _ => by
      obtain ⟨_, _, -, ⟨-, heq⟩ | ⟨_, _, -, -, heq⟩⟩ := reads_members_iff.mp hreads
      all_goals cases heq
  | (none, _) :: _, _, _, _, hwhole => by
      cases hwhole
  | (some key, first) :: more, _, rest, hreads, hwhole => by
      obtain ⟨hfirstWhole, hmoreWhole⟩ := Bool.and_eq_true_iff.mp hwhole
      obtain ⟨_, behind, hfirst, ⟨hclose, heq⟩ | ⟨body, _, hcomma, hmore, heq⟩⟩ :=
        reads_members_iff.mp hreads
      · cases heq
        obtain ⟨behindKey, valueText, hkey, hcolon, hvalue⟩ := hfirst
        have hspells := spellsValue_of_reads first hvalue hfirstWhole
        exact (hspells.member hkey hcolon).lastMember hclose
      · cases heq
        obtain ⟨behindKey, valueText, hkey, hcolon, hvalue⟩ := hfirst
        have hspells := spellsValue_of_reads first hvalue hfirstWhole
        exact (hspells.member hkey hcolon).consMembers hcomma
          (spellsMembers_of_reads more hmore hmoreWhole)

end

/-! ## A tree is read -/

theorem dropBlanks_delimiter {before behind : Text} {c : Char} (hbefore : AllBlank before)
    (hc : c = ',' ∨ c = ']' ∨ c = '\x7d') :
    dropBlanks (before ++ c :: behind) = c :: behind := by
  apply dropBlanks_append hbefore
  rcases hc with rfl | rfl | rfl
  all_goals decide

mutual

/-- A tree with a JSON value is read as that value. -/
theorem reads_tree : (tree : Tree) → {result : Value} → {rest : Text} → tree.WellFormed →
    tree.json? = some result → Delimited rest → Reads (value (tree.text ++ rest)) result rest
  | .literal run, _, _, _, hjson, hrest => by
      have hscalar := reads_scalar_of_word hjson hrest
      exact (reads_value_scalar_iff (isScalar_of_reads hscalar)).mpr hscalar
  | .string pieces, _, _, _, hjson, _ => by
      obtain ⟨text, htext, rfl⟩ := Tree.json?_string_eq_some_iff.mp hjson
      exact reads_value_string_iff.mpr (reads_string_iff.mpr ⟨pieces, rfl, htext⟩)
  | .emptyArray blanks, _, rest, hwell, hjson, _ => by
      cases hjson
      rw [Tree.text, List.cons_append, List.cons_append, List.append_assoc]
      exact reads_value_array_iff.mpr
        ⟨_, rfl, .inl ⟨dropBlanks_delimiter hwell (.inr (.inl rfl)), rfl⟩⟩
  | .array blanks first more, _, rest, ⟨hblanks, hfirst, hmore⟩, hjson, _ => by
      obtain ⟨element, elements, helement, helements, rfl⟩ :=
        Tree.json?_array_eq_some_iff.mp hjson
      rw [Tree.text, List.append_assoc, List.cons_append, List.cons_append, List.append_assoc]
      have hdrop := dropBlanks_tree hblanks hfirst (more.text ++ rest)
      refine reads_value_array_iff.mpr ⟨_, rfl, .inr ⟨?_, ?_⟩⟩
      · -- No value starts with the closing bracket.
        obtain ⟨c, tail, htext, hc⟩ := Tree.exists_text_eq_cons hfirst
        rw [hdrop, htext]
        rintro behind hclose
        cases hclose
        exact hc (.inr (.inr (.inl rfl)))
      · apply reads_elements more hmore helements
        rw [hdrop]
        exact reads_tree first hfirst helement (Elements.delimited_text_append hmore rest)
  | .emptyObject blanks, _, rest, hwell, hjson, _ => by
      cases hjson
      rw [Tree.text, List.cons_append, List.cons_append, List.append_assoc]
      exact reads_value_object_iff.mpr
        ⟨_, rfl, .inl ⟨dropBlanks_delimiter hwell (.inr (.inr rfl)), rfl⟩⟩
  | .object blanks first more, _, rest, ⟨hblanks, hfirst, hmore⟩, hjson, _ => by
      obtain ⟨member, members, hmember, hmembers, rfl⟩ :=
        Tree.json?_object_eq_some_iff.mp hjson
      rw [Tree.text, List.append_assoc, List.cons_append, List.cons_append, List.append_assoc]
      have hdrop := dropBlanks_member hblanks first (more.text ++ rest)
      refine reads_value_object_iff.mpr ⟨_, rfl, .inr ⟨?_, ?_⟩⟩
      · -- No key starts with the closing brace.
        obtain ⟨tail, htext⟩ := first.exists_text_eq_cons
        rw [hdrop, htext]
        rintro behind hclose
        cases hclose
      · apply reads_members more hmore hmembers
        rw [hdrop]
        exact reads_member first hfirst hmember (Members.delimited_text_append hmore rest)

theorem reads_member : (item : Member) → {result : Option Text × Value} → {rest : Text} →
    item.WellFormed → item.json? = some result → Delimited rest →
    ReadsMember (item.text ++ rest) result rest
  | .mk key before after inner, _, rest, ⟨_, hbefore, hafter, hinner⟩, hjson, hrest => by
      obtain ⟨text, value, htext, hvalue, rfl⟩ := Member.json?_eq_some_iff.mp hjson
      refine ⟨before ++ ':' :: (after ++ (inner.text ++ rest)), after ++ (inner.text ++ rest),
        ?_, ?_, ?_⟩
      · refine reads_string_iff.mpr ⟨key, ?_, htext⟩
        simp only [Member.text, List.append_assoc, List.cons_append]
      · exact dropBlanks_append hbefore (by decide)
      · rw [dropBlanks_tree hafter hinner]
        exact reads_tree inner hinner hvalue hrest

/-- Elements are read behind a first one. -/
theorem reads_elements : (more : Elements) → {values : List Value} → {first : Value} →
    {text rest : Text} → more.WellFormed → more.json? = some values →
    Reads (value (dropBlanks text)) first (more.text ++ rest) →
    Reads (elements text) (first :: values) rest
  | .done blanks, _, _, _, _, hwell, hjson, hfirst => by
      cases hjson
      refine reads_elements_iff.mpr ⟨_, _, hfirst, .inl ⟨?_, rfl⟩⟩
      rw [Elements.text, List.append_assoc]
      exact dropBlanks_delimiter hwell (.inr (.inl rfl))
  | .more before after element others, _, _, _, rest, ⟨hbefore, hafter, helement, hothers⟩,
      hjson, hfirst => by
      obtain ⟨value, values, hvalue, hvalues, rfl⟩ := Elements.json?_more_eq_some_iff.mp hjson
      refine reads_elements_iff.mpr ⟨_, _, hfirst, .inr
        ⟨after ++ (element.text ++ (others.text ++ rest)), value :: values, ?_, ?_, rfl⟩⟩
      · simp only [Elements.text, List.append_assoc, List.cons_append]
        exact dropBlanks_delimiter hbefore (.inl rfl)
      · apply reads_elements others hothers hvalues
        rw [dropBlanks_tree hafter helement]
        exact reads_tree element helement hvalue (Elements.delimited_text_append hothers rest)

theorem reads_members : (more : Members) → {values : List (Option Text × Value)} →
    {first : Option Text × Value} → {text rest : Text} → more.WellFormed →
    more.json? = some values → ReadsMember (dropBlanks text) first (more.text ++ rest) →
    Reads (members text) (first :: values) rest
  | .done blanks, _, _, _, _, hwell, hjson, hfirst => by
      cases hjson
      refine reads_members_iff.mpr ⟨_, _, hfirst, .inl ⟨?_, rfl⟩⟩
      rw [Members.text, List.append_assoc]
      exact dropBlanks_delimiter hwell (.inr (.inr rfl))
  | .more before after item others, _, _, _, rest, ⟨hbefore, hafter, hitem, hothers⟩,
      hjson, hfirst => by
      obtain ⟨value, values, hvalue, hvalues, rfl⟩ := Members.json?_more_eq_some_iff.mp hjson
      refine reads_members_iff.mpr ⟨_, _, hfirst, .inr
        ⟨after ++ (item.text ++ (others.text ++ rest)), value :: values, ?_, ?_, rfl⟩⟩
      · simp only [Members.text, List.append_assoc, List.cons_append]
        exact dropBlanks_delimiter hbefore (.inl rfl)
      · apply reads_members others hothers hvalues
        rw [dropBlanks_member hafter]
        exact reads_member item hitem hvalue (Members.delimited_text_append hothers rest)

end

/-- A whole text is read as a value between blanks. -/
theorem read_eq_some_iff {result : Value} :
    read text = some result ↔
      ∃ rest, Reads (value (dropBlanks text)) result rest ∧ AllBlank rest := by
  simp only [read, ← dropBlanks_eq_nil_iff]
  constructor
  · intro hread
    obtain ⟨⟨first, rest, hrest⟩, hvalue, hblank⟩ := Option.bind_eq_some_iff.mp hread
    obtain ⟨hnil, heq⟩ := Option.ite_none_right_eq_some.mp hblank
    cases heq
    exact ⟨rest, ⟨hrest, hvalue⟩, hnil⟩
  · rintro ⟨rest, ⟨hrest, hvalue⟩, hblank⟩
    rw [hvalue]
    exact if_pos hblank

/-- A text is JSON with a text for every string exactly if it is a well-formed
tree with a JSON value between blanks. -/
theorem readWhole_eq_some_iff {result : Value} :
    readWhole text = some result ↔
      ∃ (blanks : Text) (tree : Tree) (after : Text), text = blanks ++ tree.text ++ after ∧
        AllBlank blanks ∧ AllBlank after ∧ tree.WellFormed ∧ tree.json? = some result := by
  rw [readWhole, Option.filter_eq_some_iff, read_eq_some_iff]
  constructor
  · rintro ⟨⟨after, hreads, hafter⟩, hwhole⟩
    obtain ⟨blanks, hblanks, htext⟩ := exists_dropBlanks text
    obtain ⟨tree, htree, hwell, hjson⟩ := spellsValue_of_reads result hreads hwhole
    refine ⟨blanks, tree, after, ?_, hblanks, hafter, hwell, hjson⟩
    rw [List.append_assoc, ← htree]
    exact htext
  · rintro ⟨blanks, tree, after, rfl, hblanks, hafter, hwell, hjson⟩
    refine ⟨⟨after, ?_, hafter⟩, (tree.whole_and_depth_of_json? hjson).1⟩
    rw [List.append_assoc, dropBlanks_tree hblanks hwell]
    exact reads_tree tree hwell hjson hafter.delimited

/-- The text of a tree with a JSON value is read as that value. -/
theorem readWhole_text {tree : Tree} {result : Value} (hwell : tree.WellFormed)
    (hjson : tree.json? = some result) : readWhole tree.text = some result :=
  readWhole_eq_some_iff.mpr ⟨[], tree, [], (List.append_nil _).symm, allBlank_nil, allBlank_nil,
    hwell, hjson⟩

end ArrayPatch.Json
