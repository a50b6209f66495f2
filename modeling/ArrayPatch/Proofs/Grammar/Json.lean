import ArrayPatch.Grammar.Json
import Mathlib.Tactic.Common

/-!
# JSON values of trees, part by part

Where a tree starts matters to its JSON value only as far as arrays are
exchanged.  Without exchange the value of a tree is put together from those of
its parts; it is as deep as the tree and all strings in it stand for texts.
-/

namespace ArrayPatch.Grammar

/-- The JSON member of a member. -/
def Member.json? (item : Member) : Option (Option Text × Json.Value) :=
  item.jsonWith? (fun _ => none) 0

/-- The JSON values of the elements after the first one. -/
def Elements.json? (more : Elements) : Option (List Json.Value) :=
  more.jsonWith? (fun _ => none) 0

/-- The JSON members after the first one. -/
def Members.json? (more : Members) : Option (List (Option Text × Json.Value)) :=
  more.jsonWith? (fun _ => none) 0

mutual

/-- With nothing exchanged it does not matter where a tree starts. -/
theorem Tree.jsonWith?_none_eq (offset start : Nat) : (tree : Tree) →
    tree.jsonWith? (fun _ => none) offset = tree.jsonWith? (fun _ => none) start
  | .literal _ | .string _ | .emptyArray _ | .emptyObject _ => rfl
  | .array blanks first more => by
      rw [Tree.jsonWith?, Tree.jsonWith?]
      dsimp only
      rw [Tree.jsonWith?_none_eq _ (start + 1 + blanks.size) first,
        Elements.jsonWith?_none_eq _ (start + 1 + blanks.size + first.text.size) more]
  | .object blanks first more => by
      rw [Tree.jsonWith?, Tree.jsonWith?,
        Member.jsonWith?_none_eq _ (start + 1 + blanks.size) first,
        Members.jsonWith?_none_eq _ (start + 1 + blanks.size + first.text.size) more]

theorem Member.jsonWith?_none_eq (offset start : Nat) : (item : Member) →
    item.jsonWith? (fun _ => none) offset = item.jsonWith? (fun _ => none) start
  | .mk key before after value => by
      rw [Member.jsonWith?, Member.jsonWith?, Tree.jsonWith?_none_eq _
        (start + (StringPiece.tokenText key).size + before.size + 1 + after.size) value]

theorem Elements.jsonWith?_none_eq (offset start : Nat) : (more : Elements) →
    more.jsonWith? (fun _ => none) offset = more.jsonWith? (fun _ => none) start
  | .done _ => rfl
  | .more before after element rest => by
      rw [Elements.jsonWith?, Elements.jsonWith?,
        Tree.jsonWith?_none_eq _ (start + before.size + 1 + after.size) element,
        Elements.jsonWith?_none_eq _
          (start + before.size + 1 + after.size + element.text.size) rest]

theorem Members.jsonWith?_none_eq (offset start : Nat) : (more : Members) →
    more.jsonWith? (fun _ => none) offset = more.jsonWith? (fun _ => none) start
  | .done _ => rfl
  | .more before after item rest => by
      rw [Members.jsonWith?, Members.jsonWith?,
        Member.jsonWith?_none_eq _ (start + before.size + 1 + after.size) item,
        Members.jsonWith?_none_eq _ (start + before.size + 1 + after.size + item.text.size) rest]

end

theorem Tree.json?_array (blanks : Text) (first : Tree) (more : Elements) :
    (Tree.array blanks first more).json? = do
      let value ← first.json?
      let values ← more.json?
      return .array (value :: values) := by
  rw [Tree.json?, Tree.jsonWith?]
  dsimp only
  rw [Tree.jsonWith?_none_eq _ 0 first, Elements.jsonWith?_none_eq _ 0 more]
  rfl

theorem Tree.json?_object (blanks : Text) (first : Member) (more : Members) :
    (Tree.object blanks first more).json? = do
      let value ← first.json?
      let values ← more.json?
      return .object (value :: values) := by
  rw [Tree.json?, Tree.jsonWith?,
    Member.jsonWith?_none_eq _ 0 first, Members.jsonWith?_none_eq _ 0 more]
  rfl

theorem Member.json?_mk (key : List StringPiece) (before after : Text) (value : Tree) :
    (Member.mk key before after value).json? = do
      let text ← StringPiece.jsonText? key
      let value ← value.json?
      return (some text, value) := by
  rw [Member.json?, Member.jsonWith?, Tree.jsonWith?_none_eq _ 0 value]
  rfl

theorem Elements.json?_more (before after : Text) (element : Tree) (rest : Elements) :
    (Elements.more before after element rest).json? = do
      let value ← element.json?
      let values ← rest.json?
      return value :: values := by
  rw [Elements.json?, Elements.jsonWith?,
    Tree.jsonWith?_none_eq _ 0 element, Elements.jsonWith?_none_eq _ 0 rest]
  rfl

theorem Members.json?_more (before after : Text) (item : Member) (rest : Members) :
    (Members.more before after item rest).json? = do
      let value ← item.json?
      let values ← rest.json?
      return value :: values := by
  rw [Members.json?, Members.jsonWith?,
    Member.jsonWith?_none_eq _ 0 item, Members.jsonWith?_none_eq _ 0 rest]
  rfl

/-- Two parts have values exactly if what is put together from them has one. -/
theorem bind_bind_eq_some_iff {α β γ : Type} {first? : Option α} {second? : Option β}
    {f : α → β → γ} {c : γ} :
    (do let a ← first?; let b ← second?; return f a b) = some c ↔
      ∃ a b, first? = some a ∧ second? = some b ∧ c = f a b := by
  cases first? with
  | none => simp
  | some a =>
      cases second? with
      | none => simp
      | some b => simp [eq_comm]

theorem Tree.json?_string_eq_some_iff {pieces : List StringPiece} {value : Json.Value} :
    (Tree.string pieces).json? = some value ↔
      ∃ text, StringPiece.jsonText? pieces = some text ∧ value = .string (some text) := by
  rw [Tree.json?, Tree.jsonWith?]
  cases StringPiece.jsonText? pieces with
  | none => simp
  | some text => simp [eq_comm]

theorem Tree.json?_array_eq_some_iff {blanks : Text} {first : Tree} {more : Elements}
    {value : Json.Value} :
    (Tree.array blanks first more).json? = some value ↔
      ∃ element elements, first.json? = some element ∧ more.json? = some elements ∧
        value = .array (element :: elements) := by
  rw [Tree.json?_array]
  exact bind_bind_eq_some_iff

theorem Tree.json?_object_eq_some_iff {blanks : Text} {first : Member} {more : Members}
    {value : Json.Value} :
    (Tree.object blanks first more).json? = some value ↔
      ∃ member members, first.json? = some member ∧ more.json? = some members ∧
        value = .object (member :: members) := by
  rw [Tree.json?_object]
  exact bind_bind_eq_some_iff

theorem Member.json?_eq_some_iff {key : List StringPiece} {before after : Text} {inner : Tree}
    {member : Option Text × Json.Value} :
    (Member.mk key before after inner).json? = some member ↔
      ∃ text value, StringPiece.jsonText? key = some text ∧ inner.json? = some value ∧
        member = (some text, value) := by
  rw [Member.json?_mk]
  exact bind_bind_eq_some_iff

theorem Elements.json?_more_eq_some_iff {before after : Text} {element : Tree} {rest : Elements}
    {values : List Json.Value} :
    (Elements.more before after element rest).json? = some values ↔
      ∃ value behind, element.json? = some value ∧ rest.json? = some behind ∧
        values = value :: behind := by
  rw [Elements.json?_more]
  exact bind_bind_eq_some_iff

theorem Members.json?_more_eq_some_iff {before after : Text} {item : Member} {rest : Members}
    {values : List (Option Text × Json.Value)} :
    (Members.more before after item rest).json? = some values ↔
      ∃ value behind, item.json? = some value ∧ rest.json? = some behind ∧
        values = value :: behind := by
  rw [Members.json?_more]
  exact bind_bind_eq_some_iff

/-! ## Wholeness and depth -/

/-- Words and numbers are whole and flat. -/
theorem whole_and_depth_of_word {text : Text} {value : Json.Value}
    (hword : Json.word text = some value) : value.isWhole ∧ value.depth = 0 := by
  rw [Json.word] at hword
  split_ifs at hword
  all_goals
    cases hword
    exact ⟨rfl, rfl⟩

mutual

/-- The JSON value of a tree has a text for every string and is as deep as the
tree. -/
theorem Tree.whole_and_depth_of_json? : (tree : Tree) → {value : Json.Value} →
    tree.json? = some value → value.isWhole ∧ value.depth = tree.depth
  | .literal _, _, hvalue => whole_and_depth_of_word hvalue
  | .string pieces, _, hvalue => by
      obtain ⟨text, -, rfl⟩ := Tree.json?_string_eq_some_iff.mp hvalue
      exact ⟨rfl, rfl⟩
  | .emptyArray _, _, hvalue | .emptyObject _, _, hvalue => by
      cases hvalue
      exact ⟨rfl, rfl⟩
  | .array blanks first more, _, hvalue => by
      obtain ⟨element, elements, hfirst, hmore, rfl⟩ := Tree.json?_array_eq_some_iff.mp hvalue
      obtain ⟨helement, hdepth⟩ := first.whole_and_depth_of_json? hfirst
      obtain ⟨helements, hdepths⟩ := more.whole_and_depth_of_json? hmore
      constructor
      · rw [Json.Value.isWhole, Json.Value.elementsAreWhole, helement, helements]
        rfl
      · rw [Json.Value.depth, Json.Value.elementsDepth, hdepth, hdepths, Tree.depth]
  | .object blanks first more, _, hvalue => by
      obtain ⟨member, members, hfirst, hmore, rfl⟩ := Tree.json?_object_eq_some_iff.mp hvalue
      obtain ⟨hmember, hdepth⟩ := first.whole_and_depth_of_json? hfirst
      obtain ⟨hmembers, hdepths⟩ := more.whole_and_depth_of_json? hmore
      constructor
      · rw [Json.Value.isWhole, Json.Value.membersAreWhole, hmember, hmembers]
        rfl
      · rw [Json.Value.depth, Json.Value.membersDepth, hdepth, hdepths, Tree.depth]

theorem Member.whole_and_depth_of_json? : (item : Member) →
    {member : Option Text × Json.Value} → item.json? = some member →
    Json.Value.memberIsWhole member ∧ Json.Value.memberDepth member = item.depth
  | .mk key before after inner, _, hmember => by
      obtain ⟨text, value, -, hvalue, rfl⟩ := Member.json?_eq_some_iff.mp hmember
      obtain ⟨hwhole, hdepth⟩ := inner.whole_and_depth_of_json? hvalue
      constructor
      · rw [Json.Value.memberIsWhole, hwhole]
        rfl
      · rw [Json.Value.memberDepth, hdepth, Member.depth]

theorem Elements.whole_and_depth_of_json? : (more : Elements) → {values : List Json.Value} →
    more.json? = some values →
    Json.Value.elementsAreWhole values ∧ Json.Value.elementsDepth values = more.depth
  | .done _, _, hvalues => by
      cases hvalues
      exact ⟨rfl, rfl⟩
  | .more before after element rest, _, hvalues => by
      obtain ⟨value, behind, helement, hrest, rfl⟩ := Elements.json?_more_eq_some_iff.mp hvalues
      obtain ⟨hvalue, hdepth⟩ := element.whole_and_depth_of_json? helement
      obtain ⟨hbehind, hdepths⟩ := rest.whole_and_depth_of_json? hrest
      constructor
      · rw [Json.Value.elementsAreWhole, hvalue, hbehind]
        rfl
      · rw [Json.Value.elementsDepth, hdepth, hdepths, Elements.depth]

theorem Members.whole_and_depth_of_json? : (more : Members) →
    {values : List (Option Text × Json.Value)} → more.json? = some values →
    Json.Value.membersAreWhole values ∧ Json.Value.membersDepth values = more.depth
  | .done _, _, hvalues => by
      cases hvalues
      exact ⟨rfl, rfl⟩
  | .more before after item rest, _, hvalues => by
      obtain ⟨value, behind, hitem, hrest, rfl⟩ := Members.json?_more_eq_some_iff.mp hvalues
      obtain ⟨hvalue, hdepth⟩ := item.whole_and_depth_of_json? hitem
      obtain ⟨hbehind, hdepths⟩ := rest.whole_and_depth_of_json? hrest
      constructor
      · rw [Json.Value.membersAreWhole, hvalue, hbehind]
        rfl
      · rw [Json.Value.membersDepth, hdepth, hdepths, Members.depth]

end

end ArrayPatch.Grammar
