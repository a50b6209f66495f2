import ArrayPatch.Proofs.Grammar.Json
import ArrayPatch.Proofs.Grammar.Replace

/-!
# Exchanged arrays in JSON values

Replacing arrays in a tree exchanges the same arrays in its JSON value.  Nothing
else can go wrong by the exchange: if a tree has a JSON value at all, it has one
with any of its arrays exchanged.
-/

namespace ArrayPatch.Grammar

variable {new? : Nat → Option Replacement} {texts? : Nat → Option (List Text)}

/-- New arrays stand for texts, and they are put where texts are exchanged. -/
structure Exchanges (new? : Nat → Option Replacement) (texts? : Nat → Option (List Text)) :
    Prop where
  eq_none_iff : ∀ offset, new? offset = none ↔ texts? offset = none
  json?_eq : ∀ offset new texts, new? offset = some new → texts? offset = some texts →
    new.array.json? = some (jsonTexts texts)

/-- Where an array is replaced, the texts in its place are known. -/
theorem Exchanges.exists_texts (hexchanges : Exchanges new? texts?) {offset : Nat}
    {new : Replacement} (hnew : new? offset = some new) :
    ∃ texts, texts? offset = some texts ∧ new.array.json? = some (jsonTexts texts) := by
  cases htexts : texts? offset with
  | none =>
      rw [(hexchanges.eq_none_iff offset).mpr htexts] at hnew
      cases hnew
  | some texts => exact ⟨texts, rfl, hexchanges.json?_eq offset new texts hnew htexts⟩

mutual

/-- The JSON value of the new tree is that of the old one with the same arrays
exchanged. -/
theorem Tree.json?_replace (hexchanges : Exchanges new? texts?) (offset : Nat) : (tree : Tree) →
    (tree.replace new? offset).json? = tree.jsonWith? texts? offset
  | .literal _ | .string _ | .emptyObject _ => rfl
  | .emptyArray blanks => by
      rw [Tree.replace, Tree.jsonWith?]
      cases hnew : new? offset with
      | none =>
          rw [(hexchanges.eq_none_iff offset).mp hnew]
          rfl
      | some new =>
          obtain ⟨texts, htexts, hjson⟩ := hexchanges.exists_texts hnew
          rw [htexts]
          exact hjson
  | .array blanks first more => by
      -- What lies inside an exchanged array does not matter any more.
      rw [Tree.replace, Tree.jsonWith?]
      cases hnew : new? offset with
      | none =>
          rw [(hexchanges.eq_none_iff offset).mp hnew]
          dsimp only
          rw [Tree.json?_array, Tree.json?_replace hexchanges, Elements.json?_replace hexchanges]
      | some new =>
          obtain ⟨texts, htexts, hjson⟩ := hexchanges.exists_texts hnew
          rw [htexts]
          exact hjson
  | .object blanks first more => by
      rw [Tree.replace, Tree.jsonWith?, Tree.json?_object, Member.json?_replace hexchanges,
        Members.json?_replace hexchanges]

theorem Member.json?_replace (hexchanges : Exchanges new? texts?) (offset : Nat) :
    (item : Member) → (item.replace new? offset).json? = item.jsonWith? texts? offset
  | .mk _ _ _ value => by
      rw [Member.replace, Member.jsonWith?, Member.json?_mk, Tree.json?_replace hexchanges]

theorem Elements.json?_replace (hexchanges : Exchanges new? texts?) (offset : Nat) :
    (more : Elements) → (more.replace new? offset).json? = more.jsonWith? texts? offset
  | .done _ => rfl
  | .more _ _ element rest => by
      rw [Elements.replace, Elements.jsonWith?, Elements.json?_more,
        Tree.json?_replace hexchanges, Elements.json?_replace hexchanges]

theorem Members.json?_replace (hexchanges : Exchanges new? texts?) (offset : Nat) :
    (more : Members) → (more.replace new? offset).json? = more.jsonWith? texts? offset
  | .done _ => rfl
  | .more _ _ item rest => by
      rw [Members.replace, Members.jsonWith?, Members.json?_more,
        Member.json?_replace hexchanges, Members.json?_replace hexchanges]

end

/-! ## The value with exchanged arrays -/

variable (texts?)

mutual

/-- A tree with a JSON value keeps one when arrays are exchanged. -/
theorem Tree.exists_jsonWith? (offset : Nat) : (tree : Tree) → {value : Json.Value} →
    tree.json? = some value → ∃ exchanged, tree.jsonWith? texts? offset = some exchanged
  | .literal _, value, hvalue | .string _, value, hvalue | .emptyObject _, value, hvalue =>
      ⟨value, hvalue⟩
  | .emptyArray _, _, _ => ⟨_, rfl⟩
  | .array blanks first more, _, hvalue => by
      obtain ⟨element, elements, hfirst, hmore, -⟩ := Tree.json?_array_eq_some_iff.mp hvalue
      obtain ⟨newFirst, hnewFirst⟩ :=
        Tree.exists_jsonWith? (offset + 1 + blanks.size) first hfirst
      obtain ⟨newMore, hnewMore⟩ :=
        Elements.exists_jsonWith? (offset + 1 + blanks.size + first.text.size) more hmore
      rw [Tree.jsonWith?]
      cases texts? offset with
      | none =>
          refine ⟨.array (newFirst :: newMore), ?_⟩
          dsimp only
          rw [hnewFirst, hnewMore]
          rfl
      | some texts => exact ⟨_, rfl⟩
  | .object blanks first more, _, hvalue => by
      obtain ⟨member, members, hfirst, hmore, -⟩ := Tree.json?_object_eq_some_iff.mp hvalue
      obtain ⟨newFirst, hnewFirst⟩ :=
        Member.exists_jsonWith? (offset + 1 + blanks.size) first hfirst
      obtain ⟨newMore, hnewMore⟩ :=
        Members.exists_jsonWith? (offset + 1 + blanks.size + first.text.size) more hmore
      refine ⟨.object (newFirst :: newMore), ?_⟩
      rw [Tree.jsonWith?, hnewFirst, hnewMore]
      rfl

theorem Member.exists_jsonWith? (offset : Nat) : (item : Member) →
    {member : Option Text × Json.Value} → item.json? = some member →
    ∃ exchanged, item.jsonWith? texts? offset = some exchanged
  | .mk key before after inner, _, hmember => by
      obtain ⟨text, value, hkey, hvalue, -⟩ := Member.json?_eq_some_iff.mp hmember
      obtain ⟨newValue, hnewValue⟩ := Tree.exists_jsonWith?
        (offset + (StringPiece.tokenText key).size + before.size + 1 + after.size) inner hvalue
      refine ⟨(some text, newValue), ?_⟩
      rw [Member.jsonWith?, hkey, hnewValue]
      rfl

theorem Elements.exists_jsonWith? (offset : Nat) : (more : Elements) →
    {values : List Json.Value} → more.json? = some values →
    ∃ exchanged, more.jsonWith? texts? offset = some exchanged
  | .done _, _, _ => ⟨_, rfl⟩
  | .more before after element rest, _, hvalues => by
      obtain ⟨value, behind, helement, hrest, -⟩ := Elements.json?_more_eq_some_iff.mp hvalues
      obtain ⟨newElement, hnewElement⟩ :=
        Tree.exists_jsonWith? (offset + before.size + 1 + after.size) element helement
      obtain ⟨newRest, hnewRest⟩ := Elements.exists_jsonWith?
        (offset + before.size + 1 + after.size + element.text.size) rest hrest
      refine ⟨newElement :: newRest, ?_⟩
      rw [Elements.jsonWith?, hnewElement, hnewRest]
      rfl

theorem Members.exists_jsonWith? (offset : Nat) : (more : Members) →
    {values : List (Option Text × Json.Value)} → more.json? = some values →
    ∃ exchanged, more.jsonWith? texts? offset = some exchanged
  | .done _, _, _ => ⟨_, rfl⟩
  | .more before after item rest, _, hvalues => by
      obtain ⟨value, behind, hitem, hrest, -⟩ := Members.json?_more_eq_some_iff.mp hvalues
      obtain ⟨newItem, hnewItem⟩ :=
        Member.exists_jsonWith? (offset + before.size + 1 + after.size) item hitem
      obtain ⟨newRest, hnewRest⟩ := Members.exists_jsonWith?
        (offset + before.size + 1 + after.size + item.text.size) rest hrest
      refine ⟨newItem :: newRest, ?_⟩
      rw [Members.jsonWith?, hnewItem, hnewRest]
      rfl

end

end ArrayPatch.Grammar
