import ArrayPatch.Grammar.Sites
import ArrayPatch.Proofs.Grammar.Size
import ArrayPatch.Proofs.Text.Part

/-!
# The members of an object in its text

Every entry of an object says where its key and its value stand in the text of
the object.  The entries follow each other, so a place inside the value of one
of them lies behind or before every other entry.
-/

namespace ArrayPatch.Grammar

/-- An entry whose key and value stand in a text where the entry says. -/
structure Entry.StandsIn (entry : Entry) (text : Text) (offset : Nat) : Prop where
  key : ∃ pieces, StringPiece.meaning? pieces = entry.key ∧
    text.HasAt offset (StringPiece.tokenText pieces) entry.keyStart
  value : text.HasAt offset entry.value.text entry.valueStart
  keyStart_lt : entry.keyStart < entry.valueStart

namespace Entry.StandsIn

variable {entry : Entry} {text whole : Text} {offset start : Nat}

theorem trans (hwhole : whole.HasAt offset text start) (hentry : entry.StandsIn text start) :
    entry.StandsIn whole offset where
  key := by
    obtain ⟨pieces, hmeaning, hkey⟩ := hentry.key
    exact ⟨pieces, hmeaning, hwhole.trans hkey⟩
  value := hwhole.trans hentry.value
  keyStart_lt := hentry.keyStart_lt

theorem bounds (hentry : entry.StandsIn text offset) :
    offset ≤ entry.keyStart ∧ entry.valueEnd ≤ offset + text.size := by
  obtain ⟨pieces, -, hkey⟩ := hentry.key
  exact ⟨hkey.bounds.1, hentry.value.bounds.2⟩

end Entry.StandsIn

section Items

variable {c : Char} (hc : c.utf8Size = 1) (blanks before after item more : Text) (offset : Nat)

include hc

theorem hasAt_open_item :
    Text.HasAt (c :: blanks ++ item ++ more) offset item (offset + 1 + blanks.size) :=
  ⟨c :: blanks, more, rfl, (add_size_open hc blanks offset).symm⟩

theorem hasAt_open_more : Text.HasAt (c :: blanks ++ item ++ more) offset more
    (offset + 1 + blanks.size + item.size) := by
  refine ⟨c :: blanks ++ item, [], (List.append_nil _).symm, ?_⟩
  rw [Text.size_append, add_size_open hc, Nat.add_assoc]

omit hc in
theorem hasAt_comma_item : Text.HasAt (before ++ ',' :: after ++ item ++ more) offset item
    (offset + before.size + 1 + after.size) :=
  ⟨before ++ ',' :: after, more, rfl, (add_size_comma before after offset).symm⟩

omit hc in
theorem hasAt_comma_more : Text.HasAt (before ++ ',' :: after ++ item ++ more) offset more
    (offset + before.size + 1 + after.size + item.size) := by
  refine ⟨before ++ ',' :: after ++ item, [], (List.append_nil _).symm, ?_⟩
  rw [Text.size_append, add_size_comma, Nat.add_assoc]

omit hc in
theorem hasAt_colon_value (key : Text) : Text.HasAt (key ++ before ++ ':' :: after ++ item) offset
    item (offset + key.size + before.size + 1 + after.size) :=
  ⟨key ++ before ++ ':' :: after, [], (List.append_nil _).symm,
    (add_size_colon key before after offset).symm⟩

end Items

/-- The entry of a member stands in the member. -/
theorem Member.entry_standsIn (item : Member) (offset : Nat) :
    (item.entry offset).StandsIn item.text offset := by
  cases item with
  | mk key before after value =>
      constructor
      · refine ⟨key, rfl, ?_⟩
        exact (((Text.HasAt.refl _ offset).append before).append _).append value.text
      · exact hasAt_colon_value before after value.text offset (StringPiece.tokenText key)
      · have hkey := StringPiece.two_le_size_tokenText key
        simp only [Member.entry, Member.valueStart]
        omega

theorem Members.standsIn_of_mem_entries {offset : Nat} {entry : Entry} : (more : Members) →
    entry ∈ more.entries offset → entry.StandsIn more.text offset
  | .done _, hentry => by
      cases hentry
  | .more before after item rest, hentry => by
      rcases List.mem_cons.mp hentry with rfl | hentry
      · apply Entry.StandsIn.trans
        · exact hasAt_comma_item before after item.text rest.text offset
        · exact item.entry_standsIn _
      · apply Entry.StandsIn.trans
        · exact hasAt_comma_more before after item.text rest.text offset
        · exact Members.standsIn_of_mem_entries rest hentry

/-- The entries of an object stand in its text. -/
theorem Tree.standsIn_of_mem_entries {tree : Tree} {offset : Nat} {entry : Entry}
    (hentry : entry ∈ tree.entries offset) : entry.StandsIn tree.text offset := by
  cases tree with
  | object blanks first more =>
      rcases List.mem_cons.mp hentry with rfl | hentry
      · apply Entry.StandsIn.trans
        · exact hasAt_open_item rfl blanks first.text more.text offset
        · exact first.entry_standsIn _
      · apply Entry.StandsIn.trans
        · exact hasAt_open_more rfl blanks first.text more.text offset
        · exact more.standsIn_of_mem_entries hentry
  | literal | string | emptyArray | array | emptyObject => cases hentry

theorem Members.wellFormed_of_mem_entries {offset : Nat} {entry : Entry} : (more : Members) →
    more.WellFormed → entry ∈ more.entries offset →
    entry.value.WellFormed ∧ entry.value.depth ≤ more.depth
  | .done _, _, hentry => by
      cases hentry
  | .more before after (.mk _ _ _ value) rest, ⟨_, _, ⟨_, _, _, hvalue⟩, hrest⟩, hentry => by
      rcases List.mem_cons.mp hentry with rfl | hentry
      · exact ⟨hvalue, Nat.le_max_left _ _⟩
      · obtain ⟨hwell, hdepth⟩ := Members.wellFormed_of_mem_entries rest hrest hentry
        exact ⟨hwell, Nat.le_trans hdepth (Nat.le_max_right _ _)⟩

/-- The values of a well-formed object are well formed. -/
theorem Tree.wellFormed_of_mem_entries {tree : Tree} {offset : Nat} {entry : Entry}
    (hwell : tree.WellFormed) (hentry : entry ∈ tree.entries offset) :
    entry.value.WellFormed ∧ entry.value.depth ≤ tree.depth := by
  cases tree with
  | object blanks first more =>
      obtain ⟨-, hfirst, hmore⟩ := hwell
      rw [Tree.depth]
      rcases List.mem_cons.mp hentry with rfl | hentry
      · cases first
        exact ⟨hfirst.2.2.2, Nat.le_succ_of_le (Nat.le_max_left _ _)⟩
      · obtain ⟨hvalue, hdepth⟩ := more.wellFormed_of_mem_entries hmore hentry
        exact ⟨hvalue, Nat.le_succ_of_le (Nat.le_trans hdepth (Nat.le_max_right _ _))⟩
  | literal | string | emptyArray | array | emptyObject => cases hentry

end ArrayPatch.Grammar
