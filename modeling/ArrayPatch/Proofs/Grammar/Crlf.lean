import ArrayPatch.Proofs.Grammar.Document
import ArrayPatch.Proofs.Grammar.Relocated
import ArrayPatch.Proofs.Grammar.Size
import ArrayPatch.Proofs.Text.Crlf

/-!
# Syntax trees with carriage returns

If no string token of a tree holds a line feed, then all line feeds of its text
stand in blanks.  Putting a carriage return in front of each of them gives a tree
of the same form, whose sites are those of the tree before at the offsets that
the boundaries of the text are taken to.
-/

namespace ArrayPatch

open Grammar

namespace Grammar

mutual

/-- A value with a carriage return in front of every line feed between tokens. -/
def Tree.crlf : Tree → Tree
  | .literal text => .literal text
  | .string pieces => .string pieces
  | .emptyArray blanks => .emptyArray blanks.crlf
  | .array blanks first more => .array blanks.crlf first.crlf more.crlf
  | .emptyObject blanks => .emptyObject blanks.crlf
  | .object blanks first more => .object blanks.crlf first.crlf more.crlf

/-- A member with a carriage return in front of every line feed between tokens. -/
def Member.crlf : Member → Member
  | .mk key beforeColon afterColon value =>
      .mk key beforeColon.crlf afterColon.crlf value.crlf

/-- The same for the elements after the first one. -/
def Elements.crlf : Elements → Elements
  | .done blanks => .done blanks.crlf
  | .more beforeComma afterComma element rest =>
      .more beforeComma.crlf afterComma.crlf element.crlf rest.crlf

/-- The same for the members after the first one. -/
def Members.crlf : Members → Members
  | .done blanks => .done blanks.crlf
  | .more beforeComma afterComma member rest =>
      .more beforeComma.crlf afterComma.crlf member.crlf rest.crlf

end

mutual

/-- The string tokens of a value, keys included, as they are spelled. -/
def Tree.tokens : Tree → List Text
  | .literal _ | .emptyArray _ | .emptyObject _ => []
  | .string pieces => [StringPiece.tokenText pieces]
  | .array _ first more => first.tokens ++ more.tokens
  | .object _ first more => first.tokens ++ more.tokens

/-- The string tokens of a member, its key first. -/
def Member.tokens : Member → List Text
  | .mk key _ _ value => StringPiece.tokenText key :: value.tokens

/-- The string tokens of the elements after the first one. -/
def Elements.tokens : Elements → List Text
  | .done _ => []
  | .more _ _ element rest => element.tokens ++ rest.tokens

/-- The string tokens of the members after the first one. -/
def Members.tokens : Members → List Text
  | .done _ => []
  | .more _ _ member rest => member.tokens ++ rest.tokens

end

/-- No string token holds a line feed. -/
abbrev WithoutFeed (tokens : List Text) : Prop :=
  ∀ token ∈ tokens, '\n' ∉ token

theorem AllBlank.crlf {blanks : Text} (hblanks : AllBlank blanks) : AllBlank blanks.crlf := by
  intro c hc
  obtain ⟨d, hd, hc⟩ := List.mem_flatMap.mp hc
  split at hc
  · simp only [List.mem_cons, List.not_mem_nil, or_false] at hc
    rcases hc with rfl | rfl <;> rfl
  · obtain rfl := List.mem_singleton.mp hc
    exact hblanks c hd

theorem IsLiteral.crlf_eq {text : Text} (hliteral : IsLiteral text) : text.crlf = text :=
  Text.crlf_eq_self fun hfeed => hliteral.1 _ hfeed (.inl rfl)

mutual

theorem Tree.wellFormed_crlf : (tree : Tree) → tree.WellFormed → tree.crlf.WellFormed
  | .literal _, hwell | .string _, hwell => hwell
  | .emptyArray _, hwell | .emptyObject _, hwell => hwell.crlf
  | .array _ first more, ⟨hblanks, hfirst, hmore⟩ =>
      ⟨hblanks.crlf, first.wellFormed_crlf hfirst, more.wellFormed_crlf hmore⟩
  | .object _ first more, ⟨hblanks, hfirst, hmore⟩ =>
      ⟨hblanks.crlf, first.wellFormed_crlf hfirst, more.wellFormed_crlf hmore⟩

theorem Member.wellFormed_crlf : (item : Member) → item.WellFormed → item.crlf.WellFormed
  | .mk _ _ _ value, ⟨hkey, hbefore, hafter, hvalue⟩ =>
      ⟨hkey, hbefore.crlf, hafter.crlf, value.wellFormed_crlf hvalue⟩

theorem Elements.wellFormed_crlf : (more : Elements) → more.WellFormed → more.crlf.WellFormed
  | .done _, hwell => hwell.crlf
  | .more _ _ element rest, ⟨hbefore, hafter, helement, hrest⟩ =>
      ⟨hbefore.crlf, hafter.crlf, element.wellFormed_crlf helement, rest.wellFormed_crlf hrest⟩

theorem Members.wellFormed_crlf : (more : Members) → more.WellFormed → more.crlf.WellFormed
  | .done _, hwell => hwell.crlf
  | .more _ _ item rest, ⟨hbefore, hafter, hitem, hrest⟩ =>
      ⟨hbefore.crlf, hafter.crlf, item.wellFormed_crlf hitem, rest.wellFormed_crlf hrest⟩

end

mutual

theorem Tree.depth_crlf : (tree : Tree) → tree.crlf.depth = tree.depth
  | .literal _ | .string _ | .emptyArray _ | .emptyObject _ => rfl
  | .array _ first more => by
      rw [Tree.crlf, Tree.depth, Tree.depth, first.depth_crlf, more.depth_crlf]
  | .object _ first more => by
      rw [Tree.crlf, Tree.depth, Tree.depth, first.depth_crlf, more.depth_crlf]

theorem Member.depth_crlf : (item : Member) → item.crlf.depth = item.depth
  | .mk _ _ _ value => value.depth_crlf

theorem Elements.depth_crlf : (more : Elements) → more.crlf.depth = more.depth
  | .done _ => rfl
  | .more _ _ element rest => by
      rw [Elements.crlf, Elements.depth, Elements.depth, element.depth_crlf, rest.depth_crlf]

theorem Members.depth_crlf : (more : Members) → more.crlf.depth = more.depth
  | .done _ => rfl
  | .more _ _ item rest => by
      rw [Members.crlf, Members.depth, Members.depth, item.depth_crlf, rest.depth_crlf]

end

mutual

theorem Tree.text_crlf : (tree : Tree) → tree.WellFormed → WithoutFeed tree.tokens →
    tree.crlf.text = tree.text.crlf
  | .literal _, hwell, _ => hwell.crlf_eq.symm
  | .string _, _, htokens => (Text.crlf_eq_self (htokens _ (List.mem_singleton_self _))).symm
  | .emptyArray _, _, _ | .emptyObject _, _, _ => by
      simp [Tree.crlf, Tree.text]
  | .array _ first more, ⟨_, hfirst, hmore⟩, htokens => by
      obtain ⟨hfirstTokens, hmoreTokens⟩ := List.forall_mem_append.mp htokens
      simp [Tree.crlf, Tree.text, first.text_crlf hfirst hfirstTokens,
        more.text_crlf hmore hmoreTokens]
  | .object _ first more, ⟨_, hfirst, hmore⟩, htokens => by
      obtain ⟨hfirstTokens, hmoreTokens⟩ := List.forall_mem_append.mp htokens
      simp [Tree.crlf, Tree.text, first.text_crlf hfirst hfirstTokens,
        more.text_crlf hmore hmoreTokens]

theorem Member.text_crlf : (item : Member) → item.WellFormed → WithoutFeed item.tokens →
    item.crlf.text = item.text.crlf
  | .mk _ _ _ value, ⟨_, _, _, hvalue⟩, htokens => by
      obtain ⟨hkey, hvalueTokens⟩ := List.forall_mem_cons.mp htokens
      simp [Member.crlf, Member.text, Text.crlf_eq_self hkey, value.text_crlf hvalue hvalueTokens]

theorem Elements.text_crlf : (more : Elements) → more.WellFormed → WithoutFeed more.tokens →
    more.crlf.text = more.text.crlf
  | .done _, _, _ => by
      simp [Elements.crlf, Elements.text]
  | .more _ _ element rest, ⟨_, _, helement, hrest⟩, htokens => by
      obtain ⟨helementTokens, hrestTokens⟩ := List.forall_mem_append.mp htokens
      simp [Elements.crlf, Elements.text, element.text_crlf helement helementTokens,
        rest.text_crlf hrest hrestTokens]

theorem Members.text_crlf : (more : Members) → more.WellFormed → WithoutFeed more.tokens →
    more.crlf.text = more.text.crlf
  | .done _, _, _ => by
      simp [Members.crlf, Members.text]
  | .more _ _ item rest, ⟨_, _, hitem, hrest⟩, htokens => by
      obtain ⟨hitemTokens, hrestTokens⟩ := List.forall_mem_append.mp htokens
      simp [Members.crlf, Members.text, item.text_crlf hitem hitemTokens,
        rest.text_crlf hrest hrestTokens]

end

/-! ## Sites -/

theorem Tree.meaning?_crlf (tree : Tree) : tree.crlf.meaning? = tree.meaning? := by
  cases tree <;> rfl

theorem Tree.isArray_crlf (tree : Tree) : tree.crlf.isArray = tree.isArray := by
  cases tree <;> rfl

section Sites

open Text (Follows)

variable {f : Nat → Nat}

/-- Where the value of a member starts and stops. -/
theorem Member.value_follows {offset : Nat} {key : List StringPiece} {before after : Text}
    {value : Tree} (hwell : (Member.mk key before after value).WellFormed)
    (htokens : WithoutFeed (Member.mk key before after value).tokens)
    (hfollows : Follows f offset (Member.mk key before after value).text) :
    Follows f ((Member.mk key before after value).valueStart offset) value.text ∧
      (Member.mk key before after value).crlf.valueStart (f offset) =
        f ((Member.mk key before after value).valueStart offset) ∧
      (Member.mk key before after value).crlf.valueStart (f offset) + value.crlf.text.size =
        f ((Member.mk key before after value).valueStart offset + value.text.size) := by
  obtain ⟨hkey, hvalueTokens⟩ := List.forall_mem_cons.mp htokens
  have hmoved : (Member.mk key before after value).crlf.valueStart (f offset) =
      f offset + (Text.crlf (StringPiece.tokenText key ++ before ++ ':' :: after)).size := by
    rw [Member.crlf, Member.valueStart, add_size_colon]
    simp [Text.crlf_eq_self hkey]
  rw [Member.text, ← List.append_nil (_ ++ value.text)] at hfollows
  obtain ⟨hvalue, -, hstart, hstop⟩ := hfollows.split (add_size_colon _ before after offset)
    hmoved (value.text_crlf hwell.2.2.2 hvalueTokens)
  exact ⟨hvalue, hstart, hstop⟩

theorem Member.entry_crlf : (item : Member) → {offset : Nat} → item.WellFormed →
    WithoutFeed item.tokens → Follows f offset item.text →
    Entry.Relocated (fun old new => new = f old) (item.entry offset) (item.crlf.entry (f offset))
  | .mk _ _ _ value, _, hwell, htokens, hfollows =>
      have ⟨_, hstart, hstop⟩ := Member.value_follows hwell htokens hfollows
      ⟨rfl, value.meaning?_crlf, value.isArray_crlf, rfl, hstart, hstop⟩

/-- A first item behind an opening bracket. -/
theorem follows_open {c : Char} (hc : c.utf8Size = 1) (hfeed : c ≠ '\n')
    {blanks item more newItem : Text} {offset : Nat}
    (hfollows : Follows f offset (c :: blanks ++ item ++ more)) (hitem : newItem = item.crlf) :
    Follows f (offset + 1 + blanks.size) item ∧
      Follows f (offset + 1 + blanks.size + item.size) more ∧
      f offset + 1 + blanks.crlf.size = f (offset + 1 + blanks.size) ∧
      f offset + 1 + blanks.crlf.size + newItem.size =
        f (offset + 1 + blanks.size + item.size) := by
  apply hfollows.split (add_size_open hc blanks offset) _ hitem
  rw [add_size_open hc, Text.crlf_cons hfeed]

/-- An item behind a comma. -/
theorem follows_comma {before after item more newItem : Text} {offset : Nat}
    (hfollows : Follows f offset (before ++ ',' :: after ++ item ++ more))
    (hitem : newItem = item.crlf) :
    Follows f (offset + before.size + 1 + after.size) item ∧
      Follows f (offset + before.size + 1 + after.size + item.size) more ∧
      f offset + before.crlf.size + 1 + after.crlf.size =
        f (offset + before.size + 1 + after.size) ∧
      f offset + before.crlf.size + 1 + after.crlf.size + newItem.size =
        f (offset + before.size + 1 + after.size + item.size) := by
  apply hfollows.split (add_size_comma before after offset) _ hitem
  rw [add_size_comma, Text.crlf_append, Text.crlf_cons (by decide)]

theorem Members.entries_crlf : (more : Members) → {offset : Nat} → more.WellFormed →
    WithoutFeed more.tokens → Follows f offset more.text →
    List.Forall₂ (Entry.Relocated fun old new => new = f old) (more.entries offset)
      (more.crlf.entries (f offset))
  | .done _, _, _, _, _ => .nil
  | .more before after item rest, offset, ⟨_, _, hitem, hrest⟩, htokens, hfollows => by
      obtain ⟨hitemTokens, hrestTokens⟩ := List.forall_mem_append.mp htokens
      obtain ⟨hitemFollows, hrestFollows, hstart, hstop⟩ :=
        follows_comma hfollows (item.text_crlf hitem hitemTokens)
      rw [Members.crlf, Members.entries, Members.entries]
      rw [hstop, hstart]
      exact .cons (item.entry_crlf hitem hitemTokens hitemFollows)
        (rest.entries_crlf hrest hrestTokens hrestFollows)

/-- The site of an object. -/
theorem own_site_crlf (settings : Settings) {blanks : Text} {first : Member} {more : Members}
    {offset : Nat} (hfirst : first.WellFormed) (hfirstTokens : WithoutFeed first.tokens)
    (hmore : more.WellFormed) (hmoreTokens : WithoutFeed more.tokens)
    (hfollows : Follows f offset (Tree.object blanks first more).text) :
    List.Forall₂ (Site.Relocated fun old new => new = f old)
      (siteOf? settings ((Tree.object blanks first more).entries offset)).toList
      (siteOf? settings ((Tree.object blanks first more).crlf.entries (f offset))).toList := by
  obtain ⟨hfirstFollows, hmoreFollows, hstart, hstop⟩ :=
    follows_open rfl (by decide) hfollows (first.text_crlf hfirst hfirstTokens)
  have hentries : List.Forall₂ (Entry.Relocated fun old new => new = f old)
      ((Tree.object blanks first more).entries offset)
      ((Tree.object blanks first more).crlf.entries (f offset)) := by
    rw [Tree.crlf, Tree.entries, Tree.entries]
    rw [hstop, hstart]
    exact .cons (first.entry_crlf hfirst hfirstTokens hfirstFollows)
      (more.entries_crlf hmore hmoreTokens hmoreFollows)
  have hsite := siteOf?_relocated settings hentries
  generalize siteOf? settings ((Tree.object blanks first more).entries offset) = site at hsite ⊢
  generalize siteOf? settings _ = newSite at hsite ⊢
  cases hsite with
  | none => exact .nil
  | some hsite => exact .cons hsite .nil

variable {settings : Settings}

mutual

/-- The sites of a value. -/
theorem Tree.sites_crlf : (tree : Tree) → {offset : Nat} → tree.WellFormed →
    WithoutFeed tree.tokens → Follows f offset tree.text →
    List.Forall₂ (Site.Relocated fun old new => new = f old) (tree.sites settings offset)
      (tree.crlf.sites settings (f offset))
  | .literal _, _, _, _, _ | .string _, _, _, _, _ => .nil
  | .emptyArray _, _, _, _, _ | .emptyObject _, _, _, _, _ => .nil
  | .array _ first more, _, ⟨_, hfirst, hmore⟩, htokens, hfollows => by
      obtain ⟨hfirstTokens, hmoreTokens⟩ := List.forall_mem_append.mp htokens
      obtain ⟨hfirstFollows, hmoreFollows, hstart, hstop⟩ :=
        follows_open rfl (by decide) hfollows (first.text_crlf hfirst hfirstTokens)
      rw [Tree.crlf, Tree.sites, Tree.sites]
      rw [hstop, hstart]
      exact List.rel_append (first.sites_crlf hfirst hfirstTokens hfirstFollows)
        (more.sites_crlf hmore hmoreTokens hmoreFollows)
  | .object blanks first more, offset, ⟨_, hfirst, hmore⟩, htokens, hfollows => by
      obtain ⟨hfirstTokens, hmoreTokens⟩ := List.forall_mem_append.mp htokens
      obtain ⟨hfirstFollows, hmoreFollows, hstart, hstop⟩ :=
        follows_open rfl (by decide) hfollows (first.text_crlf hfirst hfirstTokens)
      have hown :=
        own_site_crlf settings hfirst hfirstTokens hmore hmoreTokens hfollows
      rw [Tree.crlf] at hown
      rw [Tree.crlf, Tree.sites, Tree.sites]
      rw [hstop, hstart]
      apply List.rel_append
      · exact List.rel_append (first.sites_crlf hfirst hfirstTokens hfirstFollows)
          (more.sites_crlf hmore hmoreTokens hmoreFollows)
      · exact hown

theorem Member.sites_crlf : (item : Member) → {offset : Nat} → item.WellFormed →
    WithoutFeed item.tokens → Follows f offset item.text →
    List.Forall₂ (Site.Relocated fun old new => new = f old) (item.sites settings offset)
      (item.crlf.sites settings (f offset))
  | .mk key before after value, offset, hwell, htokens, hfollows => by
      obtain ⟨hvalue, hstart, -⟩ := Member.value_follows hwell htokens hfollows
      have hsites := value.sites_crlf hwell.2.2.2 (List.forall_mem_cons.mp htokens).2 hvalue
      rw [← hstart] at hsites
      exact hsites

theorem Elements.sites_crlf : (more : Elements) → {offset : Nat} → more.WellFormed →
    WithoutFeed more.tokens → Follows f offset more.text →
    List.Forall₂ (Site.Relocated fun old new => new = f old) (more.sites settings offset)
      (more.crlf.sites settings (f offset))
  | .done _, _, _, _, _ => .nil
  | .more before after element rest, _, ⟨_, _, helement, hrest⟩, htokens, hfollows => by
      obtain ⟨helementTokens, hrestTokens⟩ := List.forall_mem_append.mp htokens
      obtain ⟨helementFollows, hrestFollows, hstart, hstop⟩ :=
        follows_comma hfollows (element.text_crlf helement helementTokens)
      rw [Elements.crlf, Elements.sites, Elements.sites]
      rw [hstop, hstart]
      exact List.rel_append (element.sites_crlf helement helementTokens helementFollows)
        (rest.sites_crlf hrest hrestTokens hrestFollows)

theorem Members.sites_crlf : (more : Members) → {offset : Nat} → more.WellFormed →
    WithoutFeed more.tokens → Follows f offset more.text →
    List.Forall₂ (Site.Relocated fun old new => new = f old) (more.sites settings offset)
      (more.crlf.sites settings (f offset))
  | .done _, _, _, _, _ => .nil
  | .more before after item rest, _, ⟨_, _, hitem, hrest⟩, htokens, hfollows => by
      obtain ⟨hitemTokens, hrestTokens⟩ := List.forall_mem_append.mp htokens
      obtain ⟨hitemFollows, hrestFollows, hstart, hstop⟩ :=
        follows_comma hfollows (item.text_crlf hitem hitemTokens)
      rw [Members.crlf, Members.sites, Members.sites]
      rw [hstop, hstart]
      exact List.rel_append (item.sites_crlf hitem hitemTokens hitemFollows)
        (rest.sites_crlf hrest hrestTokens hrestFollows)

end

end Sites

theorem IsDocument.crlf {settings : Settings} {text blanks after : Text} {tree : Tree}
    (hdocument : IsDocument settings text blanks tree after) (htokens : WithoutFeed tree.tokens) :
    IsDocument settings text.crlf blanks.crlf tree.crlf after.crlf where
  text_eq := by
    rw [hdocument.text_eq, Text.crlf_append, Text.crlf_append,
      tree.text_crlf hdocument.wellFormed htokens]
  allBlank_before := hdocument.allBlank_before.crlf
  allBlank_after := hdocument.allBlank_after.crlf
  wellFormed := tree.wellFormed_crlf hdocument.wellFormed
  depth_le := by
    rw [tree.depth_crlf]
    exact hdocument.depth_le

end Grammar

end ArrayPatch
