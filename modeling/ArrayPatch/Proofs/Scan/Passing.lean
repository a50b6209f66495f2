import ArrayPatch.Grammar.Tree
import ArrayPatch.Proofs.Scan.Steps
import ArrayPatch.Proofs.Text.Part

/-!
# Passing over a text

A cursor passes over a text when the text comes next and the offset moves on by
its bytes.  Blanks, literals and string tokens are what the scanner passes over
by itself; here each of them is tied to its form in the grammar.
-/

namespace ArrayPatch

open Grammar

namespace Cursor

variable {cursor mid next : Cursor} {first second : Text}

/-- What comes next at a cursor is a text, and behind it is another cursor. -/
structure Passes (cursor : Cursor) (text : Text) (next : Cursor) : Prop where
  rest_eq : cursor.rest = text ++ next.rest
  offset_eq : next.offset = cursor.offset + Text.size text

theorem Passes.trans (hfirst : cursor.Passes first mid) (hsecond : mid.Passes second next) :
    cursor.Passes (first ++ second) next where
  rest_eq := by rw [hfirst.rest_eq, hsecond.rest_eq, List.append_assoc]
  offset_eq := by rw [hsecond.offset_eq, hfirst.offset_eq, Text.size_append, Nat.add_assoc]

theorem passes_append_iff :
    cursor.Passes (first ++ second) next ↔
      ∃ mid, cursor.Passes first mid ∧ mid.Passes second next := by
  constructor
  · rintro ⟨hrest, hoffset⟩
    refine ⟨⟨cursor.offset + Text.size first, second ++ next.rest⟩, ⟨?_, rfl⟩, rfl, ?_⟩
    · rw [hrest, List.append_assoc]
    · rw [hoffset, Text.size_append, Nat.add_assoc]
  · rintro ⟨mid, hfirst, hsecond⟩
    exact hfirst.trans hsecond

/-- Passing over a character of one byte. -/
theorem passes_cons_iff {c : Char} {text : Text} (hwidth : c.utf8Size = 1) :
    cursor.Passes (c :: text) next ↔
      ∃ rest, cursor.rest = c :: rest ∧ (Cursor.mk (cursor.offset + 1) rest).Passes text next := by
  constructor
  · rintro ⟨hrest, hoffset⟩
    refine ⟨text ++ next.rest, hrest, rfl, ?_⟩
    rw [hoffset, Text.size_cons, hwidth, Nat.add_assoc]
  · rintro ⟨rest, hrest, htext, hoffset⟩
    refine ⟨?_, ?_⟩
    · rw [hrest, List.cons_append]
      exact congrArg (c :: ·) htext
    · rw [hoffset, Text.size_cons, hwidth, Nat.add_assoc]

theorem passes_nil_iff : cursor.Passes [] next ↔ next = cursor := by
  rcases cursor with ⟨offset, rest⟩
  rcases next with ⟨nextOffset, nextRest⟩
  constructor
  · rintro ⟨hrest, hoffset⟩
    rw [Cursor.mk.injEq]
    exact ⟨hoffset, hrest.symm⟩
  · intro heq
    cases heq
    exact ⟨rfl, rfl⟩

/-- Moving over a class of characters passes over the longest run of them. -/
theorem skip_eq_iff {p : Char → Bool} :
    cursor.skip p = next ↔
      ∃ run, cursor.Passes run next ∧ (∀ c ∈ run, p c) ∧ ∀ c ∈ next.rest.head?, ¬ p c := by
  rcases cursor with ⟨offset, text⟩
  constructor
  · rintro rfl
    refine ⟨text.takeWhile p, ⟨?_, rfl⟩, ?_, ?_⟩
    · exact List.takeWhile_append_dropWhile.symm
    · intro c hc
      exact List.all_eq_true.mp List.all_takeWhile c hc
    · intro c hc
      have hhead := List.head?_dropWhile_not p text
      simp only [skip, Option.mem_def] at hc
      rw [hc] at hhead
      simpa using hhead
  · rintro ⟨run, ⟨hrest, hoffset⟩, hrun, hstop⟩
    rcases next with ⟨nextOffset, rest⟩
    obtain rfl : text = run ++ rest := hrest
    rw [skip, Cursor.mk.injEq, Text.takeWhile_run_append hrun hstop]
    exact ⟨hoffset.symm, Text.dropWhile_run_append hrun hstop⟩

/-- Moving over blanks passes over all blanks. -/
theorem skipBlanks_eq_iff :
    cursor.skipBlanks = next ↔
      ∃ blanks, cursor.Passes blanks next ∧ AllBlank blanks ∧
        ∀ c ∈ next.rest.head?, ¬ isBlank c :=
  skip_eq_iff

theorem skipBlanks_cons {c : Char} (offset : Nat) (rest : Text) (hc : ¬ isBlank c) :
    (Cursor.mk offset (c :: rest)).skipBlanks = ⟨offset, c :: rest⟩ := by
  refine skipBlanks_eq_iff.mpr ⟨[], passes_nil_iff.mpr rfl, allBlank_nil, ?_⟩
  rintro _ ⟨rfl⟩
  exact hc

theorem skipBlanks_skipBlanks (cursor : Cursor) :
    cursor.skipBlanks.skipBlanks = cursor.skipBlanks := by
  obtain ⟨_, _, _, hstop⟩ := skipBlanks_eq_iff.mp (rfl : cursor.skipBlanks = _)
  exact skipBlanks_eq_iff.mpr ⟨[], passes_nil_iff.mpr rfl, allBlank_nil, hstop⟩

/-- Blanks in front of a text that starts with none are moved over. -/
theorem skipBlanks_eq_of_passes {blanks text : Text} {c : Char} {tail : Text}
    (hblanks : AllBlank blanks) (hpasses : cursor.Passes blanks mid)
    (htext : mid.Passes text next) (hhead : text = c :: tail) (hc : ¬ isBlank c) :
    cursor.skipBlanks = mid := by
  refine skipBlanks_eq_iff.mpr ⟨blanks, hpasses, hblanks, ?_⟩
  rw [htext.rest_eq, hhead]
  intro d hd
  obtain rfl : c = d := by simpa using hd
  exact hc

theorem Passes.split_open {c : Char} {blanks item more : Text} (hwidth : c.utf8Size = 1)
    (hpasses : cursor.Passes (c :: blanks ++ item ++ more) next) :
    ∃ rest start mid, cursor = ⟨cursor.offset, c :: rest⟩ ∧
      (Cursor.mk (cursor.offset + 1) rest).Passes blanks start ∧ start.Passes item mid ∧
      mid.Passes more next := by
  obtain ⟨mid, hfront, hmore⟩ := passes_append_iff.mp hpasses
  obtain ⟨start, hopen, hitem⟩ := passes_append_iff.mp hfront
  obtain ⟨rest, hrest, hblanks⟩ := (passes_cons_iff hwidth).mp hopen
  refine ⟨rest, start, mid, ?_, hblanks, hitem, hmore⟩
  rw [← hrest]

theorem Passes.split_close {c : Char} {blanks : Text} (hwidth : c.utf8Size = 1)
    (hc : ¬ isBlank c) (hblanks : AllBlank blanks) (hpasses : cursor.Passes (blanks ++ [c]) next) :
    ∃ offset rest, cursor.skipBlanks = ⟨offset, c :: rest⟩ ∧ next = ⟨offset + 1, rest⟩ := by
  obtain ⟨mid, hbefore, hclose⟩ := passes_append_iff.mp hpasses
  obtain ⟨rest, hrest, hnext⟩ := (passes_cons_iff hwidth).mp hclose
  refine ⟨mid.offset, rest, ?_, passes_nil_iff.mp hnext⟩
  rw [skipBlanks_eq_of_passes hblanks hbefore hclose rfl hc, ← hrest]

theorem Passes.split_comma {before after item more : Text} (hbefore : AllBlank before)
    (hpasses : cursor.Passes (before ++ ',' :: after ++ item ++ more) next) :
    ∃ offset rest start mid, cursor.skipBlanks = ⟨offset, ',' :: rest⟩ ∧
      (Cursor.mk (offset + 1) rest).Passes after start ∧ start.Passes item mid ∧
      mid.Passes more next ∧ offset = cursor.offset + Text.size before := by
  obtain ⟨mid, hfront, hmore⟩ := passes_append_iff.mp hpasses
  obtain ⟨start, hcomma, hitem⟩ := passes_append_iff.mp hfront
  obtain ⟨here, hhere, hcomma⟩ := passes_append_iff.mp hcomma
  obtain ⟨rest, hrest, hafter⟩ := (passes_cons_iff rfl).mp hcomma
  refine ⟨here.offset, rest, start, mid, ?_, hafter, hitem, hmore, hhere.offset_eq⟩
  rw [skipBlanks_eq_of_passes hbefore hhere hcomma rfl (by decide), ← hrest]

end Cursor

/-! ## Delimiters and literals -/

/-- A literal is made of the characters that delimit nothing. -/
theorem Scan.isLiteral_iff {c : Char} : Scan.isLiteral c ↔ ¬ IsDelimiter c := by
  simp [Scan.isLiteral, IsDelimiter, not_or, and_assoc]

namespace Grammar

/-- A text whose first character, if there is one, ends a literal. -/
def Delimited (text : Text) : Prop :=
  ∀ c ∈ text.head?, IsDelimiter c

theorem delimited_cons {c : Char} {rest : Text} (hc : IsDelimiter c) : Delimited (c :: rest) := by
  intro d hd
  obtain rfl : c = d := by simpa using hd
  exact hc

theorem delimited_append {blanks text : Text} (hblanks : AllBlank blanks) (htext : Delimited text) :
    Delimited (blanks ++ text) := by
  cases blanks with
  | nil => exact htext
  | cons c blanks => exact delimited_cons (.inl (hblanks c List.mem_cons_self))

theorem AllBlank.delimited {text : Text} (hblank : AllBlank text) : Delimited text := by
  cases text with
  | nil => simp [Delimited]
  | cons c rest => exact delimited_cons (.inl (hblank c List.mem_cons_self))

theorem Tree.canPrecede_of_delimited {tree : Tree} {text : Text} (htext : Delimited text) :
    tree.CanPrecede text := by
  cases tree with
  | literal =>
      cases text with
      | nil => trivial
      | cons c rest => exact htext c rfl
  | _ => trivial

theorem Tree.delimited_of_canPrecede {literal text : Text}
    (hprecede : (Tree.literal literal).CanPrecede text) : Delimited text := by
  cases text with
  | nil => simp [Delimited]
  | cons c rest => exact delimited_cons hprecede

end Grammar

/-- A literal is read exactly if it is a run up to a delimiter. -/
theorem Scan.literal_eq_ok_iff_passes {cursor next : Cursor} :
    (∃ hnext, Scan.literal cursor = .ok ⟨next, hnext⟩) ↔
      ∃ text, cursor.Passes text next ∧ text ≠ [] ∧ (∀ c ∈ text, ¬ IsDelimiter c) ∧
        Delimited next.rest := by
  rw [Scan.literal_eq_ok_iff]
  constructor
  · rintro ⟨c, rest, hrest, hc, hnext⟩
    obtain ⟨run, ⟨htext, hoffset⟩, hrun, hstop⟩ := Cursor.skip_eq_iff.mp hnext.symm
    refine ⟨c :: run, ⟨?_, ?_⟩, List.cons_ne_nil c run, ?_, ?_⟩
    · rw [hrest, List.cons_append]
      exact congrArg (c :: ·) htext
    · rw [hoffset, Text.size_cons, Nat.add_assoc]
    · intro d hd
      rcases List.mem_cons.mp hd with rfl | hd
      · exact isLiteral_iff.mp hc
      · exact isLiteral_iff.mp (hrun d hd)
    · intro d hd
      by_contra hdelimiter
      exact hstop d hd (isLiteral_iff.mpr hdelimiter)
  · rintro ⟨text, ⟨htext, hoffset⟩, hnonempty, hliteral, hstop⟩
    obtain ⟨c, run, rfl⟩ := List.exists_cons_of_ne_nil hnonempty
    refine ⟨c, run ++ next.rest, htext, ?_, ?_⟩
    · exact isLiteral_iff.mpr (hliteral c List.mem_cons_self)
    · refine (Cursor.skip_eq_iff.mpr ⟨run, ⟨rfl, ?_⟩, ?_, ?_⟩).symm
      · rw [hoffset, Text.size_cons, Nat.add_assoc]
      · intro d hd
        exact isLiteral_iff.mpr (hliteral d (List.mem_cons_of_mem c hd))
      · intro d hd hd'
        exact isLiteral_iff.mp hd' (hstop d hd)

/-- A token is read exactly if a cursor passes over its pieces. -/
theorem StringToken.reads_read_iff_passes {cursor next : Cursor} {value : Text} :
    StringToken.Reads (StringToken.read cursor) value next ↔
      ∃ pieces, cursor.Passes (StringPiece.tokenText pieces) next ∧
        StringPiece.meaning? pieces = some value := by
  rw [reads_read_iff]
  constructor
  · rintro ⟨pieces, hrest, hmeaning, hoffset⟩
    exact ⟨pieces, ⟨hrest, hoffset⟩, hmeaning⟩
  · rintro ⟨pieces, ⟨hrest, hoffset⟩, hmeaning⟩
    exact ⟨pieces, hrest, hmeaning, hoffset⟩

end ArrayPatch
