import ArrayPatch.Grammar.Json
import ArrayPatch.Proofs.Scan.StringToken

/-!
# Strings of JSON texts

The reader of JSON cuts a string into pieces and pairs up code units afterwards,
while a piece of the grammar is a whole escape.  Both come to the same: a string
that stands for a text is a token without raw control characters.
-/

namespace ArrayPatch.Json

open Grammar

/-- A reading yields a result and leaves a text. -/
def Reads {α : Type} {text : Text} (reading : Reading α text) (a : α) (rest : Text) : Prop :=
  ∃ hrest, reading = some (a, ⟨rest, hrest⟩)

section Combining

variable {α β : Type} {text before rest : Text}

/-- What a reading leaves is shorter. -/
theorem Reads.length_lt {reading : Reading α text} {a : α} (hreads : Reads reading a rest) :
    rest.length < text.length :=
  hreads.fst

@[simp]
theorem not_reads_none {a : α} : ¬ Reads (none : Reading α text) a rest := by
  rintro ⟨_, heq⟩
  cases heq

@[simp]
theorem reads_some_iff {a b : α} {behind : { rest : Text // rest.length < text.length }} :
    Reads (some (a, behind) : Reading α text) b rest ↔ b = a ∧ rest = behind.1 := by
  rcases behind with ⟨behind, hbehind⟩
  constructor
  · rintro ⟨_, heq⟩
    cases heq
    exact ⟨rfl, rfl⟩
  · rintro ⟨rfl, rfl⟩
    exact ⟨hbehind, rfl⟩

@[simp]
theorem reads_pure_iff {a b : α} {behind : { rest : Text // rest.length < text.length }} :
    Reads (pure (a, behind) : Reading α text) b rest ↔ b = a ∧ rest = behind.1 :=
  reads_some_iff

/-- Two readings in a row succeed exactly if both do. -/
theorem reads_bind_iff {reading : Reading β before}
    {then_ : β × { rest : Text // rest.length < before.length } → Reading α text} {a : α} :
    Reads (reading >>= then_) a rest ↔
      ∃ b mid, ∃ hreads : Reads reading b mid,
        Reads (then_ (b, ⟨mid, hreads.length_lt⟩)) a rest := by
  cases reading with
  | none =>
      constructor
      · intro hreads
        exact absurd hreads not_reads_none
      · rintro ⟨_, _, hreads, -⟩
        exact absurd hreads not_reads_none
  | some read =>
      rcases read with ⟨b, mid, hmid⟩
      constructor
      · intro hreads
        exact ⟨b, mid, ⟨hmid, rfl⟩, hreads⟩
      · rintro ⟨_, _, hfirst, hreads⟩
        obtain ⟨rfl, rfl⟩ := reads_some_iff.mp hfirst
        exact hreads

end Combining

variable {text rest : Text}

/-- A piece that is a character is a plain character or a short escape. -/
theorem reads_piece_char_iff {c : Char} :
    Reads (piece text) (.char c) rest ↔
      (text = c :: rest ∧ 0x20 ≤ c.toNat ∧ c ≠ '\\') ∨
        ∃ letter, text = '\\' :: letter :: rest ∧ letterEscape letter = some c := by
  rw [piece.eq_def]
  split
  · rename_i digits
    constructor
    · intro hreads
      split at hreads
      · simp at hreads
      · split at hreads
        · simp at hreads
        · exact absurd hreads not_reads_none
    · rintro (⟨htext, -, hc⟩ | ⟨letter, htext, hletter⟩)
      · exact absurd (List.cons.inj htext).1.symm hc
      · obtain rfl := (List.cons.inj (List.cons.inj htext).2).1
        cases hletter
  · rename_i letter behind hletter
    cases hescape : letterEscape letter with
    | none =>
        simp only [bind, Option.bind, not_reads_none, false_iff]
        rintro (⟨htext, -, hc⟩ | ⟨other, htext, hother⟩)
        · exact hc (List.cons.inj htext).1.symm
        · obtain rfl := (List.cons.inj (List.cons.inj htext).2).1
          rw [hescape] at hother
          cases hother
    | some decoded =>
        simp only [bind, Option.bind, reads_pure_iff, Piece.char.injEq]
        constructor
        · rintro ⟨rfl, rfl⟩
          exact .inr ⟨letter, rfl, hescape⟩
        · rintro (⟨htext, -, hc⟩ | ⟨other, htext, hother⟩)
          · exact absurd (List.cons.inj htext).1.symm hc
          · obtain ⟨rfl, rfl⟩ := List.cons.inj (List.cons.inj htext).2
            rw [hescape] at hother
            exact ⟨(Option.some.inj hother).symm, rfl⟩
  · rename_i d behind hunicode hescape
    split
    · rename_i hd
      simp only [not_reads_none, false_iff]
      rintro (⟨htext, hcontrol, hc⟩ | ⟨letter, htext, -⟩)
      · obtain ⟨rfl, rfl⟩ := List.cons.inj htext
        rcases hd with hlow | hbackslash
        · omega
        · exact hc hbackslash
      · obtain ⟨rfl, rfl⟩ := List.cons.inj htext
        exact hescape letter rest rfl rfl
    · rename_i hd
      simp only [not_or, Nat.not_lt] at hd
      simp only [reads_some_iff, Piece.char.injEq]
      constructor
      · rintro ⟨rfl, rfl⟩
        exact .inl ⟨rfl, hd⟩
      · rintro (⟨htext, -⟩ | ⟨letter, htext, -⟩)
        · obtain ⟨rfl, rfl⟩ := List.cons.inj htext
          exact ⟨rfl, rfl⟩
        · exact absurd (List.cons.inj htext).1 hd.2
  · simp

/-- A piece that is a code unit is an escape by four digits. -/
theorem reads_piece_unit_iff {code : Nat} :
    Reads (piece text) (.unit code) rest ↔
      ∃ digits, text = '\\' :: 'u' :: digits ++ rest ∧
        StringPiece.unitValue? digits = some code := by
  have hshape : Reads (piece text) (.unit code) rest ↔
      ∃ behind, text = '\\' :: 'u' :: behind ∧
        ∃ hrest, Text.codeUnit behind = some (code, ⟨rest, hrest⟩) := by
    rw [piece.eq_def]
    split
    · rename_i digits
      split
      · rename_i unit behind hunit
        simp only [reads_some_iff, Piece.unit.injEq]
        constructor
        · rintro ⟨rfl, rfl⟩
          exact ⟨digits, rfl, behind.2, hunit⟩
        · rintro ⟨_, htext, hrest, hcode⟩
          obtain rfl := (List.cons.inj (List.cons.inj htext).2).2
          rw [hunit] at hcode
          cases hcode
          exact ⟨rfl, rfl⟩
      · rename_i hunit
        constructor
        · intro hreads
          split at hreads
          · simp at hreads
          · exact absurd hreads not_reads_none
        · rintro ⟨_, htext, hrest, hcode⟩
          obtain rfl := (List.cons.inj (List.cons.inj htext).2).2
          rw [hunit] at hcode
          cases hcode
    · rename_i letter behind hletter
      constructor
      · intro hreads
        cases hescape : letterEscape letter with
        | none =>
            rw [hescape] at hreads
            exact absurd hreads not_reads_none
        | some decoded =>
            rw [hescape] at hreads
            cases (reads_pure_iff.mp hreads).1
      · rintro ⟨_, htext, -⟩
        exact absurd (List.cons.inj (List.cons.inj htext).2).1 hletter
    · rename_i hunicode hescape
      constructor
      · intro hreads
        split at hreads
        · exact absurd hreads not_reads_none
        · cases (reads_some_iff.mp hreads).1
      · rintro ⟨_, htext, -⟩
        obtain ⟨rfl, rfl⟩ := List.cons.inj htext
        exact absurd rfl (hunicode _ rfl)
    · simp
  rw [hshape]
  simp only [StringPiece.codeUnit_eq_some_iff]
  constructor
  · rintro ⟨_, rfl, digits, rfl, hdigits⟩
    exact ⟨digits, rfl, hdigits⟩
  · rintro ⟨digits, rfl, hdigits⟩
    exact ⟨_, rfl, digits, rfl, hdigits⟩

theorem reads_pieces_nil_iff : Reads (pieces text) [] rest ↔ text = '"' :: rest := by
  rw [pieces.eq_def]
  split
  · rename_i behind
    simp [eq_comm]
  · rename_i hopen
    simp only [reads_bind_iff, reads_pure_iff, List.nil_eq, reduceCtorEq]
    constructor
    · rintro ⟨_, _, _, _, _, _, hnil, -⟩
      cases hnil
    · rintro rfl
      exact absurd rfl (hopen rest)

theorem reads_pieces_cons_iff {first : Piece} {more : List Piece} :
    Reads (pieces text) (first :: more) rest ↔
      text.head? ≠ some '"' ∧ ∃ behind, Reads (piece text) first behind ∧
        Reads (pieces behind) more rest := by
  rw [pieces.eq_def]
  split
  · simp
  · rename_i hopen
    have hhead : text.head? ≠ some '"' := by
      cases text with
      | nil => simp
      | cons c behind =>
          rintro ⟨rfl⟩
          exact hopen behind rfl
    simp only [reads_bind_iff, reads_pure_iff, List.cons.injEq, hhead, ne_eq, not_false_eq_true,
      true_and]
    constructor
    · rintro ⟨_, behind, hfirst, _, _, hmore, ⟨rfl, rfl⟩, rfl⟩
      exact ⟨behind, hfirst, hmore⟩
    · rintro ⟨behind, hfirst, hmore⟩
      exact ⟨first, behind, hfirst, more, rest, hmore, ⟨rfl, rfl⟩, rfl⟩

end ArrayPatch.Json

/-! ## Strings -/

namespace ArrayPatch.Grammar.StringPiece

/-- The text of a token, piece by piece. -/
theorem jsonText?_cons_eq_some_iff {piece : StringPiece} {pieces : List StringPiece}
    {value : Text} :
    jsonText? (piece :: pieces) = some value ↔
      piece.isJson ∧ ∃ c behind, piece.value? = some c ∧ jsonText? pieces = some behind ∧
        value = c :: behind := by
  simp only [jsonText?, List.all_cons, Bool.and_eq_true, Option.ite_none_right_eq_some,
    meaning?_cons, Option.bind_eq_some_iff, Option.map_eq_some_iff]
  constructor
  · rintro ⟨⟨hpiece, hpieces⟩, c, hc, behind, hbehind, rfl⟩
    exact ⟨hpiece, c, behind, hc, ⟨hpieces, hbehind⟩, rfl⟩
  · rintro ⟨hpiece, c, behind, hc, ⟨hpieces, hbehind⟩, rfl⟩
    exact ⟨⟨hpiece, hpieces⟩, c, hc, behind, hbehind, rfl⟩

/-- A token without raw control characters stands for a text like any other. -/
theorem isSome_meaning?_of_jsonText? {pieces : List StringPiece} {value : Text}
    (htext : jsonText? pieces = some value) : (meaning? pieces).isSome := by
  rw [jsonText?, Option.ite_none_right_eq_some] at htext
  rw [htext.2]
  rfl

end ArrayPatch.Grammar.StringPiece

namespace ArrayPatch.Json

open Grammar

variable {text rest : Text}

/-- A text goes on with the body of a token that stands for a text, and then with
the closing mark. -/
def SpellsBody (text value rest : Text) : Prop :=
  ∃ tokens, text = StringPiece.bodyText tokens ++ '"' :: rest ∧
    StringPiece.jsonText? tokens = some value

theorem SpellsBody.cons (token : StringPiece) {c : Char} {value : Text}
    (hjson : token.isJson) (hvalue : token.value? = some c) (hbody : SpellsBody text value rest) :
    SpellsBody (token.text ++ text) (c :: value) rest := by
  obtain ⟨tokens, rfl, htokens⟩ := hbody
  refine ⟨token :: tokens, ?_, ?_⟩
  · rw [StringPiece.bodyText_cons, List.append_assoc]
  · exact StringPiece.jsonText?_cons_eq_some_iff.mpr ⟨hjson, c, value, hvalue, htokens, rfl⟩

/-- A code unit outside the surrogates stands for its character whatever follows. -/
theorem spell_unit_cons {code : Nat} (hhigh : Text.isHighSurrogate code = false)
    (hlow : Text.isLowSurrogate code = false) (more : List Piece) :
    spell (.unit code :: more) = (spell more).map (Char.ofNat code :: ·) := by
  rcases more with _ | ⟨_ | _ | _, more⟩
  all_goals simp [spell, hhigh, hlow]

/-- A string that stands for a text is read from a token. -/
theorem spellsBody_of_reads {found : List Piece} {value : Text}
    (hreads : Reads (pieces text) found rest) (hspell : spell found = some value) :
    SpellsBody text value rest := by
  induction found using spell.induct generalizing text value with
  | case1 =>
      obtain rfl := reads_pieces_nil_iff.mp hreads
      cases hspell
      exact ⟨[], rfl, rfl⟩
  | case2 more => cases hspell
  | case3 c more ih =>
      obtain ⟨hhead, behind, hfirst, hmore⟩ := reads_pieces_cons_iff.mp hreads
      rw [spell, Option.map_eq_some_iff] at hspell
      obtain ⟨value, hspell, rfl⟩ := hspell
      have hbody := ih hmore hspell
      rcases reads_piece_char_iff.mp hfirst with ⟨rfl, hcontrol, hc⟩ | ⟨letter, rfl, hletter⟩
      · refine hbody.cons (.plain c) (decide_eq_true hcontrol) ?_
        rw [StringPiece.value?, if_neg]
        rintro (rfl | hbackslash)
        · exact hhead rfl
        · exact hc hbackslash
      · exact hbody.cons (.letter letter) rfl hletter
  | case4 high low more hhigh hlow ih =>
      -- Two surrogates are two pieces of the reader but one of the grammar.
      obtain ⟨-, behind, hfirst, hbehind⟩ := reads_pieces_cons_iff.mp hreads
      obtain ⟨-, last, hsecond, hmore⟩ := reads_pieces_cons_iff.mp hbehind
      obtain ⟨first, rfl, hfirstUnit⟩ := reads_piece_unit_iff.mp hfirst
      obtain ⟨second, rfl, hsecondUnit⟩ := reads_piece_unit_iff.mp hsecond
      rw [spell, if_pos hhigh, if_pos hlow, Option.map_eq_some_iff] at hspell
      obtain ⟨value, hspell, rfl⟩ := hspell
      have hpair := StringPiece.value?_pair_eq_some_iff.mpr
        ⟨high, low, hfirstUnit, hsecondUnit, hhigh, hlow, rfl⟩
      have hbody := (ih hmore hspell).cons (.pair first second) rfl hpair
      rwa [StringPiece.text, List.append_assoc] at hbody
  | case5 high low more hhigh hlow => simp [spell, hhigh, hlow] at hspell
  | case6 high low more hhigh hlow => simp [spell, hhigh, hlow] at hspell
  | case7 high low more hhigh hlow ih =>
      -- The next piece is a code unit as well, but not the other half of this one.
      obtain ⟨-, behind, hfirst, hmore⟩ := reads_pieces_cons_iff.mp hreads
      obtain ⟨digits, rfl, hdigits⟩ := reads_piece_unit_iff.mp hfirst
      rw [spell, if_neg hhigh, if_neg hlow, Option.map_eq_some_iff] at hspell
      obtain ⟨value, hspell, rfl⟩ := hspell
      rw [Bool.not_eq_true] at hhigh hlow
      have hunit := StringPiece.value?_unit_eq_some_iff.mpr ⟨high, hdigits, hhigh, hlow, rfl⟩
      exact (ih hmore hspell).cons (.unit digits) rfl hunit
  | case8 code more hpair hsurrogate =>
      rw [spell, if_pos hsurrogate] at hspell
      · cases hspell
      · exact hpair
  | case9 code more hpair hsurrogate ih =>
      obtain ⟨-, behind, hfirst, hmore⟩ := reads_pieces_cons_iff.mp hreads
      obtain ⟨digits, rfl, hdigits⟩ := reads_piece_unit_iff.mp hfirst
      rw [Bool.not_eq_true, Bool.or_eq_false_iff] at hsurrogate
      rw [spell_unit_cons hsurrogate.1 hsurrogate.2, Option.map_eq_some_iff] at hspell
      obtain ⟨value, hspell, rfl⟩ := hspell
      have hunit := StringPiece.value?_unit_eq_some_iff.mpr
        ⟨code, hdigits, hsurrogate.1, hsurrogate.2, rfl⟩
      exact (ih hmore hspell).cons (.unit digits) rfl hunit

/-- A token that stands for a text is read as a string. -/
theorem exists_reads_of_spellsBody {value : Text} (hbody : SpellsBody text value rest) :
    ∃ found, Reads (pieces text) found rest ∧ spell found = some value := by
  obtain ⟨tokens, rfl, htokens⟩ := hbody
  induction tokens generalizing value with
  | nil =>
      cases htokens
      exact ⟨[], reads_pieces_nil_iff.mpr rfl, rfl⟩
  | cons token tokens ih =>
      obtain ⟨hjson, c, value, hc, hbehind, rfl⟩ :=
        StringPiece.jsonText?_cons_eq_some_iff.mp htokens
      obtain ⟨more, hmore, hspell⟩ := ih hbehind
      rw [StringPiece.bodyText_cons, List.append_assoc]
      cases token with
      | plain d =>
          rw [StringPiece.value?, Option.ite_none_left_eq_some, not_or] at hc
          obtain ⟨⟨hquote, hbackslash⟩, hsame⟩ := hc
          cases hsame
          refine ⟨.char c :: more, reads_pieces_cons_iff.mpr ⟨?_, _, ?_, hmore⟩, ?_⟩
          · simpa [StringPiece.text] using hquote
          · exact reads_piece_char_iff.mpr (.inl ⟨rfl, of_decide_eq_true hjson, hbackslash⟩)
          · rw [spell, hspell]
            rfl
      | letter letter =>
          refine ⟨.char c :: more, reads_pieces_cons_iff.mpr ⟨?_, _, ?_, hmore⟩, ?_⟩
          · simp [StringPiece.text]
          · exact reads_piece_char_iff.mpr (.inr ⟨letter, rfl, hc⟩)
          · rw [spell, hspell]
            rfl
      | unit digits =>
          obtain ⟨code, hdigits, hhigh, hlow, rfl⟩ := StringPiece.value?_unit_eq_some_iff.mp hc
          refine ⟨.unit code :: more, reads_pieces_cons_iff.mpr ⟨?_, _, ?_, hmore⟩, ?_⟩
          · simp [StringPiece.text]
          · exact reads_piece_unit_iff.mpr ⟨digits, rfl, hdigits⟩
          · rw [spell_unit_cons hhigh hlow, hspell]
            rfl
      | pair first second =>
          obtain ⟨high, low, hfirst, hsecond, hhigh, hlow, rfl⟩ :=
            StringPiece.value?_pair_eq_some_iff.mp hc
          have hlast : Reads (pieces ('\\' :: 'u' :: second ++
              (StringPiece.bodyText tokens ++ '"' :: rest))) (.unit low :: more) rest :=
            reads_pieces_cons_iff.mpr
              ⟨by simp, _, reads_piece_unit_iff.mpr ⟨second, rfl, hsecond⟩, hmore⟩
          refine ⟨.unit high :: .unit low :: more,
            reads_pieces_cons_iff.mpr ⟨?_, _, ?_, hlast⟩, ?_⟩
          · simp [StringPiece.text]
          · exact reads_piece_unit_iff.mpr ⟨first, by simp [StringPiece.text], hfirst⟩
          · rw [spell, if_pos hhigh, if_pos hlow, hspell]
            rfl

theorem reads_string_iff_pieces {result : Option Text} :
    Reads (string text) result rest ↔
      ∃ body, text = '"' :: body ∧ ∃ found, Reads (pieces body) found rest ∧
        spell found = result := by
  rw [string.eq_def]
  split
  · rename_i body
    simp only [reads_bind_iff, reads_pure_iff]
    constructor
    · rintro ⟨found, _, hreads, hspell, rfl⟩
      exact ⟨body, rfl, found, hreads, hspell.symm⟩
    · rintro ⟨_, heq, found, hreads, hspell⟩
      cases heq
      exact ⟨found, rest, hreads, hspell.symm, rfl⟩
  · rename_i hopen
    simp only [not_reads_none, false_iff]
    rintro ⟨body, rfl, -⟩
    exact hopen body rfl

/-- A string that stands for a text is exactly a token without raw control
characters. -/
theorem reads_string_iff {value : Text} :
    Reads (string text) (some value) rest ↔
      ∃ tokens, text = StringPiece.tokenText tokens ++ rest ∧
        StringPiece.jsonText? tokens = some value := by
  rw [reads_string_iff_pieces]
  constructor
  · rintro ⟨body, rfl, found, hreads, hspell⟩
    obtain ⟨tokens, rfl, htokens⟩ := spellsBody_of_reads hreads hspell
    exact ⟨tokens, by simp [StringPiece.tokenText], htokens⟩
  · rintro ⟨tokens, rfl, htokens⟩
    obtain ⟨found, hreads, hspell⟩ := exists_reads_of_spellsBody ⟨tokens, rfl, htokens⟩
    exact ⟨_, by simp [StringPiece.tokenText], found, hreads, hspell⟩

end ArrayPatch.Json
