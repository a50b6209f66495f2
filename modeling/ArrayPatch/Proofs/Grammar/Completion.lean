import ArrayPatch.Proofs.Grammar.Completeness
import ArrayPatch.Proofs.Grammar.Soundness
import ArrayPatch.Proofs.Scan.Failures

/-!
# What stands before a fault can be completed

A text on which the scanner fails is right up to the fault: what stands there
is the start of a well-formed value.  If the text ends too early this is all of
it, and otherwise it is what stands before the offset of the fault.  What the
scanner has found by then are the sites of those objects of the completed value
that close before the fault.

For every reader of the scanner there is one lemma that completes what it has
read.  Where a value is missing a digit is put, where a member is missing the
empty key with a digit, an open token gets its mark, and every array and object
around is closed.  A token that breaks off behind a backslash is completed by
the letter `n`, and a high surrogate by a low one.
-/

namespace ArrayPatch

open Grammar

/-- The flaws of a text that ends too early.  They are reported at the start of
what is left open. -/
def Flaw.isUnterminated : Flaw → Bool
  | .unterminatedString | .unterminatedArray | .unterminatedObject => true
  | _ => false

/-- A cursor is where the text goes wrong: at its end if it ends too early, and
otherwise at the offset of the fault. -/
def Fault.IsAt (fault : Fault) (cursor : Cursor) : Prop :=
  if fault.flaw.isUnterminated then cursor.rest = [] else cursor.offset = fault.offset

/-- What stands between a cursor and a fault is the start of a text of a kind,
of which something is missing. -/
def Cursor.Completes (cursor : Cursor) (fault : Fault) (kind : Text → Prop) : Prop :=
  ∃ front place suffix, cursor.Passes front place ∧ fault.IsAt place ∧ suffix ≠ [] ∧
    kind (front ++ suffix)

namespace Cursor

variable {cursor mid : Cursor} {fault : Fault} {kind other : Text → Prop}

theorem Passes.refl (cursor : Cursor) : cursor.Passes [] cursor :=
  passes_nil_iff.mpr rfl

/-- A text that can be completed stays so with a text before it, and with the
completion a text behind it. -/
theorem Completes.around {before : Text} (hpasses : cursor.Passes before mid)
    (hmid : mid.Completes fault kind) (behind : Text)
    (hkind : ∀ text, kind text → other (before ++ text ++ behind)) :
    cursor.Completes fault other := by
  obtain ⟨front, place, suffix, hfront, hplace, hsuffix, htext⟩ := hmid
  refine ⟨before ++ front, place, suffix ++ behind, hpasses.trans hfront, hplace,
    List.append_ne_nil_of_left_ne_nil hsuffix behind, ?_⟩
  simpa using hkind _ htext

theorem Completes.behind {before : Text} (hpasses : cursor.Passes before mid)
    (hmid : mid.Completes fault kind) (hkind : ∀ text, kind text → other (before ++ text)) :
    cursor.Completes fault other :=
  hmid.around hpasses [] fun text htext => by simpa using hkind text htext

/-- A text at whose start the fault is met is completed by any text of the kind. -/
theorem Completes.here {c : Char} {suffix : Text} (hplace : fault.IsAt cursor)
    (hkind : kind (c :: suffix)) : cursor.Completes fault kind :=
  ⟨[], cursor, c :: suffix, .refl cursor, hplace, List.cons_ne_nil c suffix, hkind⟩

end Cursor

theorem Cursor.Passes.offset_eq_of_char {cursor next : Cursor} {blanks : Text} {c : Char}
    (hpasses : cursor.Passes (blanks ++ [c]) next) (hwidth : c.utf8Size = 1) :
    next.offset = cursor.offset + blanks.size + 1 := by
  rw [hpasses.offset_eq, Text.size_append, Text.size_cons, hwidth, Text.size_nil, Nat.add_assoc]

/-! ## Kinds of texts -/

namespace Grammar

/-- The text of a token that stands for a text. -/
def IsTokenText (text : Text) : Prop :=
  ∃ pieces, text = StringPiece.tokenText pieces ∧ (StringPiece.meaning? pieces).isSome

/-- Blanks and the text of a value up to some depth, which start at an offset,
and the objects of the value. -/
def IsValueText (depth offset : Nat) (objects : List Placed) (text : Text) : Prop :=
  ∃ (blanks : Text) (tree : Tree), text = blanks ++ tree.text ∧ AllBlank blanks ∧
    tree.WellFormed ∧ tree.depth ≤ depth ∧ objects = tree.objects (offset + blanks.size)

/-- The text of a member up to some depth, and the objects of its value. -/
def IsMemberText (depth offset : Nat) (objects : List Placed) (text : Text) : Prop :=
  ∃ member : Member, text = member.text ∧ member.WellFormed ∧ member.depth ≤ depth ∧
    objects = member.objects offset

/-- The rest of an array behind an element, and its objects. -/
def IsElementsText (depth offset : Nat) (objects : List Placed) (text : Text) : Prop :=
  ∃ more : Elements, text = more.text ∧ more.WellFormed ∧ more.depth ≤ depth ∧
    objects = more.objects offset

/-- The rest of an object behind a member, and the objects inside it. -/
def IsMembersText (depth offset : Nat) (objects : List Placed) (text : Text) : Prop :=
  ∃ more : Members, text = more.text ∧ more.WellFormed ∧ more.depth ≤ depth ∧
    objects = more.objects offset

variable {depth offset : Nat} {objects others : List Placed}
variable {before blanks text value key member more : Text}

theorem isValueText_digit (depth offset : Nat) : IsValueText depth offset [] ['0'] := by
  refine ⟨[], .literal ['0'], rfl, allBlank_nil, ⟨?_, '0', [], rfl, ?_⟩, Nat.zero_le depth, rfl⟩
  · intro c hc
    obtain rfl := List.mem_singleton.mp hc
    simp [IsDelimiter, isBlank]
  · decide

theorem IsTokenText.isValueText (htoken : IsTokenText text) :
    IsValueText depth offset [] text := by
  obtain ⟨pieces, rfl, hmeaning⟩ := htoken
  exact ⟨[], .string pieces, rfl, allBlank_nil, hmeaning, Nat.zero_le depth, rfl⟩

theorem IsValueText.append (hblanks : AllBlank blanks)
    (hvalue : IsValueText depth (offset + blanks.size) objects text) :
    IsValueText depth offset objects (blanks ++ text) := by
  obtain ⟨more, tree, rfl, hmore, hwell, hdepth, rfl⟩ := hvalue
  refine ⟨blanks ++ more, tree, (List.append_assoc ..).symm, hblanks.append hmore, hwell, hdepth,
    ?_⟩
  rw [Text.size_append, Nat.add_assoc]

theorem IsTokenText.isMemberText (hkey : IsTokenText key) (hbefore : AllBlank before)
    (hvalue : IsValueText depth (offset + key.size + before.size + 1) objects value) :
    IsMemberText depth offset objects (key ++ (before ++ ':' :: value)) := by
  obtain ⟨pieces, rfl, hmeaning⟩ := hkey
  obtain ⟨after, tree, rfl, hafter, hwell, hdepth, rfl⟩ := hvalue
  exact ⟨.mk pieces before after tree, by simp [Member.text], ⟨hmeaning, hbefore, hafter, hwell⟩,
    hdepth, rfl⟩

theorem isMemberText_digit (depth offset : Nat) :
    IsMemberText depth offset [] ['"', '"', ':', '0'] :=
  IsTokenText.isMemberText ⟨[], rfl, rfl⟩ allBlank_nil (isValueText_digit depth _)

theorem isElementsText_close (hblanks : AllBlank blanks) :
    IsElementsText depth offset [] (blanks ++ [']']) :=
  ⟨.done blanks, rfl, hblanks, Nat.zero_le depth, rfl⟩

theorem IsElementsText.comma (hbefore : AllBlank before)
    (hvalue : IsValueText depth (offset + before.size + 1) objects value)
    (hmore : IsElementsText depth (offset + before.size + 1 + value.size) others more) :
    IsElementsText depth offset (objects ++ others) (before ++ ',' :: (value ++ more)) := by
  obtain ⟨after, tree, rfl, hafter, hwell, hdepth, rfl⟩ := hvalue
  obtain ⟨rest, rfl, hrestWell, hrestDepth, rfl⟩ := hmore
  refine ⟨.more before after tree rest, by simp [Elements.text],
    ⟨hbefore, hafter, hwell, hrestWell⟩, Nat.max_le.mpr ⟨hdepth, hrestDepth⟩, ?_⟩
  rw [Elements.objects, Text.size_append, ← Nat.add_assoc]

theorem isValueText_emptyArray (hblanks : AllBlank blanks) :
    IsValueText (depth + 1) offset [] ('[' :: (blanks ++ [']'])) :=
  ⟨[], .emptyArray blanks, rfl, allBlank_nil, hblanks, Nat.le_add_left 1 depth, rfl⟩

theorem IsValueText.array (hvalue : IsValueText depth (offset + 1) objects value)
    (hmore : IsElementsText depth (offset + 1 + value.size) others more) :
    IsValueText (depth + 1) offset (objects ++ others) ('[' :: (value ++ more)) := by
  obtain ⟨blanks, tree, rfl, hblanks, hwell, hdepth, rfl⟩ := hvalue
  obtain ⟨rest, rfl, hrestWell, hrestDepth, rfl⟩ := hmore
  refine ⟨[], .array blanks tree rest, by simp [Tree.text], allBlank_nil,
    ⟨hblanks, hwell, hrestWell⟩, Nat.succ_le_succ (Nat.max_le.mpr ⟨hdepth, hrestDepth⟩), ?_⟩
  rw [Tree.objects, Text.size_append, Text.size_nil, Nat.add_zero, ← Nat.add_assoc]

theorem isMembersText_close (hblanks : AllBlank blanks) :
    IsMembersText depth offset [] (blanks ++ ['\x7d']) :=
  ⟨.done blanks, rfl, hblanks, Nat.zero_le depth, rfl⟩

theorem IsMembersText.comma (hbefore : AllBlank before) (hblanks : AllBlank blanks)
    (hmember : IsMemberText depth (offset + before.size + 1 + blanks.size) objects member)
    (hmore : IsMembersText depth (offset + before.size + 1 + blanks.size + member.size) others
      more) :
    IsMembersText depth offset (objects ++ others)
      (before ++ ',' :: (blanks ++ (member ++ more))) := by
  obtain ⟨item, rfl, hwell, hdepth, rfl⟩ := hmember
  obtain ⟨rest, rfl, hrestWell, hrestDepth, rfl⟩ := hmore
  exact ⟨.more before blanks item rest, by simp [Members.text],
    ⟨hbefore, hblanks, hwell, hrestWell⟩, Nat.max_le.mpr ⟨hdepth, hrestDepth⟩, rfl⟩

/-- An object comes behind the objects inside it. -/
theorem exists_isValueText_emptyObject (depth offset : Nat) (hblanks : AllBlank blanks) :
    ∃ own : Placed, own.stop = offset + Text.size ('\x7b' :: (blanks ++ ['\x7d'])) ∧
      IsValueText (depth + 1) offset [own] ('\x7b' :: (blanks ++ ['\x7d'])) :=
  ⟨⟨offset, .emptyObject blanks⟩, rfl, [], .emptyObject blanks, rfl, allBlank_nil, hblanks,
    Nat.le_add_left 1 depth, rfl⟩

theorem IsMemberText.exists_object (hblanks : AllBlank blanks)
    (hmember : IsMemberText depth (offset + 1 + blanks.size) objects member)
    (hmore : IsMembersText depth (offset + 1 + blanks.size + member.size) others more) :
    ∃ own : Placed,
      own.stop = offset + Text.size ('\x7b' :: (blanks ++ (member ++ more))) ∧
      IsValueText (depth + 1) offset (objects ++ others ++ [own])
        ('\x7b' :: (blanks ++ (member ++ more))) := by
  obtain ⟨item, rfl, hwell, hdepth, rfl⟩ := hmember
  obtain ⟨rest, rfl, hrestWell, hrestDepth, rfl⟩ := hmore
  have htext : '\x7b' :: (blanks ++ (item.text ++ rest.text)) =
      (Tree.object blanks item rest).text := by
    simp [Tree.text]
  rw [htext]
  exact ⟨⟨offset, .object blanks item rest⟩, rfl, [], .object blanks item rest, rfl, allBlank_nil,
    ⟨hblanks, hwell, hrestWell⟩, Nat.succ_le_succ (Nat.max_le.mpr ⟨hdepth, hrestDepth⟩), rfl⟩

end Grammar

/-! ## Tokens -/

namespace StringToken

open StringPiece

variable {opening offset : Nat} {text : Text} {fault : Fault}

/-- What is left of the text of a token behind its mark. -/
def IsBodyText (text : Text) : Prop :=
  ∃ pieces, text = bodyText pieces ++ ['"'] ∧ (meaning? pieces).isSome

theorem isBodyText_close : IsBodyText ['"'] :=
  ⟨[], rfl, rfl⟩

theorem IsBodyText.piece {piece : StringPiece} {c : Char} (hvalue : piece.value? = some c)
    (hbody : IsBodyText text) : IsBodyText (piece.text ++ text) := by
  obtain ⟨pieces, rfl, hmeaning⟩ := hbody
  obtain ⟨meaning, hmeaning⟩ := Option.isSome_iff_exists.mp hmeaning
  exact ⟨piece :: pieces, by simp, by simp [hvalue, hmeaning]⟩

theorem isBodyText_piece {piece : StringPiece} {c : Char} (hvalue : piece.value? = some c) :
    IsBodyText (piece.text ++ ['"']) :=
  isBodyText_close.piece hvalue

/-- A high surrogate is completed by a low one. -/
theorem exists_value?_pair {digits : Text} {code : Nat} (hdigits : unitValue? digits = some code)
    (hhigh : Text.isHighSurrogate code = true) :
    ∃ c, (pair digits ['d', 'c', '0', '0']).value? = some c :=
  ⟨_, value?_pair_eq_some_iff.mpr ⟨code, 0xDC00, hdigits, rfl, hhigh, rfl, rfl⟩⟩

/-- What is read of an escape can be completed. -/
theorem completes_of_readEscape_eq_error
    (hread : readEscape opening offset text = .error fault) :
    (Cursor.mk offset ('\\' :: text)).Completes fault IsBodyText := by
  have hhere : Fault.IsAt fault ⟨offset, '\\' :: text⟩ →
      (Cursor.mk offset ('\\' :: text)).Completes fault IsBodyText := fun hplace =>
    .here hplace isBodyText_close
  rcases cases_of_readEscape_eq_error hread with
    ⟨rfl, rfl⟩ | ⟨c, rest, rfl, -, -, rfl⟩ | ⟨rest, rfl, hunicode⟩
  · exact ⟨['\\'], ⟨offset + 1, []⟩, ['n', '"'], ⟨rfl, rfl⟩, rfl, List.cons_ne_nil _ _,
      isBodyText_piece (show (letter 'n').value? = some '\n' from rfl)⟩
  · exact hhere rfl
  · rcases cases_of_readUnicode_eq_error hunicode with
      rfl | ⟨digits, code, more, rfl, hdigits, hhigh, rfl⟩
    · exact hhere rfl
    · obtain ⟨c, hpair⟩ := exists_value?_pair hdigits hhigh
      refine ⟨(unit digits).text, ⟨offset + 6, '\\' :: 'u' :: more⟩,
        ['\\', 'u', 'd', 'c', '0', '0', '"'], ⟨rfl, ?_⟩, rfl, List.cons_ne_nil _ _, ?_⟩
      · rw [size_text_unit hdigits]
      · simpa [StringPiece.text] using isBodyText_piece hpair

/-- What is read of the body of a token can be completed. -/
theorem completes_of_readBody_eq_error (hread : readBody opening offset text = .error fault) :
    (Cursor.mk offset text).Completes fault IsBodyText := by
  induction hlength : text.length using Nat.strongRecOn generalizing text offset with
  | ind length ih =>
    rcases cases_of_readBody_eq_error hread with
      ⟨rfl, rfl⟩ | ⟨rest, rfl, hescape⟩ | ⟨piece, c, rest, rfl, hvalue, hrest⟩
    · exact .here rfl isBodyText_close
    · exact completes_of_readEscape_eq_error hescape
    · have hshorter : rest.length < length := by
        have hpiece : piece.text ≠ [] := by cases piece <;> simp [StringPiece.text]
        have hpositive := List.length_pos_iff.mpr hpiece
        rw [List.length_append] at hlength
        omega
      have hpasses : (Cursor.mk offset (piece.text ++ rest)).Passes piece.text
          ⟨offset + piece.text.size, rest⟩ := ⟨rfl, rfl⟩
      exact (ih _ hshorter hrest rfl).behind hpasses fun _ hbody => hbody.piece hvalue

/-- What is read of a token can be completed. -/
theorem completes_of_read_eq_error {cursor : Cursor} (hquote : cursor.rest.head? = some '"')
    (hread : read cursor = .error fault) : cursor.Completes fault IsTokenText := by
  rcases cases_of_read_eq_error hread with ⟨hother, -⟩ | ⟨rest, hrest, hbody⟩
  · exact absurd hquote hother
  · have hpasses : cursor.Passes ['"'] ⟨cursor.offset + 1, rest⟩ := ⟨hrest, rfl⟩
    refine (completes_of_readBody_eq_error hbody).behind hpasses ?_
    rintro _ ⟨pieces, rfl, hmeaning⟩
    exact ⟨pieces, rfl, hmeaning⟩

end StringToken

/-! ## Objects before a fault -/

/-- What stands between a cursor and a fault is the start of a text of a kind,
of which something is missing, and the sites found are those reported for the
objects of that text that close before the fault. -/
def Cursor.Closes (settings : Settings) (cursor : Cursor) (fault : Fault) (found : List Site)
    (kind : Nat → List Placed → Text → Prop) : Prop :=
  ∃ front place suffix closed opened, cursor.Passes front place ∧ fault.IsAt place ∧
    suffix ≠ [] ∧ kind cursor.offset (closed ++ opened) (front ++ suffix) ∧
    (∀ placed ∈ closed, placed.stop ≤ place.offset) ∧
    (∀ placed ∈ opened, place.offset < placed.stop) ∧
    found = closed.filterMap (Placed.reported? settings)

namespace Cursor

variable {settings : Settings} {cursor mid : Cursor} {fault : Fault} {found : List Site}
variable {kind other : Nat → List Placed → Text → Prop} {before : Text} {earlier : List Placed}

/-- A text without objects. -/
theorem Completes.closes {plain : Text → Prop} (hcursor : cursor.Completes fault plain)
    (hkind : ∀ text, plain text → kind cursor.offset [] text) :
    cursor.Closes settings fault [] kind := by
  obtain ⟨front, place, suffix, hfront, hplace, hsuffix, htext⟩ := hcursor
  exact ⟨front, place, suffix, [], [], hfront, hplace, hsuffix, hkind _ htext,
    List.forall_mem_nil _, List.forall_mem_nil _, rfl⟩

theorem Closes.here {c : Char} {suffix : Text} (hpasses : cursor.Passes before mid)
    (hplace : fault.IsAt mid) (hkind : kind cursor.offset [] (before ++ c :: suffix)) :
    cursor.Closes settings fault [] kind :=
  ⟨before, mid, c :: suffix, [], [], hpasses, hplace, List.cons_ne_nil c suffix, hkind,
    List.forall_mem_nil _, List.forall_mem_nil _, rfl⟩

/-- A text with a text before it, whose objects are closed, and with a text
behind it, where more objects are closed. -/
theorem Closes.around (hpasses : cursor.Passes before mid)
    (hearlier : ∀ placed ∈ earlier, placed.stop ≤ mid.offset)
    (hmid : mid.Closes settings fault found kind) (behind : Text)
    (hkind : ∀ objects text, kind mid.offset objects text →
      ∃ later : List Placed, (∀ placed ∈ later, mid.offset + text.size ≤ placed.stop) ∧
        other cursor.offset (earlier ++ (objects ++ later)) (before ++ (text ++ behind))) :
    cursor.Closes settings fault (earlier.filterMap (Placed.reported? settings) ++ found)
      other := by
  obtain ⟨front, place, suffix, closed, opened, hfront, hplace, hsuffix, htext, hclosed, hopened,
    rfl⟩ := hmid
  obtain ⟨later, hlater, hother⟩ := hkind _ _ htext
  have hmidPlace := hfront.offset_eq
  have hmissing := Nat.pos_of_ne_zero (mt Text.size_eq_zero_iff.mp hsuffix)
  refine ⟨before ++ front, place, suffix ++ behind, earlier ++ closed, opened ++ later,
    hpasses.trans hfront, hplace, List.append_ne_nil_of_left_ne_nil hsuffix behind,
    by simpa using hother, ?_, ?_, List.filterMap_append.symm⟩
  · intro placed hplaced
    rcases List.mem_append.mp hplaced with hplaced | hplaced
    · have hstop := hearlier placed hplaced
      omega
    · exact hclosed placed hplaced
  · intro placed hplaced
    rcases List.mem_append.mp hplaced with hplaced | hplaced
    · exact hopened placed hplaced
    · have hstop := hlater placed hplaced
      rw [Text.size_append] at hstop
      omega

theorem Closes.behind (hpasses : cursor.Passes before mid)
    (hearlier : ∀ placed ∈ earlier, placed.stop ≤ mid.offset)
    (hmid : mid.Closes settings fault found kind)
    (hkind : ∀ objects text, kind mid.offset objects text →
      other cursor.offset (earlier ++ objects) (before ++ text)) :
    cursor.Closes settings fault (earlier.filterMap (Placed.reported? settings) ++ found)
      other := by
  apply hmid.around hpasses hearlier []
  intro objects text htext
  refine ⟨[], List.forall_mem_nil _, ?_⟩
  rw [List.append_nil, List.append_nil]
  exact hkind objects text htext

theorem Closes.inside (hpasses : cursor.Passes before mid)
    (hearlier : ∀ placed ∈ earlier, placed.stop ≤ mid.offset)
    (hmid : mid.Closes settings fault found kind) (behind : Text)
    (hkind : ∀ objects text, kind mid.offset objects text →
      ∃ own : Placed, own.stop = cursor.offset + Text.size (before ++ (text ++ behind)) ∧
        other cursor.offset (earlier ++ objects ++ [own]) (before ++ (text ++ behind))) :
    cursor.Closes settings fault (earlier.filterMap (Placed.reported? settings) ++ found)
      other := by
  apply hmid.around hpasses hearlier behind
  intro objects text htext
  obtain ⟨own, hstop, hother⟩ := hkind objects text htext
  refine ⟨[own], ?_, by rwa [← List.append_assoc]⟩
  intro placed hplaced
  obtain rfl := List.mem_singleton.mp hplaced
  rw [hstop, hpasses.offset_eq, Text.size_append, Text.size_append]
  omega

theorem Closes.between (hpasses : cursor.Passes before mid)
    (hmid : mid.Closes settings fault found kind) (behind : Text)
    (hkind : ∀ objects text, kind mid.offset objects text →
      other cursor.offset objects (before ++ (text ++ behind))) :
    cursor.Closes settings fault found other := by
  apply hmid.around hpasses (List.forall_mem_nil _) behind
  intro objects text htext
  refine ⟨[], List.forall_mem_nil _, ?_⟩
  rw [List.append_nil, List.nil_append]
  exact hkind objects text htext

end Cursor

/-! ## Arrays, objects and values -/

namespace Scan

variable {settings : Settings} {depth : Nat} {cursor next : Cursor} {fault : Fault}
variable {found : List Site}

/-- A value that is read: its text, and its objects, which are all closed. -/
theorem exists_isValueText_of_ends (hends : (value settings depth cursor).Ends found next) :
    ∃ text objects, cursor.Passes text next ∧ IsValueText depth cursor.offset objects text ∧
      (∀ placed ∈ objects, placed.stop ≤ next.offset) ∧
      found = objects.filterMap (Placed.reported? settings) := by
  obtain ⟨blanks, tree, hblanks, hpasses, hwell, hdepth, hprecede⟩ := passesValue_of_ends hends
  obtain ⟨start, hstart, htree⟩ := Cursor.passes_append_iff.mp hpasses
  have hskip := Cursor.skipBlanks_eq_of_tree hblanks hstart htree hwell
  obtain ⟨_, hfound⟩ := ends_value_of_tree settings hskip tree htree hwell hdepth hprecede
  obtain ⟨_, hscan⟩ := hends
  cases hscan.symm.trans hfound
  refine ⟨blanks ++ tree.text, tree.objects start.offset, hpasses, ?_, ?_, rfl⟩
  · exact ⟨blanks, tree, rfl, hblanks, hwell, hdepth, by rw [hstart.offset_eq]⟩
  · intro placed hplaced
    have hbounds := (Tree.hasAt_of_mem_objects tree hplaced).bounds
    rw [htree.offset_eq]
    exact hbounds.2

theorem exists_isValueText_of_ends_skipBlanks
    (hends : (value settings depth cursor.skipBlanks).Ends found next) :
    ∃ text objects, cursor.Passes text next ∧ IsValueText depth cursor.offset objects text ∧
      (∀ placed ∈ objects, placed.stop ≤ next.offset) ∧
      found = objects.filterMap (Placed.reported? settings) := by
  obtain ⟨blanks, hblanks, hskip⟩ :=
    Cursor.exists_passes_skipBlanks (rfl : cursor.skipBlanks = _)
  obtain ⟨text, objects, hpasses, hvalue, hrest⟩ := exists_isValueText_of_ends hends
  rw [hskip.offset_eq] at hvalue
  exact ⟨blanks ++ text, objects, hskip.trans hpasses, hvalue.append hblanks, hrest⟩

theorem exists_isMemberText_of_yields {opening : Nat} {slots slotsAfter : Slots}
    (hyields : (member (value settings depth) opening settings slots cursor).Yields found slotsAfter
      next) :
    ∃ text objects, cursor.Passes text next ∧ IsMemberText depth cursor.offset objects text ∧
      (∀ placed ∈ objects, placed.stop ≤ next.offset) ∧
      found = objects.filterMap (Placed.reported? settings) := by
  obtain ⟨key, behind, offset, rest, hreads, hskip, hvalue⟩ := yields_member_iff.mp hyields
  obtain ⟨pieces, hpieces, hmeaning⟩ := StringToken.reads_read_iff_passes.mp hreads
  have hkey : IsTokenText (StringPiece.tokenText pieces) :=
    ⟨pieces, rfl, Option.isSome_iff_exists.mpr ⟨key, hmeaning⟩⟩
  obtain ⟨before, hbefore, hcolon⟩ := Cursor.exists_passes_char hskip rfl
  obtain ⟨text, objects, hpasses, htext, hrest⟩ :
      ∃ text objects, (Cursor.mk (offset + 1) rest).Passes text next ∧
        IsValueText depth (offset + 1) objects text ∧
        (∀ placed ∈ objects, placed.stop ≤ next.offset) ∧
        found = objects.filterMap (Placed.reported? settings) := by
    obtain ⟨c, -, ⟨-, -, rfl, identifier, htoken, -⟩ | ⟨-, hends, -⟩⟩ :=
      yields_memberValue_iff.mp hvalue
    · obtain ⟨blanks, hblanks, hstart⟩ :=
        Cursor.exists_passes_skipBlanks (rfl : (Cursor.mk (offset + 1) rest).skipBlanks = _)
      obtain ⟨token, htoken, hmeaning⟩ := StringToken.reads_read_iff_passes.mp htoken
      refine ⟨_, [], hstart.trans htoken, ?_, List.forall_mem_nil _, rfl⟩
      exact (IsTokenText.isValueText
        ⟨token, rfl, Option.isSome_iff_exists.mpr ⟨identifier, hmeaning⟩⟩).append hblanks
    · exact exists_isValueText_of_ends_skipBlanks hends
  have hoffset : offset + 1 =
      cursor.offset + (StringPiece.tokenText pieces).size + before.size + 1 := by
    have hbehind := hcolon.offset_eq
    rw [hpieces.offset_eq, Text.size_append] at hbehind
    exact hbehind
  rw [hoffset] at htext
  refine ⟨_, objects, (hpieces.trans hcolon).trans hpasses, ?_, hrest⟩
  simpa using hkey.isMemberText hbefore htext

theorem closes_value_of_skipBlanks
    (hvalue : cursor.skipBlanks.Closes settings fault found (IsValueText depth)) :
    cursor.Closes settings fault found (IsValueText depth) := by
  obtain ⟨blanks, hblanks, hskip⟩ :=
    Cursor.exists_passes_skipBlanks (rfl : cursor.skipBlanks = _)
  apply hvalue.between hskip []
  intro objects text htext
  rw [hskip.offset_eq] at htext
  rw [List.append_nil]
  exact htext.append hblanks

theorem closes_value_of_isAt (hplace : fault.IsAt cursor) :
    cursor.Closes settings fault [] (IsValueText depth) :=
  .here (.refl cursor) hplace (isValueText_digit depth _)

section Nested

variable {opening offset : Nat} {rest : Text}

theorem closes_elements_of_isAt (hplace : fault.IsAt cursor.skipBlanks) :
    cursor.Closes settings fault [] (IsElementsText depth) := by
  obtain ⟨blanks, hblanks, hskip⟩ :=
    Cursor.exists_passes_skipBlanks (rfl : cursor.skipBlanks = _)
  exact .here hskip hplace (isElementsText_close hblanks)

theorem closes_elements_of_comma (hskip : cursor.skipBlanks = ⟨offset, ',' :: rest⟩)
    (hvalue : (Cursor.mk (offset + 1) rest).Closes settings fault found (IsValueText depth)) :
    cursor.Closes settings fault found (IsElementsText depth) := by
  obtain ⟨before, hbefore, hcomma⟩ := Cursor.exists_passes_char hskip rfl
  apply hvalue.between hcomma [']']
  intro objects text htext
  rw [hcomma.offset_eq_of_char rfl] at htext
  simpa using IsElementsText.comma hbefore htext (isElementsText_close allBlank_nil)

theorem closes_members_of_isAt (hplace : fault.IsAt cursor.skipBlanks) :
    cursor.Closes settings fault [] (IsMembersText depth) := by
  obtain ⟨blanks, hblanks, hskip⟩ :=
    Cursor.exists_passes_skipBlanks (rfl : cursor.skipBlanks = _)
  exact .here hskip hplace (isMembersText_close hblanks)

variable (hcomplete : ∀ {cursor : Cursor} {fault : Fault} {found : List Site},
  (value settings depth cursor).Fails found fault →
    cursor.Closes settings fault found (IsValueText depth))

include hcomplete

/-- What is read behind an element can be completed. -/
theorem closes_of_fails_moreElements
    (hfails : (moreElements (value settings depth) opening cursor).Fails found fault) :
    cursor.Closes settings fault found (IsElementsText depth) := by
  induction hlength : cursor.rest.length using Nat.strongRecOn generalizing cursor found with
  | ind length ih =>
    rcases fails_moreElements_iff.mp hfails with
      ⟨hend, rfl, rfl⟩ | ⟨offset, c, rest, hskip, hstep⟩
    · exact closes_elements_of_isAt hend
    · rcases hstep with ⟨-, -, rfl, rfl⟩ | ⟨rfl, hend, rfl, rfl⟩ |
        ⟨rfl, -, hitem | ⟨first, mid, hitem, more, hmore, rfl⟩⟩
      · exact closes_elements_of_isAt (by rw [hskip]; rfl)
      · exact closes_elements_of_comma hskip
          (closes_value_of_skipBlanks (closes_value_of_isAt hend))
      · exact closes_elements_of_comma hskip (closes_value_of_skipBlanks (hcomplete hitem))
      · obtain ⟨before, hbefore, hcomma⟩ := Cursor.exists_passes_char hskip rfl
        obtain ⟨text, objects, hpasses, hvalue, hstops, rfl⟩ :=
          exists_isValueText_of_ends_skipBlanks hitem
        have hmid : mid.rest.length < length := by
          have hlt := Cursor.length_lt_of_skipBlanks_eq hskip
          have hshorter := hitem.length_lt
          have hblanks := Cursor.length_skipBlanks_le ⟨offset + 1, rest⟩
          dsimp only at hblanks
          omega
        apply (ih _ hmid hmore rfl).behind (hcomma.trans hpasses) hstops
        intro others rest hrest
        rw [hpasses.offset_eq, hcomma.offset_eq_of_char rfl] at hrest
        rw [hcomma.offset_eq_of_char rfl] at hvalue
        simpa using IsElementsText.comma hbefore hvalue hrest

theorem closes_of_fails_elements
    (hfails : (elements (value settings depth) opening ⟨opening + 1, rest⟩).Fails found fault) :
    (Cursor.mk opening ('[' :: rest)).Closes settings fault found (IsValueText (depth + 1)) := by
  have hopen : (Cursor.mk opening ('[' :: rest)).Passes ['['] ⟨opening + 1, rest⟩ := ⟨rfl, rfl⟩
  rcases fails_elements_iff.mp hfails with ⟨hend, rfl, rfl⟩ | ⟨offset, c, behind, hskip, -, hstep⟩
  · obtain ⟨blanks, hblanks, hpasses⟩ :=
      Cursor.exists_passes_skipBlanks (rfl : (Cursor.mk (opening + 1) rest).skipBlanks = _)
    exact .here (hopen.trans hpasses) hend (isValueText_emptyArray hblanks)
  · rw [← hskip] at hstep
    rcases hstep with hitem | ⟨first, mid, hitem, more, hmore, rfl⟩
    · apply (closes_value_of_skipBlanks (hcomplete hitem)).between hopen [']']
      intro objects text htext
      simpa using htext.array (isElementsText_close allBlank_nil)
    · obtain ⟨text, objects, hpasses, hvalue, hstops, rfl⟩ :=
        exists_isValueText_of_ends_skipBlanks hitem
      apply (closes_of_fails_moreElements hcomplete hmore).behind (hopen.trans hpasses) hstops
      intro others more hmore
      rw [hpasses.offset_eq] at hmore
      exact hvalue.array hmore

variable {slots : Slots} {key : Text} {keyStart : Nat}

theorem closes_of_fails_memberValue
    (hfails : (memberValue (value settings depth) opening settings slots key keyStart
      cursor).Fails found fault) :
    cursor.Closes settings fault found (IsValueText depth) := by
  rcases fails_memberValue_iff.mp hfails with
    ⟨hend, rfl, rfl⟩ | ⟨c, hhead, ⟨rfl, -, rfl, hread⟩ | ⟨-, hvalue⟩⟩
  · exact closes_value_of_isAt hend
  · exact (StringToken.completes_of_read_eq_error hhead hread).closes
      fun text htext => htext.isValueText
  · exact hcomplete hvalue

theorem closes_of_fails_member
    (hfails : (member (value settings depth) opening settings slots cursor).Fails found fault) :
    cursor.Closes settings fault found (IsMemberText depth) := by
  have hmissing (hplace : fault.IsAt cursor) :
      cursor.Closes settings fault [] (IsMemberText depth) :=
    .here (.refl cursor) hplace (isMemberText_digit depth _)
  rcases fails_member_iff.mp hfails with
    ⟨hend, rfl, rfl⟩ | ⟨c, hhead, ⟨-, rfl, rfl⟩ |
      ⟨rfl, ⟨rfl, hread⟩ | ⟨key, behind, hreads, hstep⟩⟩⟩
  · exact hmissing hend
  · exact hmissing rfl
  · refine ((StringToken.completes_of_read_eq_error hhead hread).around (.refl cursor) [':', '0']
      fun text htext => ?_ : cursor.Completes fault fun text => ∃ key, IsTokenText key ∧
        text = key ++ [':', '0']).closes ?_
    · exact ⟨text, htext, rfl⟩
    · rintro _ ⟨key, hkey, rfl⟩
      exact hkey.isMemberText allBlank_nil (isValueText_digit depth _)
  · obtain ⟨pieces, hpasses, hmeaning⟩ := StringToken.reads_read_iff_passes.mp hreads
    have hkey : IsTokenText (StringPiece.tokenText pieces) :=
      ⟨pieces, rfl, Option.isSome_iff_exists.mpr ⟨key, hmeaning⟩⟩
    have hcolon (hplace : fault.IsAt behind.skipBlanks) :
        cursor.Closes settings fault [] (IsMemberText depth) := by
      obtain ⟨before, hbefore, hblanks⟩ :=
        Cursor.exists_passes_skipBlanks (rfl : behind.skipBlanks = _)
      have hmember : IsMemberText depth cursor.offset []
          ((StringPiece.tokenText pieces ++ before) ++ [':', '0']) := by
        rw [List.append_assoc]
        exact hkey.isMemberText hbefore (isValueText_digit depth _)
      exact .here (hpasses.trans hblanks) hplace hmember
    rcases hstep with
      ⟨hend, rfl, rfl⟩ | ⟨offset, c, rest, hskip, ⟨-, rfl, rfl⟩ | ⟨rfl, hvalue⟩⟩
    · exact hcolon hend
    · exact hcolon (by rw [hskip]; rfl)
    · obtain ⟨before, hbefore, hbehind⟩ := Cursor.exists_passes_char hskip rfl
      apply (closes_value_of_skipBlanks (closes_of_fails_memberValue hcomplete hvalue)).between
        (hpasses.trans hbehind) []
      intro objects text htext
      rw [hbehind.offset_eq_of_char rfl, hpasses.offset_eq] at htext
      simpa using hkey.isMemberText hbefore htext

theorem closes_of_fails_moreMembers
    (hfails : (moreMembers (value settings depth) opening settings slots cursor).Fails found
      fault) :
    cursor.Closes settings fault found (IsMembersText depth) := by
  induction hlength : cursor.rest.length using Nat.strongRecOn
    generalizing cursor slots found with
  | ind length ih =>
    rcases fails_moreMembers_iff.mp hfails with
      ⟨hend, rfl, rfl⟩ | ⟨offset, c, rest, hskip, hstep⟩
    · exact closes_members_of_isAt hend
    · rcases hstep with ⟨-, -, rfl, rfl⟩ | ⟨rfl, hstep⟩
      · exact closes_members_of_isAt (by rw [hskip]; rfl)
      · obtain ⟨before, hbefore, hcomma⟩ := Cursor.exists_passes_char hskip rfl
        obtain ⟨after, hafter, hblanks⟩ := Cursor.exists_passes_skipBlanks
          (rfl : (Cursor.mk (offset + 1) rest).skipBlanks = _)
        rcases hstep with hitem | ⟨first, slotsAfter, mid, hitem, more, hmore, rfl⟩
        · apply (closes_of_fails_member hcomplete hitem).between (hcomma.trans hblanks) ['\x7d']
          intro objects text htext
          rw [hblanks.offset_eq, hcomma.offset_eq_of_char rfl] at htext
          simpa using IsMembersText.comma hbefore hafter htext (isMembersText_close allBlank_nil)
        · obtain ⟨text, objects, hpasses, hmember, hstops, rfl⟩ :=
            exists_isMemberText_of_yields hitem
          have hmid : mid.rest.length < length := by
            have hlt := Cursor.length_lt_of_skipBlanks_eq hskip
            have hshorter := hitem.length_lt
            have hblanks := Cursor.length_skipBlanks_le ⟨offset + 1, rest⟩
            dsimp only at hblanks
            omega
          apply (ih _ hmid hmore rfl).behind ((hcomma.trans hblanks).trans hpasses) hstops
          intro others rest hrest
          rw [hpasses.offset_eq, hblanks.offset_eq, hcomma.offset_eq_of_char rfl] at hrest
          rw [hblanks.offset_eq, hcomma.offset_eq_of_char rfl] at hmember
          simpa using IsMembersText.comma hbefore hafter hmember hrest

/-- What is read of an object can be completed.  The object closes only behind
the fault. -/
theorem closes_of_fails_members
    (hfails : (members (value settings depth) opening settings ⟨opening + 1, rest⟩).Fails found
      fault) :
    (Cursor.mk opening ('\x7b' :: rest)).Closes settings fault found (IsValueText (depth + 1)) := by
  have hopen : (Cursor.mk opening ('\x7b' :: rest)).Passes ['\x7b'] ⟨opening + 1, rest⟩ :=
    ⟨rfl, rfl⟩
  obtain ⟨blanks, hblanks, hpasses⟩ :=
    Cursor.exists_passes_skipBlanks (rfl : (Cursor.mk (opening + 1) rest).skipBlanks = _)
  rcases fails_members_iff.mp hfails with ⟨hend, rfl, rfl⟩ | ⟨offset, c, behind, hskip, -, hstep⟩
  · have hmissing : (Cursor.mk (opening + 1) rest).skipBlanks.Closes settings
        ⟨.unterminatedObject, opening⟩ [] fun _ objects text => objects = [] ∧ text = ['\x7d'] :=
      .here (.refl _) hend ⟨rfl, rfl⟩
    apply hmissing.inside (hopen.trans hpasses) (List.forall_mem_nil _) []
    rintro _ _ ⟨rfl, rfl⟩
    simpa using exists_isValueText_emptyObject depth opening hblanks
  · rw [← hskip] at hstep
    rcases hstep with hitem | ⟨first, slots, mid, hitem, more, hmore, rfl⟩
    · apply (closes_of_fails_member hcomplete hitem).inside (hopen.trans hpasses)
        (List.forall_mem_nil _) ['\x7d']
      intro objects text htext
      rw [hpasses.offset_eq] at htext
      simpa using htext.exists_object hblanks (isMembersText_close allBlank_nil)
    · obtain ⟨text, objects, hmid, hmember, hstops, rfl⟩ := exists_isMemberText_of_yields hitem
      apply (closes_of_fails_moreMembers hcomplete hmore).inside
        ((hopen.trans hpasses).trans hmid) hstops []
      intro others more hmore
      rw [hmid.offset_eq, hpasses.offset_eq] at hmore
      rw [hpasses.offset_eq] at hmember
      simpa using hmember.exists_object hblanks hmore

end Nested

/-- What is read of a value can be completed. -/
theorem closes_of_fails_value (hfails : (value settings depth cursor).Fails found fault) :
    cursor.Closes settings fault found (IsValueText depth) := by
  induction depth using Nat.strongRecOn generalizing cursor fault found with
  | ind depth ih =>
    apply closes_value_of_skipBlanks
    rcases fails_value_iff.mp hfails with ⟨-, rfl, rfl⟩ | ⟨offset, c, rest, hskip, hstep⟩
    · exact closes_value_of_isAt rfl
    · rw [hskip]
      rcases hstep with ⟨rfl, ⟨-, rfl, rfl⟩ | ⟨below, rfl, hobject⟩⟩ |
        ⟨rfl, ⟨-, rfl, rfl⟩ | ⟨below, rfl, harray⟩⟩ | ⟨rfl, rfl, hstring⟩ |
        ⟨-, -, -, rfl, -, rfl⟩
      · exact closes_value_of_isAt rfl
      · exact closes_of_fails_members (ih below (Nat.lt_succ_self below)) hobject
      · exact closes_value_of_isAt rfl
      · exact closes_of_fails_elements (ih below (Nat.lt_succ_self below)) harray
      · exact (StringToken.completes_of_read_eq_error rfl hstring).closes
          fun text htext => htext.isValueText
      · exact closes_value_of_isAt rfl

end Scan

end ArrayPatch
