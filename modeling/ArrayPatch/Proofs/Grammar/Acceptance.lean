import ArrayPatch.Proofs.Grammar.Document
import ArrayPatch.Proofs.Site.Index
import ArrayPatch.Proofs.Text.Bytes

/-!
# The language of the scanner

A value is read from an offset exactly if a run of blanks and the text of a
well-formed syntax tree stand there.  The offset may also lie inside a
character; what the scanner reads from there is a literal that starts with the
last bytes of the character, and to say this the language is stated in bytes.

For whole documents the offset is zero, so the statement needs no bytes: the
document is accepted exactly if it is blanks, a tree and blanks.
-/

namespace ArrayPatch

open Grammar

namespace Grammar

/-- The characters that start a value which is no literal. -/
def IsOpening (c : Char) : Prop :=
  c = '\x7b' ∨ c = '[' ∨ c = '"'

/-- A run of bytes is a value in front of other bytes: a longest run without
delimiters that does not start like another value, or the bytes of a syntax
tree up to some depth that is no literal. -/
inductive IsValueBytes (depth : Nat) : (run after : List UInt8) → Prop where
  | literal {run after : List UInt8} (hnonempty : run ≠ [])
      (hrun : ∀ b ∈ run, ¬ Text.IsByteOf IsDelimiter b)
      (hhead : ∀ b ∈ run.head?, ¬ Text.IsByteOf IsOpening b)
      (hafter : ∀ b ∈ after.head?, Text.IsByteOf IsDelimiter b) : IsValueBytes depth run after
  | nested {tree : Tree} {after : List UInt8} (hliteral : ∀ text, tree ≠ .literal text)
      (hwell : tree.WellFormed) (hdepth : tree.depth ≤ depth) :
      IsValueBytes depth tree.text.bytes after

/-- Blanks and a value stand in front of some bytes. -/
def StartsWithValue (depth : Nat) (bytes blanks run after : List UInt8) : Prop :=
  bytes = blanks ++ run ++ after ∧ (∀ b ∈ blanks, Text.IsByteOf (isBlank ·) b) ∧
    IsValueBytes depth run after

theorem utf8Size_of_isDelimiter {c : Char} (hc : IsDelimiter c) : c.utf8Size = 1 := by
  rcases hc with hblank | rfl | rfl | rfl
  · exact utf8Size_of_isBlank hblank
  · rfl
  · rfl
  · rfl

theorem utf8Size_of_isOpening {c : Char} (hc : IsOpening c) : c.utf8Size = 1 := by
  rcases hc with rfl | rfl | rfl <;> rfl

theorem agrees_isDelimiter : Text.Agrees (Text.IsByteOf IsDelimiter) IsDelimiter :=
  Text.agrees_isByteOf fun _ => utf8Size_of_isDelimiter

theorem agrees_isOpening : Text.Agrees (Text.IsByteOf IsOpening) IsOpening :=
  Text.agrees_isByteOf fun _ => utf8Size_of_isOpening

/-- A literal does not start like another value. -/
theorem isLiteral_iff_isOpening {text : Text} :
    IsLiteral text ↔
      text ≠ [] ∧ (∀ c ∈ text, ¬ IsDelimiter c) ∧ ∀ c ∈ text.head?, ¬ IsOpening c := by
  cases text with
  | nil => simp [IsLiteral]
  | cons c rest => simp [IsLiteral, IsOpening, not_or]

theorem Tree.isValueBytes {tree : Tree} {depth : Nat} {after : Text} (hwell : tree.WellFormed)
    (hdepth : tree.depth ≤ depth) (hprecede : tree.CanPrecede after) :
    IsValueBytes depth tree.text.bytes after.bytes := by
  by_cases hliteral : ∃ text, tree = .literal text
  · obtain ⟨text, rfl⟩ := hliteral
    obtain ⟨hnonempty, hrun, hhead⟩ := isLiteral_iff_isOpening.mp hwell
    obtain ⟨c, rest, rfl⟩ := List.exists_cons_of_ne_nil hnonempty
    apply IsValueBytes.literal
    · obtain ⟨b, more, hbytes, -⟩ := Text.exists_bytes_cons_eq_cons c rest
      rw [Tree.text, hbytes]
      exact List.cons_ne_nil b more
    · exact agrees_isDelimiter.not.forall_bytes_iff.mpr hrun
    · exact agrees_isOpening.not.forall_head_bytes_iff.mpr hhead
    · exact agrees_isDelimiter.forall_head_bytes_iff.mpr
        (Tree.delimited_of_canPrecede hprecede)
  · exact .nested (fun text htree => hliteral ⟨text, htree⟩) hwell hdepth

/-- A value in bytes at a boundary of a text is a value. -/
theorem IsValueBytes.exists_tree {depth : Nat} {text : Text} {run after : List UInt8}
    (hvalue : IsValueBytes depth run after) (hbytes : text.bytes = run ++ after) :
    ∃ (tree : Tree) (rest : Text), text = tree.text ++ rest ∧ run = tree.text.bytes ∧
      tree.WellFormed ∧ tree.depth ≤ depth ∧ tree.CanPrecede rest := by
  cases hvalue with
  | literal hnonempty hrun hhead hafter =>
      obtain ⟨literal, rest, rfl, rfl, rfl⟩ :=
        Text.exists_eq_append_of_bytes_until (fun _ => utf8Size_of_isDelimiter) hbytes hrun hafter
      refine ⟨.literal literal, rest, rfl, rfl, ?_, Nat.zero_le depth, ?_⟩
      · apply isLiteral_iff_isOpening.mpr
        refine ⟨?_, ?_, ?_⟩
        · rintro rfl
          exact hnonempty rfl
        · exact agrees_isDelimiter.not.forall_bytes_iff.mp hrun
        · exact agrees_isOpening.not.forall_head_bytes_iff.mp hhead
      · apply Tree.canPrecede_of_delimited
        exact agrees_isDelimiter.forall_head_bytes_iff.mp hafter
  | @nested tree _ hliteral hwell hdepth =>
      obtain ⟨rest, rfl, -⟩ := Text.bytes_eq_bytes_append_iff.mp hbytes
      refine ⟨tree, rest, rfl, rfl, hwell, hdepth, ?_⟩
      cases tree with
      | literal text => exact absurd rfl (hliteral text)
      | string | emptyArray | array | emptyObject | object => trivial

theorem Tree.exists_bytes_eq_cons {tree : Tree} (hliteral : ∀ text, tree ≠ .literal text) :
    ∃ c rest, IsOpening c ∧ tree.text.bytes = c.toUInt8 :: rest := by
  cases tree with
  | literal text => exact absurd rfl (hliteral text)
  | string => exact ⟨'"', _, .inr (.inr rfl), rfl⟩
  | emptyArray | array => exact ⟨'[', _, .inr (.inl rfl), rfl⟩
  | emptyObject | object => exact ⟨'\x7b', _, .inl rfl, rfl⟩

/-- From a boundary exactly the values in bytes are read. -/
theorem exists_passesValue_iff {depth start stop : Nat} {text : Text} :
    (∃ next, PassesValue depth ⟨start, text⟩ next ∧ stop = next.offset) ↔
      ∃ blanks run after, StartsWithValue depth text.bytes blanks run after ∧
        stop = start + blanks.length + run.length := by
  constructor
  · rintro ⟨next, ⟨blanks, tree, hblanks, hpasses, hwell, hdepth, hprecede⟩, rfl⟩
    refine ⟨blanks.bytes, tree.text.bytes, next.rest.bytes, ⟨?_, ?_, ?_⟩, ?_⟩
    · rw [← Text.bytes_append, ← Text.bytes_append]
      exact congrArg Text.bytes hpasses.rest_eq
    · exact (Text.agrees_isByteOf fun _ => utf8Size_of_isBlank).forall_bytes_iff.mpr hblanks
    · exact tree.isValueBytes hwell hdepth hprecede
    · rw [hpasses.offset_eq, Text.size_append, Text.length_bytes, Text.length_bytes, Nat.add_assoc]
  · rintro ⟨_, run, after, ⟨hbytes, hblanks, hvalue⟩, rfl⟩
    rw [List.append_assoc] at hbytes
    obtain ⟨blanks, behind, rfl, rfl, hrun, hallBlank⟩ :=
      Text.exists_eq_append_of_bytes (fun _ => utf8Size_of_isBlank) hbytes hblanks
    obtain ⟨tree, rest, rfl, rfl, hwell, hdepth, hprecede⟩ := hvalue.exists_tree hrun.symm
    refine ⟨⟨start + (blanks ++ tree.text).size, rest⟩,
      ⟨blanks, tree, hallBlank, ⟨?_, rfl⟩, hwell, hdepth, hprecede⟩, ?_⟩
    · rw [List.append_assoc]
    · rw [Text.size_append, Text.length_bytes, Text.length_bytes, Nat.add_assoc]

section Fragment

variable {fragment : List UInt8} (hnonempty : fragment ≠ [])
variable (hlarge : ∀ b ∈ fragment, 0x80 ≤ b.toNat)

include hlarge

theorem not_isByteOf_of_mem_fragment {p : Char → Prop} (hp : ∀ c, p c → c.utf8Size = 1) {b : UInt8}
    (hb : b ∈ fragment) : ¬ Text.IsByteOf p b :=
  Text.not_isByteOf_of_le hp (hlarge b hb)

include hnonempty

/-- A value that starts with the last bytes of a character is a literal without
blanks before it. -/
theorem StartsWithValue.exists_literal {depth : Nat} {text : Text} {blanks run after : List UInt8}
    (hstarts : StartsWithValue depth (fragment ++ text.bytes) blanks run after) :
    blanks = [] ∧ ∃ chars rest : Text, text = chars ++ rest ∧ run = fragment ++ chars.bytes ∧
      (∀ c ∈ chars, ¬ IsDelimiter c) ∧ Delimited rest := by
  obtain ⟨hbytes, hblanks, hvalue⟩ := hstarts
  obtain ⟨first, others, hfragment⟩ := List.exists_cons_of_ne_nil hnonempty
  have hmem : first ∈ fragment := by
    rw [hfragment]
    exact List.mem_cons_self
  cases blanks with
  | cons b blanks =>
      rw [hfragment] at hbytes
      obtain rfl : first = b := (List.cons.inj hbytes).1
      exact absurd (hblanks first List.mem_cons_self)
        (not_isByteOf_of_mem_fragment hlarge (fun _ => utf8Size_of_isBlank) hmem)
  | nil =>
      refine ⟨rfl, ?_⟩
      rw [List.nil_append] at hbytes
      cases hvalue with
      | nested hliteral =>
          obtain ⟨c, rest, hc, hrest⟩ := Tree.exists_bytes_eq_cons hliteral
          rw [hfragment, hrest] at hbytes
          obtain rfl : first = c.toUInt8 := (List.cons.inj hbytes).1
          exact absurd ⟨c, hc, rfl⟩
            (not_isByteOf_of_mem_fragment hlarge (fun _ => utf8Size_of_isOpening) hmem)
      | literal _ hrun _ hafter =>
          have hdelimiter : ∀ c, IsDelimiter c → c.utf8Size = 1 := fun _ => utf8Size_of_isDelimiter
          rcases List.append_eq_append_iff.mp hbytes with ⟨more, rfl, hmore⟩ | ⟨more, hrest, rfl⟩
          · obtain ⟨chars, rest, rfl, rfl, rfl⟩ := Text.exists_eq_append_of_bytes_until hdelimiter
              hmore (fun b hb => hrun b (List.mem_append_right _ hb)) hafter
            refine ⟨chars, rest, rfl, rfl, ?_, ?_⟩
            · apply agrees_isDelimiter.not.forall_bytes_iff.mp
              intro b hb
              exact hrun b (List.mem_append_right _ hb)
            · exact agrees_isDelimiter.forall_head_bytes_iff.mp hafter
          · cases more with
            | nil =>
                rw [List.append_nil] at hrest
                refine ⟨[], text, rfl, by simp [hrest], List.forall_mem_nil _, ?_⟩
                exact agrees_isDelimiter.forall_head_bytes_iff.mp hafter
            | cons b more =>
                have hb : b ∈ fragment := by
                  rw [hrest]
                  exact List.mem_append_right _ List.mem_cons_self
                exact absurd (hafter b rfl) (not_isByteOf_of_mem_fragment hlarge hdelimiter hb)

/-- The last bytes of a character and what follows up to a delimiter are a
literal. -/
theorem startsWithValue_fragment (depth : Nat) {chars rest : Text}
    (hchars : ∀ c ∈ chars, ¬ IsDelimiter c) (hrest : Delimited rest) :
    StartsWithValue depth (fragment ++ Text.bytes (chars ++ rest)) [] (fragment ++ chars.bytes)
      rest.bytes := by
  have hdelimiter : ∀ c, IsDelimiter c → c.utf8Size = 1 := fun _ => utf8Size_of_isDelimiter
  refine ⟨?_, List.forall_mem_nil _, ?_⟩
  · rw [List.nil_append, List.append_assoc, Text.bytes_append]
  · apply IsValueBytes.literal
    · exact List.append_ne_nil_of_left_ne_nil hnonempty _
    · intro b hb
      rcases List.mem_append.mp hb with hb | hb
      · exact not_isByteOf_of_mem_fragment hlarge hdelimiter hb
      · exact agrees_isDelimiter.not.forall_bytes_iff.mpr hchars b hb
    · intro b hb
      obtain ⟨first, others, rfl⟩ := List.exists_cons_of_ne_nil hnonempty
      obtain rfl : first = b := by simpa using hb
      exact not_isByteOf_of_mem_fragment hlarge (fun _ => utf8Size_of_isOpening)
        List.mem_cons_self
    · exact agrees_isDelimiter.forall_head_bytes_iff.mpr hrest

omit hnonempty hlarge in
/-- A fragment goes on up to the next delimiter. -/
theorem offset_fragmentEnd_iff {start stop count : Nat} {text : Text} :
    stop = (Scan.fragmentEnd start ⟨count, text⟩).offset ↔
      ∃ chars rest, text = chars ++ rest ∧ (∀ c ∈ chars, ¬ IsDelimiter c) ∧ Delimited rest ∧
        stop = start + count + chars.size := by
  constructor
  · rintro rfl
    obtain ⟨chars, hpasses, hchars, hrest⟩ := Cursor.skip_eq_iff.mp
      (rfl : Scan.fragmentEnd start ⟨count, text⟩ = _)
    refine ⟨chars, (Scan.fragmentEnd start ⟨count, text⟩).rest, hpasses.rest_eq, ?_, ?_,
      hpasses.offset_eq⟩
    · intro c hc
      exact Scan.isLiteral_iff.mp (hchars c hc)
    · intro c hc
      by_contra hdelimiter
      exact hrest c hc (Scan.isLiteral_iff.mpr hdelimiter)
  · rintro ⟨chars, rest, rfl, hchars, hrest, rfl⟩
    have hskip : Scan.fragmentEnd start ⟨count, chars ++ rest⟩ =
        ⟨start + count + chars.size, rest⟩ := by
      refine Cursor.skip_eq_iff.mpr ⟨chars, ⟨rfl, rfl⟩, ?_, ?_⟩
      · intro c hc
        exact Scan.isLiteral_iff.mpr (hchars c hc)
      · intro c hc hliteral
        exact Scan.isLiteral_iff.mp hliteral (hrest c hc)
    rw [hskip]

/-- From inside a character exactly the values in bytes are read. -/
theorem offset_fragmentEnd_iff_bytes (depth : Nat) {start stop : Nat} {text : Text} :
    stop = (Scan.fragmentEnd start ⟨fragment.length, text⟩).offset ↔
      ∃ blanks run after, StartsWithValue depth (fragment ++ text.bytes) blanks run after ∧
        stop = start + blanks.length + run.length := by
  rw [offset_fragmentEnd_iff]
  constructor
  · rintro ⟨chars, rest, rfl, hchars, hrest, rfl⟩
    refine ⟨[], fragment ++ chars.bytes, rest.bytes,
      startsWithValue_fragment hnonempty hlarge depth hchars hrest, ?_⟩
    rw [List.length_nil, List.length_append, Text.length_bytes, Nat.add_zero, Nat.add_assoc]
  · rintro ⟨blanks, run, after, hstarts, rfl⟩
    obtain ⟨rfl, chars, rest, htext, rfl, hchars, hrest⟩ :=
      hstarts.exists_literal hnonempty hlarge
    refine ⟨chars, rest, htext, hchars, hrest, ?_⟩
    rw [List.length_nil, List.length_append, Text.length_bytes, Nat.add_zero, Nat.add_assoc]

end Fragment

end Grammar

namespace Scan

variable {settings : Settings} {text : Text} {start stop : Nat}

/-- Reading a value at an offset reads it behind the bytes of a character that
the offset leaves, or passes over these if there are any. -/
theorem valueAt_eq_ok_iff :
    (valueAt settings text start).result = .ok stop ↔
      ((text.tailAt start).fragment = 0 ∧
          ∃ next, PassesValue settings.maxDepth ⟨start, (text.tailAt start).rest⟩ next ∧
            stop = next.offset) ∨
        ((text.tailAt start).fragment ≠ 0 ∧
          stop = (fragmentEnd start (text.tailAt start)).offset) := by
  rw [valueAt]
  dsimp only
  by_cases hfragment : (text.tailAt start).fragment = 0
  · rw [if_pos hfragment]
    simp only [hfragment, ne_eq, not_true_eq_false, false_and, or_false, true_and,
      ← @exists_ends_iff settings, Ends]
    rcases value settings settings.maxDepth ⟨start, (text.tailAt start).rest⟩ with
      ⟨found, fault | ⟨next, hnext⟩⟩
    · constructor
      · intro hresult
        cases hresult
      · rintro ⟨_, ⟨_, _, hvalue⟩, -⟩
        cases hvalue
    · constructor
      · intro hresult
        cases hresult
        exact ⟨next, ⟨found, hnext, rfl⟩, rfl⟩
      · rintro ⟨_, ⟨_, _, hvalue⟩, rfl⟩
        cases hvalue
        rfl
  · rw [if_neg hfragment, result_pure, Except.ok.injEq]
    simp only [hfragment, false_and, ne_eq, not_false_eq_true, true_and, false_or]
    exact eq_comm

/-- Reading a value at an offset reads the value in bytes that stands there. -/
theorem valueAt_eq_ok_iff_startsWithValue {fragment : List UInt8}
    (hfragment : fragment.length = (text.tailAt start).fragment)
    (hlarge : ∀ b ∈ fragment, 0x80 ≤ b.toNat) :
    (valueAt settings text start).result = .ok stop ↔
      ∃ blanks run after, StartsWithValue settings.maxDepth
        (fragment ++ (text.tailAt start).rest.bytes) blanks run after ∧
          stop = start + blanks.length + run.length := by
  rw [valueAt_eq_ok_iff, ← hfragment]
  cases fragment with
  | nil => simpa using exists_passesValue_iff
  | cons b fragment =>
      have hnonempty : b :: fragment ≠ [] := List.cons_ne_nil b fragment
      have htail : text.tailAt start =
          ⟨(b :: fragment).length, (text.tailAt start).rest⟩ := by
        rw [hfragment]
      rw [← offset_fragmentEnd_iff_bytes hnonempty hlarge, ← htail]
      simp

theorem valueAt_ne_ok_of_size_lt (hstart : text.size < start) :
    (valueAt settings text start).result ≠ .ok stop := by
  intro hresult
  rw [valueAt_eq_ok_iff, Text.tailAt_of_size_lt hstart] at hresult
  rcases hresult with ⟨-, next, ⟨blanks, tree, -, hpasses, hwell, -⟩, -⟩ | ⟨hfragment, -⟩
  · obtain ⟨c, rest, htree, -⟩ := Tree.exists_text_eq_cons hwell
    have hrest := hpasses.rest_eq
    rw [htree] at hrest
    simp at hrest
  · exact hfragment rfl

end Scan

/-- The scanner reads a value from an offset exactly if blanks and a value of
the grammar start there, and it ends where the value ends.  Scanning a document
is refused for its form exactly if the document is not a value of the grammar
between blanks. -/
theorem reads_iff_grammar (settings : Settings) (text : Text) :
    (∀ start stop, (Scan.valueAt settings text start).result = .ok stop ↔
      ∃ before blanks run after : List UInt8, text.bytes = before ++ (blanks ++ run ++ after) ∧
        before.length = start ∧ (∀ b ∈ blanks, Text.IsByteOf (isBlank ·) b) ∧
        IsValueBytes settings.maxDepth run after ∧ stop = start + blanks.length + run.length) ∧
    ((∀ error, SiteIndex.locate settings text = .error error → error.kind ≠ .parse) ↔
      ∃ (blanks : Text) (tree : Tree) (after : Text), text = blanks ++ tree.text ++ after ∧
        AllBlank blanks ∧ AllBlank after ∧ tree.WellFormed ∧ tree.depth ≤ settings.maxDepth) := by
  constructor
  · intro start stop
    by_cases hstart : start ≤ text.size
    · obtain ⟨before, fragment, hbytes, hbefore, hfragment, hlarge⟩ :=
        Text.exists_bytes_eq_append_tailAt hstart
      rw [Scan.valueAt_eq_ok_iff_startsWithValue hfragment hlarge]
      constructor
      · rintro ⟨blanks, run, after, ⟨hstarts, hblanks, hvalue⟩, hstop⟩
        rw [hstarts] at hbytes
        exact ⟨before, blanks, run, after, hbytes, hbefore, hblanks, hvalue, hstop⟩
      · rintro ⟨before', blanks, run, after, hbytes', hbefore', hblanks, hvalue, hstop⟩
        obtain ⟨-, hstarts⟩ := List.append_inj (hbytes.symm.trans hbytes')
          (hbefore.trans hbefore'.symm)
        exact ⟨blanks, run, after, ⟨hstarts, hblanks, hvalue⟩, hstop⟩
    · constructor
      · intro hresult
        exact absurd hresult (Scan.valueAt_ne_ok_of_size_lt (Nat.lt_of_not_le hstart))
      · rintro ⟨before, blanks, run, after, hbytes, hbefore, -⟩
        have hlength := congrArg List.length hbytes
        rw [Text.length_bytes, List.length_append, hbefore] at hlength
        omega
  · rw [SiteIndex.kind_locate_ne_parse_iff]
    constructor
    · rintro ⟨found, hscan⟩
      obtain ⟨blanks, tree, after, htext, hblanks, hafter, hwell, hdepth⟩ :=
        Scan.exists_isDocument_of_document hscan
      exact ⟨blanks, tree, after, htext, hblanks, hafter, hwell, hdepth⟩
    · rintro ⟨blanks, tree, after, htext, hblanks, hafter, hwell, hdepth⟩
      obtain ⟨found, hscan, -⟩ :=
        Scan.exists_document_of_isDocument ⟨htext, hblanks, hafter, hwell, hdepth⟩
      exact ⟨found, hscan⟩

end ArrayPatch
