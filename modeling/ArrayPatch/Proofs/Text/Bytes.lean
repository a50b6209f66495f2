import ArrayPatch.Text
import Mathlib.Tactic.Common

/-!
# The bytes of a text

An offset that falls inside a character has no cut of the text into characters,
but it has a cut of the bytes.  Every byte of a character above U+007F is itself
above 0x7F, so a byte of an ASCII character stands for that character wherever
it is met.  Together with the fact that no character starts with the bytes of
another one this lets a list of bytes be read back as a text.
-/

namespace ArrayPatch

open String (utf8EncodeChar)

namespace Text

/-- The bytes of a text in UTF-8. -/
def bytes (text : Text) : List UInt8 :=
  text.flatMap utf8EncodeChar

@[simp]
theorem bytes_nil : bytes [] = [] :=
  rfl

@[simp]
theorem bytes_cons (c : Char) (text : Text) : bytes (c :: text) = utf8EncodeChar c ++ bytes text :=
  rfl

@[simp]
theorem bytes_append (left right : Text) : bytes (left ++ right) = bytes left ++ bytes right :=
  List.flatMap_append

@[simp]
theorem length_bytes (text : Text) : (bytes text).length = size text := by
  induction text with
  | nil => rfl
  | cons c text ih =>
      rw [bytes_cons, List.length_append, ih, String.length_utf8EncodeChar, size_cons]

theorem utf8EncodeChar_of_utf8Size_eq_one {c : Char} (hwidth : c.utf8Size = 1) :
    utf8EncodeChar c = [c.toUInt8] :=
  String.utf8EncodeChar_eq_singleton hwidth

/-- The byte at which an ASCII character stands. -/
theorem getElem?_bytes_size {c : Char} (hwidth : c.utf8Size = 1) (left right : Text) :
    (bytes (left ++ c :: right))[left.size]? = some c.toUInt8 := by
  rw [bytes_append, bytes_cons, utf8EncodeChar_of_utf8Size_eq_one hwidth, ← length_bytes left,
    List.getElem?_append_right (Nat.le_refl _), Nat.sub_self]
  rfl

theorem utf8Size_eq_one_iff_lt {c : Char} : c.utf8Size = 1 ↔ c.toNat < 0x80 := by
  rw [Char.utf8Size_eq_one_iff, UInt32.le_iff_toNat_le]
  exact Nat.lt_succ_iff.symm

theorem toNat_toUInt8_of_utf8Size_eq_one {c : Char} (hwidth : c.utf8Size = 1) :
    c.toUInt8.toNat = c.toNat := by
  have hlt := utf8Size_eq_one_iff_lt.mp hwidth
  rw [Char.toUInt8, UInt32.toNat_toUInt8]
  exact Nat.mod_eq_of_lt (Nat.lt_trans hlt (by decide))

/-- All bytes of a longer character are above the ASCII range. -/
theorem le_of_mem_utf8EncodeChar {c : Char} {b : UInt8} (hwidth : c.utf8Size ≠ 1)
    (hb : b ∈ utf8EncodeChar c) : 0x80 ≤ b.toNat := by
  have hlarge : ¬ c.val.toNat ≤ 0x7f := by
    intro hsmall
    exact hwidth (utf8Size_eq_one_iff_lt.mpr (Nat.lt_succ_of_le hsmall))
  simp only [utf8EncodeChar, if_neg hlarge] at hb
  have hbound (n k : Nat) (hk : 0x80 ≤ k) (hsum : n + k < 0x100) :
      0x80 ≤ (UInt8.ofNat (n + k)).toNat := by
    rw [UInt8.toNat_ofNat_of_lt' hsum]
    exact Nat.le_trans hk (Nat.le_add_left k n)
  split at hb
  · simp only [List.mem_cons, List.not_mem_nil, or_false] at hb
    rcases hb with rfl | rfl <;> apply hbound <;> omega
  · split at hb
    · simp only [List.mem_cons, List.not_mem_nil, or_false] at hb
      rcases hb with rfl | rfl | rfl <;> apply hbound <;> omega
    · simp only [List.mem_cons, List.not_mem_nil, or_false] at hb
      rcases hb with rfl | rfl | rfl | rfl <;> apply hbound <;> omega

/-- The byte of an ASCII character is a byte of no other character. -/
theorem toUInt8_mem_utf8EncodeChar_iff {c d : Char} (hd : d.utf8Size = 1) :
    d.toUInt8 ∈ utf8EncodeChar c ↔ c = d := by
  constructor
  · intro hmem
    have hbyte := toNat_toUInt8_of_utf8Size_eq_one hd
    have hlt := utf8Size_eq_one_iff_lt.mp hd
    by_cases hc : c.utf8Size = 1
    · rw [utf8EncodeChar_of_utf8Size_eq_one hc, List.mem_singleton] at hmem
      rw [← Char.toNat_inj, ← hbyte, ← toNat_toUInt8_of_utf8Size_eq_one hc, hmem]
    · have hle := le_of_mem_utf8EncodeChar hc hmem
      omega
  · rintro rfl
    rw [utf8EncodeChar_of_utf8Size_eq_one hd]
    exact List.mem_singleton_self _

/-- Two characters with other bytes behind them are told apart by their bytes. -/
theorem utf8EncodeChar_append_inj {c d : Char} {left right : List UInt8}
    (hbytes : utf8EncodeChar c ++ left = utf8EncodeChar d ++ right) : c = d ∧ left = right := by
  have hdecode (e : Char) (rest : List UInt8) :
      ByteArray.utf8DecodeChar? (utf8EncodeChar e ++ rest).toByteArray 0 = some e := by
    rw [List.toByteArray_append]
    exact ByteArray.utf8DecodeChar?_utf8EncodeChar_append
  have hsame : c = d := by
    have hc := hdecode c left
    rw [hbytes, hdecode d right] at hc
    exact (Option.some.inj hc).symm
  subst hsame
  exact ⟨rfl, List.append_cancel_left hbytes⟩

/-- A text whose bytes start with the bytes of another text starts with it. -/
theorem bytes_eq_bytes_append_iff {text front : Text} {after : List UInt8} :
    text.bytes = front.bytes ++ after ↔ ∃ rest, text = front ++ rest ∧ after = rest.bytes := by
  constructor
  · intro hbytes
    induction front generalizing text with
    | nil => exact ⟨text, rfl, hbytes.symm⟩
    | cons d front ih =>
        cases text with
        | nil =>
            have hlength := congrArg List.length hbytes
            have hpos := d.utf8Size_pos
            simp at hlength
            omega
        | cons c text =>
            rw [bytes_cons, bytes_cons, List.append_assoc] at hbytes
            obtain ⟨rfl, htail⟩ := utf8EncodeChar_append_inj hbytes
            obtain ⟨rest, rfl, rfl⟩ := ih htail
            exact ⟨rest, rfl, rfl⟩
  · rintro ⟨rest, rfl, rfl⟩
    exact bytes_append front rest

theorem exists_bytes_cons_eq_cons (c : Char) (text : Text) :
    ∃ b more, bytes (c :: text) = b :: more ∧ b ∈ utf8EncodeChar c := by
  obtain ⟨b, more, hbytes⟩ := List.exists_cons_of_ne_nil (String.utf8EncodeChar_ne_nil (c := c))
  refine ⟨b, more ++ bytes text, ?_, ?_⟩
  · rw [bytes_cons, hbytes, List.cons_append]
  · rw [hbytes]
    exact List.mem_cons_self

/-! ## Classes of bytes -/

/-- A class of bytes holds of the bytes of the characters of a class, and of no byte of
any other character. -/
def Agrees (q : UInt8 → Prop) (p : Char → Prop) : Prop :=
  ∀ c, ∀ b ∈ utf8EncodeChar c, q b ↔ p c

section Agreement

variable {q : UInt8 → Prop} {p : Char → Prop} {text : Text} (hagrees : Agrees q p)

include hagrees

theorem Agrees.not : Agrees (fun b => ¬ q b) fun c => ¬ p c :=
  fun c b hb => not_congr (hagrees c b hb)

theorem Agrees.forall_bytes_iff : (∀ b ∈ text.bytes, q b) ↔ ∀ c ∈ text, p c := by
  constructor
  · intro hbytes c hc
    obtain ⟨b, hb⟩ := List.exists_mem_of_ne_nil _ (String.utf8EncodeChar_ne_nil (c := c))
    exact (hagrees c b hb).mp (hbytes b (List.mem_flatMap.mpr ⟨c, hc, hb⟩))
  · intro htext b hb
    obtain ⟨c, hc, hb⟩ := List.mem_flatMap.mp hb
    exact (hagrees c b hb).mpr (htext c hc)

theorem Agrees.forall_head_bytes_iff :
    (∀ b ∈ text.bytes.head?, q b) ↔ ∀ c ∈ text.head?, p c := by
  cases text with
  | nil => simp
  | cons c text =>
      obtain ⟨b, more, hbytes, hb⟩ := exists_bytes_cons_eq_cons c text
      simp [hbytes, hagrees c b hb]

end Agreement

/-- A byte is the byte of a character of a class. -/
def IsByteOf (p : Char → Prop) (b : UInt8) : Prop :=
  ∃ c, p c ∧ b = c.toUInt8

section Classes

variable {p : Char → Prop} (hp : ∀ c, p c → c.utf8Size = 1)

include hp

/-- A byte is in a class of ASCII characters exactly if its character is. -/
theorem agrees_isByteOf : Agrees (IsByteOf p) p := by
  intro c b hb
  constructor
  · rintro ⟨d, hd, rfl⟩
    rwa [(toUInt8_mem_utf8EncodeChar_iff (hp d hd)).mp hb]
  · intro hc
    rw [utf8EncodeChar_of_utf8Size_eq_one (hp c hc), List.mem_singleton] at hb
    exact ⟨c, hc, hb⟩

/-- A byte is in a class of ASCII characters exactly if the character of that
number is. -/
theorem isByteOf_iff_ofUInt8 {b : UInt8} : IsByteOf p b ↔ p (Char.ofUInt8 b) := by
  constructor
  · rintro ⟨c, hc, rfl⟩
    have hcode : (Char.ofUInt8 c.toUInt8).toNat = c.toNat :=
      toNat_toUInt8_of_utf8Size_eq_one (hp c hc)
    rwa [Char.toNat_inj.mp hcode]
  · intro hb
    refine ⟨Char.ofUInt8 b, hb, ?_⟩
    rw [← UInt8.toNat_inj, toNat_toUInt8_of_utf8Size_eq_one (hp _ hb)]
    rfl

theorem not_isByteOf_of_le {b : UInt8} (hb : 0x80 ≤ b.toNat) : ¬ IsByteOf p b := by
  rintro ⟨c, hc, rfl⟩
  rw [toNat_toUInt8_of_utf8Size_eq_one (hp c hc)] at hb
  have hlt := utf8Size_eq_one_iff_lt.mp (hp c hc)
  omega

omit hp in
/-- A first byte tells whether a character is a given ASCII character. -/
theorem eq_toUInt8_iff_of_mem {c d : Char} {b : UInt8} (hd : d.utf8Size = 1)
    (hb : b ∈ utf8EncodeChar c) : b = d.toUInt8 ↔ c = d := by
  constructor
  · rintro rfl
    exact (toUInt8_mem_utf8EncodeChar_iff hd).mp hb
  · rintro rfl
    rwa [utf8EncodeChar_of_utf8Size_eq_one hd, List.mem_singleton] at hb

omit hp in
/-- A table of ASCII characters can be looked up by bytes. -/
theorem lookup_ofUInt8_of_mem {α : Type} {f : Char → Option α}
    (hf : ∀ c a, f c = some a → c.utf8Size = 1) {c : Char} {b : UInt8}
    (hb : b ∈ utf8EncodeChar c) : f (Char.ofUInt8 b) = f c := by
  apply Option.ext
  intro a
  have hclass : ∀ c, f c = some a → c.utf8Size = 1 := fun c => hf c a
  exact (isByteOf_iff_ofUInt8 hclass).symm.trans (agrees_isByteOf hclass c b hb)

/-- A text is cut where its bytes are cut behind the bytes of a class. -/
theorem exists_eq_append_of_bytes {text : Text} {front after : List UInt8}
    (hbytes : text.bytes = front ++ after) (hfront : ∀ b ∈ front, IsByteOf p b) :
    ∃ chars rest, text = chars ++ rest ∧ front = bytes chars ∧ after = rest.bytes ∧
      ∀ c ∈ chars, p c := by
  induction front generalizing text with
  | nil => exact ⟨[], text, rfl, rfl, hbytes.symm, List.forall_mem_nil _⟩
  | cons b front ih =>
      obtain ⟨d, hd, rfl⟩ := hfront b List.mem_cons_self
      have hcons : text.bytes = bytes [d] ++ (front ++ after) := by
        rw [hbytes, bytes_cons, utf8EncodeChar_of_utf8Size_eq_one (hp d hd)]
        rfl
      obtain ⟨rest, rfl, hrest⟩ := bytes_eq_bytes_append_iff.mp hcons
      obtain ⟨chars, rest, rfl, rfl, rfl, hchars⟩ :=
        ih hrest.symm fun b hb => hfront b (List.mem_cons_of_mem _ hb)
      refine ⟨d :: chars, rest, rfl, ?_, rfl, ?_⟩
      · rw [bytes_cons, utf8EncodeChar_of_utf8Size_eq_one (hp d hd)]
        rfl
      · exact List.forall_mem_cons.mpr ⟨hd, hchars⟩

/-- A text is cut where its bytes are cut in front of the first byte of a class. -/
theorem exists_eq_append_of_bytes_until {text : Text} {front after : List UInt8}
    (hbytes : text.bytes = front ++ after) (hfront : ∀ b ∈ front, ¬ IsByteOf p b)
    (hafter : ∀ b ∈ after.head?, IsByteOf p b) :
    ∃ chars rest, text = chars ++ rest ∧ front = bytes chars ∧ after = rest.bytes := by
  induction text generalizing front with
  | nil =>
      obtain ⟨rfl, rfl⟩ := List.append_eq_nil_iff.mp hbytes.symm
      exact ⟨[], [], rfl, rfl, rfl⟩
  | cons c text ih =>
      rcases List.append_eq_append_iff.mp hbytes with ⟨more, rfl, htext⟩ | ⟨more, hc, rfl⟩
      · obtain ⟨chars, rest, rfl, rfl, rfl⟩ :=
          ih htext fun b hb => hfront b (List.mem_append_right _ hb)
        exact ⟨c :: chars, rest, rfl, rfl, rfl⟩
      · -- The front cannot end inside a character: its next byte would be of the class.
        cases more with
        | nil =>
            rw [List.append_nil] at hc
            exact ⟨[c], text, rfl, by rw [bytes_cons, hc]; simp, rfl⟩
        | cons b more =>
            have hb : b ∈ utf8EncodeChar c := by
              rw [hc]
              exact List.mem_append_right _ List.mem_cons_self
            have hclass := (agrees_isByteOf hp c b hb).mp (hafter b rfl)
            rw [utf8EncodeChar_of_utf8Size_eq_one (hp c hclass)] at hc
            cases front with
            | nil => exact ⟨[], c :: text, rfl, rfl, hbytes.symm⟩
            | cons first front => simp at hc

end Classes

/-- A run of bytes outside a class of ASCII characters is made of the characters
outside the class. -/
theorem takeWhile_bytes {p : Char → Bool} (hp : ∀ c, p c → c.utf8Size = 1) (text : Text) :
    text.bytes.takeWhile (fun b => !p (Char.ofUInt8 b)) =
      bytes (text.takeWhile fun c => !p c) := by
  induction text with
  | nil => rfl
  | cons c text ih =>
      have hclass : ∀ b ∈ utf8EncodeChar c, p (Char.ofUInt8 b) = p c := fun b hb =>
        Bool.eq_iff_iff.mpr ((isByteOf_iff_ofUInt8 hp).symm.trans (agrees_isByteOf hp c b hb))
      cases hc : p c with
      | true =>
          obtain ⟨b, more, hbytes, hb⟩ := exists_bytes_cons_eq_cons c text
          rw [hbytes, List.takeWhile_cons, hclass b hb, List.takeWhile_cons, hc]
          rfl
      | false =>
          rw [bytes_cons, List.takeWhile_append_of_pos, ih, List.takeWhile_cons, hc]
          · rfl
          · intro b hb
            rw [hclass b hb, hc]
            rfl

/-! ## Offsets of every kind -/

/-- The bytes behind a boundary. -/
theorem drop_size_bytes (left right : Text) :
    (bytes (left ++ right)).drop left.size = right.bytes := by
  rw [bytes_append, ← length_bytes, List.drop_left]

/-- The byte of an ASCII character tells that the character stands there. -/
theorem exists_eq_cons_of_getElem?_bytes {c : Char} {left right : Text} (hwidth : c.utf8Size = 1)
    (hbyte : (bytes (left ++ right))[left.size]? = some c.toUInt8) :
    ∃ rest, right = c :: rest := by
  rw [← List.head?_drop, drop_size_bytes] at hbyte
  cases right with
  | nil => cases hbyte
  | cons d rest =>
      obtain ⟨b, more, hbytes, hb⟩ := exists_bytes_cons_eq_cons d rest
      rw [hbytes] at hbyte
      obtain rfl := Option.some.inj hbyte
      obtain rfl := (toUInt8_mem_utf8EncodeChar_iff hwidth).mp hb
      exact ⟨rest, rfl⟩

/-- An offset leaves the last bytes of a character, all of them above the ASCII
range, and a text behind them. -/
theorem exists_bytes_eq_append_tailAt {text : Text} {start : Nat} (hstart : start ≤ text.size) :
    ∃ before fragment : List UInt8,
      text.bytes = before ++ (fragment ++ (text.tailAt start).rest.bytes) ∧
        before.length = start ∧ fragment.length = (text.tailAt start).fragment ∧
        ∀ b ∈ fragment, 0x80 ≤ b.toNat := by
  induction text generalizing start with
  | nil =>
      obtain rfl := Nat.le_zero.mp hstart
      exact ⟨[], [], rfl, rfl, rfl, List.forall_mem_nil _⟩
  | cons c text ih =>
      cases start with
      | zero => exact ⟨[], [], rfl, rfl, rfl, List.forall_mem_nil _⟩
      | succ start =>
          rw [tailAt]
          by_cases hwidth : c.utf8Size ≤ start + 1
          · rw [size_cons] at hstart
            obtain ⟨before, fragment, hbytes, hbefore, hfragment⟩ :=
              ih (show start + 1 - c.utf8Size ≤ size text by omega)
            refine ⟨utf8EncodeChar c ++ before, fragment, ?_, ?_, ?_⟩
            · rw [if_pos hwidth, bytes_cons, hbytes, List.append_assoc]
            · rw [List.length_append, String.length_utf8EncodeChar, hbefore]
              omega
            · rw [if_pos hwidth]
              exact hfragment
          · have hlength := String.length_utf8EncodeChar c
            refine ⟨(utf8EncodeChar c).take (start + 1), (utf8EncodeChar c).drop (start + 1),
              ?_, ?_, ?_, ?_⟩
            · rw [if_neg hwidth, ← List.append_assoc, List.take_append_drop, bytes_cons]
            · rw [List.length_take]
              omega
            · rw [if_neg hwidth, List.length_drop, hlength]
            · intro b hb
              exact le_of_mem_utf8EncodeChar (by omega) (List.mem_of_mem_drop hb)

/-- An offset that leaves no part of a character is a boundary. -/
theorem exists_eq_append_tailAt {text : Text} {start : Nat} (hstart : start ≤ text.size)
    (hfragment : (text.tailAt start).fragment = 0) :
    ∃ before, text = before ++ (text.tailAt start).rest ∧ before.size = start := by
  induction text generalizing start with
  | nil =>
      obtain rfl := Nat.le_zero.mp hstart
      exact ⟨[], rfl, rfl⟩
  | cons c text ih =>
      cases start with
      | zero => exact ⟨[], rfl, rfl⟩
      | succ start =>
          rw [tailAt] at hfragment ⊢
          by_cases hwidth : c.utf8Size ≤ start + 1
          · rw [if_pos hwidth] at hfragment ⊢
            rw [size_cons] at hstart
            obtain ⟨before, htext, hbefore⟩ :=
              ih (show start + 1 - c.utf8Size ≤ size text by omega) hfragment
            refine ⟨c :: before, congrArg (c :: ·) htext, ?_⟩
            rw [size_cons, hbefore]
            omega
          · rw [if_neg hwidth] at hfragment
            dsimp only at hfragment
            omega

theorem tailAt_of_size_lt {text : Text} {start : Nat} (hstart : text.size < start) :
    text.tailAt start = ⟨0, []⟩ := by
  induction text generalizing start with
  | nil =>
      cases start with
      | zero => cases hstart
      | succ start => rfl
  | cons c text ih =>
      rw [size_cons] at hstart
      cases start with
      | zero => cases hstart
      | succ start =>
          rw [tailAt, if_pos (by omega)]
          exact ih (by omega)

end Text

end ArrayPatch
