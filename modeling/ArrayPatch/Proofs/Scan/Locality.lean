import ArrayPatch.Proofs.Grammar.Acceptance
import ArrayPatch.Proofs.Grammar.Relocated
import ArrayPatch.Proofs.Grammar.Shift
import ArrayPatch.Proofs.Scan.Scanner

/-!
# Reading a value is local

What is read from an offset depends on the bytes of the value and of the blanks
before it, and on nothing else: not on what stands before them, nor on where they
stand, nor, unless the value is a literal, on what follows.  A literal must be
followed by a delimiter, because it is read up to one.

The bytes are those of a tree or of a literal.  Each of the two is read wherever
its bytes stand, and the sites of a tree move with the tree.
-/

namespace ArrayPatch

open Grammar

/-- The first byte behind the blanks at an offset. -/
def Text.leadingByte? (text : Text) (start : Nat) : Option UInt8 :=
  ((text.bytes.drop start).dropWhile fun b => isBlank (Char.ofUInt8 b)).head?

/-- The bytes behind blanks start with what follows these. -/
theorem Text.leadingByte?_eq {text : Text} {before blanks more : List UInt8}
    (hbytes : text.bytes = before ++ (blanks ++ more))
    (hblanks : ∀ b ∈ blanks, IsByteOf (isBlank ·) b)
    (hmore : ∀ b ∈ more.head?, ¬ IsByteOf (isBlank ·) b) :
    text.leadingByte? before.length = more.head? := by
  have hclass (b : UInt8) : IsByteOf (isBlank ·) b ↔ isBlank (Char.ofUInt8 b) :=
    isByteOf_iff_ofUInt8 fun _ => utf8Size_of_isBlank
  rw [leadingByte?, hbytes, List.drop_left,
    List.dropWhile_append_of_pos fun b hb => (hclass b).mp (hblanks b hb)]
  cases more with
  | nil => rfl
  | cons b more =>
      have hb : ¬ isBlank (Char.ofUInt8 b) := fun hb => hmore b rfl ((hclass b).mpr hb)
      rw [List.dropWhile_cons, if_neg hb]

/-- The bytes that stand at an offset cut the text into what is before and behind them. -/
theorem Text.exists_bytes_eq_append_of_take_drop {text : Text} {middle : List UInt8} {start : Nat}
    (hmiddle : middle ≠ []) (hrange : (text.bytes.drop start).take middle.length = middle) :
    ∃ before after, text.bytes = before ++ (middle ++ after) ∧ before.length = start := by
  refine ⟨text.bytes.take start, (text.bytes.drop start).drop middle.length, ?_, ?_⟩
  · conv_lhs => rw [← List.take_append_drop start text.bytes,
      ← List.take_append_drop middle.length (text.bytes.drop start), hrange]
  · rw [List.length_take, Nat.min_eq_left]
    by_contra hpast
    rw [List.drop_eq_nil_of_le (Nat.le_of_not_le hpast), List.take_nil] at hrange
    exact hmiddle hrange.symm

/-- Sites that were counted from two offsets differ by these. -/
theorem Site.relocated_shift (first second : Nat) (site : Site) :
    Site.Relocated (fun old new => (new : Int) = old + ((second : Int) - first))
      (site.shift first) (site.shift second) where
  identifier_eq := rfl
  keyStart := by dsimp only [Site.shift]; omega
  valueStart := by dsimp only [Site.shift]; omega
  valueEnd := by dsimp only [Site.shift]; omega

namespace Scan

variable {settings : Settings} {text : Text} {before blanks after : List UInt8} {tree : Tree}

theorem valueAt_of_tree {front spaces rest : Text} (hspaces : AllBlank spaces)
    (hwell : tree.WellFormed) (hdepth : tree.depth ≤ settings.maxDepth)
    (hprecede : tree.CanPrecede rest) :
    valueAt settings (front ++ (spaces ++ tree.text ++ rest)) front.size =
      ⟨(tree.objects (front.size + spaces.size)).filterMap (Placed.reported? settings),
        .ok (front.size + spaces.size + tree.text.size)⟩ := by
  have hbefore : (Cursor.mk front.size (spaces ++ tree.text ++ rest)).Passes spaces
      ⟨front.size + spaces.size, tree.text ++ rest⟩ := ⟨List.append_assoc _ _ _, rfl⟩
  have htree : (Cursor.mk (front.size + spaces.size) (tree.text ++ rest)).Passes tree.text
      ⟨front.size + spaces.size + tree.text.size, rest⟩ := ⟨rfl, rfl⟩
  have hskip := Cursor.skipBlanks_eq_of_tree hspaces hbefore htree hwell
  obtain ⟨_, hvalue⟩ := ends_value_of_tree settings hskip tree htree hwell hdepth hprecede
  rw [valueAt, Text.tailAt_size_append]
  dsimp only
  rw [if_pos rfl, hvalue, ext_iff, found_bind, result_bind]
  exact ⟨List.append_nil _, rfl⟩

/-- The bytes of a tree that is no literal are cut out of a text at boundaries. -/
theorem exists_eq_append_of_nested {depth : Nat}
    (hbytes : text.bytes = before ++ (blanks ++ tree.text.bytes ++ after))
    (hblanks : ∀ b ∈ blanks, Text.IsByteOf (isBlank ·) b)
    (hliteral : ∀ text, tree ≠ .literal text) (hwell : tree.WellFormed)
    (hdepth : tree.depth ≤ depth) :
    ∃ front spaces rest : Text, text = front ++ (spaces ++ tree.text ++ rest) ∧
      front.size = before.length ∧ blanks = spaces.bytes ∧ AllBlank spaces := by
  have hstart : before.length ≤ text.size := by
    rw [← Text.length_bytes, hbytes, List.length_append]
    exact Nat.le_add_right _ _
  obtain ⟨before', fragment, hbytes', hbefore, hfragment, hlarge⟩ :=
    Text.exists_bytes_eq_append_tailAt hstart
  obtain ⟨-, hrest⟩ := List.append_inj (hbytes'.symm.trans hbytes) hbefore
  cases fragment with
  | nil =>
      obtain ⟨front, htext, hfront⟩ := Text.exists_eq_append_tailAt hstart hfragment.symm
      rw [List.nil_append, List.append_assoc] at hrest
      obtain ⟨spaces, behind, hspaces, rfl, hbehind, hallBlank⟩ :=
        Text.exists_eq_append_of_bytes (fun _ => utf8Size_of_isBlank) hrest hblanks
      obtain ⟨rest, rfl, -⟩ := Text.bytes_eq_bytes_append_iff.mp hbehind.symm
      rw [hspaces, ← List.append_assoc spaces] at htext
      exact ⟨front, spaces, rest, htext, hfront, rfl, hallBlank⟩
  | cons first others =>
      -- Inside a character no tree starts but a literal.
      have hnonempty : first :: others ≠ [] := List.cons_ne_nil first others
      obtain ⟨rfl, chars, rest, -, hrun, -, -⟩ := StartsWithValue.exists_literal hnonempty hlarge
        ⟨hrest, hblanks, .nested hliteral hwell hdepth⟩
      obtain ⟨c, tail, hc, htree⟩ := Tree.exists_bytes_eq_cons hliteral
      rw [htree, List.cons_append] at hrun
      obtain rfl : c.toUInt8 = first := (List.cons.inj hrun).1
      exact absurd ⟨c, hc, rfl⟩ (not_isByteOf_of_mem_fragment hlarge
        (fun _ => utf8Size_of_isOpening) List.mem_cons_self)

/-- A tree that is no literal is read wherever its bytes stand. -/
theorem valueAt_of_nested
    (hbytes : text.bytes = before ++ (blanks ++ tree.text.bytes ++ after))
    (hblanks : ∀ b ∈ blanks, Text.IsByteOf (isBlank ·) b)
    (hliteral : ∀ text, tree ≠ .literal text) (hwell : tree.WellFormed)
    (hdepth : tree.depth ≤ settings.maxDepth) :
    valueAt settings text before.length =
      ⟨((tree.objects blanks.length).filterMap (Placed.reported? settings)).map
          (Site.shift before.length),
        .ok (before.length + (blanks ++ tree.text.bytes).length)⟩ := by
  obtain ⟨front, spaces, rest, rfl, hfront, rfl, hspaces⟩ :=
    exists_eq_append_of_nested hbytes hblanks hliteral hwell hdepth
  have hprecede : tree.CanPrecede rest := by
    cases tree with
    | literal text => exact absurd rfl (hliteral text)
    | string | emptyArray | array | emptyObject | object => trivial
  rw [← hfront, valueAt_of_tree hspaces hwell hdepth hprecede, ← Tree.filterMap_reported?_shift,
    ← Text.bytes_append, Text.length_bytes, Text.length_bytes, Text.size_append,
    Nat.add_comm spaces.size, Nat.add_assoc]

/-- A literal is read wherever its bytes stand in front of a delimiter, and no
site is found. -/
theorem valueAt_of_literal {run : List UInt8}
    (hbytes : text.bytes = before ++ (blanks ++ run ++ after))
    (hblanks : ∀ b ∈ blanks, Text.IsByteOf (isBlank ·) b) (hnonempty : run ≠ [])
    (hrun : ∀ b ∈ run, ¬ Text.IsByteOf IsDelimiter b)
    (hhead : ∀ b ∈ run.head?, ¬ Text.IsByteOf IsOpening b)
    (hafter : ∀ b ∈ after.head?, Text.IsByteOf IsDelimiter b) :
    valueAt settings text before.length =
      ⟨[], .ok (before.length + (blanks ++ run).length)⟩ := by
  have hvalue : IsValueBytes settings.maxDepth run after := .literal hnonempty hrun hhead hafter
  have hstart : before.length ≤ text.size := by
    rw [← Text.length_bytes, hbytes, List.length_append]
    exact Nat.le_add_right _ _
  obtain ⟨before', fragment, hbytes', hbefore, hfragment, hlarge⟩ :=
    Text.exists_bytes_eq_append_tailAt hstart
  obtain ⟨-, hrest⟩ := List.append_inj (hbytes'.symm.trans hbytes) hbefore
  cases fragment with
  | nil =>
      obtain ⟨front, htext, hfront⟩ := Text.exists_eq_append_tailAt hstart hfragment.symm
      rw [List.nil_append, List.append_assoc] at hrest
      obtain ⟨spaces, behind, hspaces, rfl, hbehind, hallBlank⟩ :=
        Text.exists_eq_append_of_bytes (fun _ => utf8Size_of_isBlank) hrest hblanks
      obtain ⟨tree, rest, rfl, rfl, hwell, hdepth, hprecede⟩ := hvalue.exists_tree hbehind.symm
      obtain ⟨literal, rfl⟩ : ∃ literal, tree = .literal literal := by
        by_contra hliteral
        obtain ⟨c, tail, hc, htree⟩ :=
          Tree.exists_bytes_eq_cons fun literal htree => hliteral ⟨literal, htree⟩
        exact hhead c.toUInt8 (by rw [htree]; rfl) ⟨c, hc, rfl⟩
      rw [htext, hspaces, ← hfront, ← List.append_assoc spaces,
        valueAt_of_tree hallBlank hwell hdepth hprecede, ← Text.bytes_append, Text.length_bytes,
        Text.size_append, Nat.add_assoc]
      rfl
  | cons first others =>
      have hfragmentNe : (text.tailAt before.length).fragment ≠ 0 := by
        rw [← hfragment]
        exact Nat.succ_ne_zero others.length
      obtain ⟨rfl, chars, rest, htext, rfl, hchars, hdelimited⟩ :=
        StartsWithValue.exists_literal (List.cons_ne_nil first others) hlarge
          ⟨hrest, hblanks, hvalue⟩
      have hend : before.length + (text.tailAt before.length).fragment + chars.size =
          (fragmentEnd before.length (text.tailAt before.length)).offset :=
        offset_fragmentEnd_iff.mpr ⟨chars, rest, htext, hchars, hdelimited, rfl⟩
      rw [valueAt]
      dsimp only
      rw [if_neg hfragmentNe, ext_iff, found_pure, result_pure, ← hend]
      refine ⟨rfl, congrArg Except.ok ?_⟩
      rw [List.nil_append, List.length_append, hfragment, Text.length_bytes, Nat.add_assoc]

/-! ## Values -/

theorem exists_isValueBytes_of_valueAt {start stop : Nat}
    (hresult : (valueAt settings text start).result = .ok stop) :
    ∃ before blanks run after : List UInt8, text.bytes = before ++ (blanks ++ run ++ after) ∧
      before.length = start ∧ (∀ b ∈ blanks, Text.IsByteOf (isBlank ·) b) ∧
      IsValueBytes settings.maxDepth run after ∧ stop = start + (blanks ++ run).length := by
  have hstart : start ≤ text.size := by
    by_contra hpast
    exact valueAt_ne_ok_of_size_lt (Nat.lt_of_not_le hpast) hresult
  obtain ⟨before, fragment, hbytes, hbefore, hfragment, hlarge⟩ :=
    Text.exists_bytes_eq_append_tailAt hstart
  obtain ⟨blanks, run, after, ⟨hstarts, hblanks, hvalue⟩, hstop⟩ :=
    (valueAt_eq_ok_iff_startsWithValue hfragment hlarge).mp hresult
  rw [hstarts] at hbytes
  refine ⟨before, blanks, run, after, hbytes, hbefore, hblanks, hvalue, ?_⟩
  rw [hstop, List.length_append, Nat.add_assoc]

/-- If a value is read from an offset of a text, then the same bytes are read as a
value wherever they stand in another text, to their end, and the same sites are
found with all their offsets moved by the same number.  For this an object, an array
or a string may be followed by anything, and a literal by the end of the text or by
a delimiter. -/
theorem valueAt_local {settings : Settings} {text other : Text} {start stop start' : Nat}
    {found : List Site} (hread : valueAt settings text start = ⟨found, .ok stop⟩)
    (hsame : (other.bytes.drop start').take (stop - start) =
      (text.bytes.drop start).take (stop - start))
    (hend : (∃ b ∈ text.leadingByte? start, Text.IsByteOf IsOpening b) ∨
      ∀ b ∈ other.bytes[start' + (stop - start)]?, Text.IsByteOf IsDelimiter b) :
    ∃ found', valueAt settings other start' = ⟨found', .ok (start' + (stop - start))⟩ ∧
      List.Forall₂ (Site.Relocated fun old new => (new : Int) = old + ((start' : Int) - start))
        found found' := by
  obtain ⟨before, blanks, run, after, hbytes, rfl, hblanks, hvalue, rfl⟩ :=
    exists_isValueBytes_of_valueAt (congrArg Scan.result hread)
  have hrange : (other.bytes.drop start').take (blanks ++ run).length = blanks ++ run := by
    rw [Nat.add_sub_cancel_left, hbytes, List.drop_left, List.take_left] at hsame
    exact hsame
  rw [Nat.add_sub_cancel_left] at hend ⊢
  cases hvalue with
  | literal hnonempty hrun hhead hafter =>
      obtain ⟨before', after', hother, rfl⟩ := Text.exists_bytes_eq_append_of_take_drop
        (List.append_ne_nil_of_right_ne_nil blanks hnonempty) hrange
      have hlead : text.leadingByte? before.length = run.head? := by
        obtain ⟨b, more, rfl⟩ := List.exists_cons_of_ne_nil hnonempty
        rw [List.append_assoc, List.cons_append] at hbytes
        have hfirst : ¬ Text.IsByteOf (isBlank ·) b := fun ⟨c, hc, hb⟩ =>
          hrun b List.mem_cons_self ⟨c, .inl hc, hb⟩
        have hlead := Text.leadingByte?_eq hbytes hblanks fun _ hb => Option.some.inj hb ▸ hfirst
        exact hlead
      have hafter' : ∀ b ∈ after'.head?, Text.IsByteOf IsDelimiter b := by
        rcases hend with ⟨b, hb, hopening⟩ | hend
        · rw [hlead] at hb
          exact absurd hopening (hhead b hb)
        · rw [hother, ← List.length_append, ← List.append_assoc, List.getElem?_append_right
            (Nat.le_refl _), Nat.sub_self, ← List.head?_eq_getElem?] at hend
          exact hend
      rw [valueAt_of_literal hbytes hblanks hnonempty hrun hhead hafter] at hread
      cases hread
      exact ⟨[], valueAt_of_literal hother hblanks hnonempty hrun hhead hafter', .nil⟩
  | @nested tree _ hliteral hwell hdepth =>
      obtain ⟨c, tail, -, htree⟩ := Tree.exists_bytes_eq_cons hliteral
      have hnonempty : blanks ++ tree.text.bytes ≠ [] :=
        List.append_ne_nil_of_right_ne_nil blanks (htree ▸ List.cons_ne_nil _ tail)
      obtain ⟨before', after', hother, rfl⟩ :=
        Text.exists_bytes_eq_append_of_take_drop hnonempty hrange
      rw [valueAt_of_nested hbytes hblanks hliteral hwell hdepth] at hread
      cases hread
      refine ⟨_, valueAt_of_nested hother hblanks hliteral hwell hdepth, ?_⟩
      rw [List.forall₂_map_left_iff, List.forall₂_map_right_iff]
      exact List.forall₂_same.mpr fun site _ => Site.relocated_shift _ _ site

end Scan

/-! ## Scanners -/

theorem Request.scan_value_eq_iff {settings : Settings} {text : Text} {start stop : Nat}
    {found : List Site} :
    (value start).scan settings text = ⟨found, .ok (.stop stop)⟩ ↔
      Scan.valueAt settings text start = ⟨found, .ok stop⟩ := by
  rw [scan, Scan.ext_iff, Scan.ext_iff, Scan.found_bind, Scan.result_bind]
  rcases Scan.valueAt settings text start with ⟨inside, fault | offset⟩
  · simp [Except.bind]
  · simp [Except.bind]

namespace Scanner

/-- If a scanner reads a value, then any scanner with the same settings and as many
arrays and objects open reads the same bytes as a value, wherever they stand in its
text, to their end.  It adds the same sites to those that it has found before, with all
their offsets moved by the same number.  For this an object, an array or a string may
be followed by anything, and a literal by the end of the text or by a delimiter. -/
theorem ask_value_local {scanner later other : Scanner} {start stop start' : Nat}
    (hread : scanner.ask (.value start) = (.ok (.stop stop), later))
    (hsettings : other.settings = scanner.settings) (hdepth : other.depth = scanner.depth)
    (hsame : (other.text.bytes.drop start').take (stop - start) =
      (scanner.text.bytes.drop start).take (stop - start))
    (hend : (∃ b ∈ scanner.text.leadingByte? start, Text.IsByteOf IsOpening b) ∨
      ∀ b ∈ other.text.bytes[start' + (stop - start)]?, Text.IsByteOf IsDelimiter b) :
    ∃ found found', later = { scanner with found := scanner.found ++ found } ∧
      other.ask (.value start') = (.ok (.stop (start' + (stop - start))),
        { other with found := other.found ++ found' }) ∧
      List.Forall₂ (Site.Relocated fun old new => (new : Int) = old + ((start' : Int) - start))
        found found' := by
  rw [ask_eq_below, Prod.mk.injEq] at hread
  obtain ⟨hresult, hlater⟩ := hread
  have hvalue := Request.scan_value_eq_iff.mp (Scan.ext_iff.mpr ⟨rfl, hresult⟩)
  obtain ⟨found', hother, hsites⟩ := Scan.valueAt_local hvalue hsame hend
  refine ⟨_, found', hlater.symm, ?_, hsites⟩
  rw [ask_eq_below, hsettings, hdepth, Request.scan_value_eq_iff.mpr hother]

/-- An object behind a blank is read again two bytes earlier in a text in which
something else follows, by a scanner that has found another site before.  A literal is
read again where a comma follows it in place of a bracket. -/
theorem ask_value_local_of_object_and_literal :
    ∃ (scanner other : Scanner) (site earlier site' : Site),
      scanner.text = "é \x7b\"id\":\"é\",\"tags\":[]\x7d,7]".toList ∧
      other.text = " \x7b\"id\":\"é\",\"tags\":[]\x7dx7,".toList ∧
      site = ⟨['é'], 14, 21, 23⟩ ∧ earlier = ⟨['x'], 0, 5, 9⟩ ∧
      other.settings = scanner.settings ∧ scanner.found = [] ∧ other.found = [earlier] ∧
      scanner.ask (.value 2) = (.ok (.stop 24), { scanner with found := [site] }) ∧
      other.ask (.value 0) = (.ok (.stop 22), { other with found := [earlier, site'] }) ∧
      site.Relocated (fun old new => (new : Int) = old - 2) site' ∧
      scanner.ask (.value 25) = (.ok (.stop 26), scanner) ∧
      other.ask (.value 23) = (.ok (.stop 24), other) := by
  obtain ⟨scanner, hscanner⟩ : ∃ scanner : Scanner,
      scanner = new {} "é \x7b\"id\":\"é\",\"tags\":[]\x7d,7]".toList := ⟨_, rfl⟩
  obtain ⟨other, hother⟩ : ∃ other : Scanner,
      other = { new {} " \x7b\"id\":\"é\",\"tags\":[]\x7dx7,".toList with
        found := [⟨['x'], 0, 5, 9⟩] } := ⟨_, rfl⟩
  have hsettings : other.settings = scanner.settings := by
    rw [hscanner, hother]
    rfl
  have hdepth : other.depth = scanner.depth := by
    rw [hscanner, hother]
    rfl
  have hobject : scanner.ask (.value 2) =
      (.ok (.stop 24), { scanner with found := [⟨['é'], 14, 21, 23⟩] }) := by
    rw [hscanner]
    decide +kernel
  have hliteral : scanner.ask (.value 25) = (.ok (.stop 26), scanner) := by
    rw [hscanner]
    decide +kernel
  have hsameObject : (other.text.bytes.drop 0).take (24 - 2) =
      (scanner.text.bytes.drop 2).take (24 - 2) := by
    rw [hscanner, hother]
    decide +kernel
  have hsameLiteral : (other.text.bytes.drop 23).take (26 - 25) =
      (scanner.text.bytes.drop 25).take (26 - 25) := by
    rw [hscanner, hother]
    decide +kernel
  have hopening : ∃ b ∈ scanner.text.leadingByte? 2, Text.IsByteOf IsOpening b :=
    ⟨'\x7b'.toUInt8, by rw [hscanner]; decide +kernel, '\x7b', .inl rfl, rfl⟩
  have hdelimiter : ∀ b ∈ other.text.bytes[23 + (26 - 25)]?, Text.IsByteOf IsDelimiter b := by
    have hcomma : other.text.bytes[23 + (26 - 25)]? = some ','.toUInt8 := by
      rw [hother]
      decide +kernel
    intro b hb
    rw [hcomma, Option.mem_some_iff] at hb
    exact ⟨',', .inr (.inl rfl), hb.symm⟩
  have hempty : scanner.found = [] := by
    rw [hscanner]
    rfl
  have hearlier : other.found = [⟨['x'], 0, 5, 9⟩] := by rw [hother]
  obtain ⟨found, found', hfound, hread, hsites⟩ :=
    ask_value_local hobject hsettings hdepth hsameObject (.inl hopening)
  obtain ⟨none, none', hnone, hagain, hsites'⟩ :=
    ask_value_local hliteral hsettings hdepth hsameLiteral (.inr hdelimiter)
  have hfound' := congrArg (fun later : Scanner => later.found) hfound
  have hnone' := congrArg (fun later : Scanner => later.found) hnone
  dsimp only at hfound' hnone'
  rw [hempty, List.nil_append] at hfound' hnone'
  subst hfound' hnone'
  cases hsites'
  obtain ⟨site', _, hsite, hrest, rfl⟩ := List.forall₂_cons_left_iff.mp hsites
  cases hrest
  rw [hearlier] at hread
  rw [List.append_nil] at hagain
  refine ⟨scanner, other, _, _, site', ?_, ?_, rfl, rfl, hsettings, hempty, hearlier, hobject,
    hread, hsite, hliteral, hagain⟩
  · rw [hscanner, new]
  · rw [hother]
    rfl

end Scanner

end ArrayPatch
