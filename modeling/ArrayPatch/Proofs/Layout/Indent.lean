import ArrayPatch.Proofs.Text.Before
import ArrayPatch.Proofs.Text.Lines
import Mathlib.Data.List.TakeWhile
import Mathlib.Order.Bounds.Basic

/-!
# The unit of indentation that a text shows

A text shows the indentation of every line that has a character other than white space
behind a run of spaces and tabs.  The unit is found by going through the lines, and it
ends there with the first tab; what is found is told by the set of the indentations that
the text shows, whatever their order.
-/

namespace ArrayPatch

namespace Text

variable {text line leading : Text}

/-- The line starts with a run of indentation in front of a character that is no white
space. -/
def IsIndentedBy (line leading : Text) : Prop :=
  ∃ c rest, line = leading ++ c :: rest ∧ leading ≠ [] ∧ (∀ d ∈ leading, isIndent d) ∧
    ¬ isWhiteSpace c

/-- A line of the text has this indentation. -/
def ShowsIndent (text leading : Text) : Prop :=
  ∃ line, text.HasLine line ∧ line.IsIndentedBy leading

theorem indentation?_eq_some_iff :
    line.indentation? = some leading ↔ line.IsIndentedBy leading := by
  constructor
  · intro hindentation
    have hcut := List.takeWhile_append_dropWhile (p := isIndent) (l := line)
    rw [indentation?] at hindentation
    split at hindentation
    · rename_i first run c rest hleading hrest
      rw [hleading, hrest] at hcut
      split at hindentation
      · cases hindentation
      · rename_i hblank
        rw [hleading] at hindentation
        obtain rfl := Option.some.inj hindentation
        refine ⟨c, rest, hcut.symm, List.cons_ne_nil _ _, ?_, hblank⟩
        intro d hd
        rw [← hleading] at hd
        exact List.mem_takeWhile_imp hd
    · cases hindentation
  · rintro ⟨c, rest, rfl, hne, hrun, hblank⟩
    have hstop : ∀ d ∈ (c :: rest).head?, ¬ isIndent d := by
      rintro d hd hindent
      obtain rfl : c = d := Option.some.inj hd
      exact hblank (isWhiteSpace_of_isBlank (isBlank_of_isIndent hindent))
    obtain ⟨d, leading, rfl⟩ := List.exists_cons_of_ne_nil hne
    rw [indentation?, takeWhile_run_append hrun hstop, dropWhile_run_append hrun hstop]
    dsimp only
    rw [if_neg hblank]

/-- The indentations that are found are those that the text shows. -/
theorem mem_indentations_iff :
    leading ∈ text.lines.filterMap indentation? ↔ text.ShowsIndent leading := by
  simp only [List.mem_filterMap, mem_lines_iff, indentation?_eq_some_iff, ShowsIndent]

/-- Indentation at the start of a line is shown if something stands behind it. -/
theorem showsIndent_append {before rest : Text} {c : Char}
    (hbefore : before = [] ∨ before.getLast? = some '\n') (hne : leading ≠ [])
    (hindent : ∀ d ∈ leading, isIndent d) (hblank : ¬ isWhiteSpace c) :
    ShowsIndent (before ++ (leading ++ c :: rest)) leading := by
  have hstart : ∀ {front : Text}, '\n' ∉ front → '\n' ∉ leading ++ c :: front := by
    intro front hfront hfeed
    rcases List.mem_append.mp hfeed with hfeed | hfeed
    · exact absurd (hindent _ hfeed) (by decide)
    · rcases List.mem_cons.mp hfeed with rfl | hfeed
      · exact hblank (by decide)
      · exact hfront hfeed
  by_cases hfeed : '\n' ∈ rest
  · obtain ⟨front, after, rfl, hfront⟩ := List.eq_append_cons_of_mem hfeed
    have hreturn : c ≠ '\r' := by
      rintro rfl
      exact hblank (by decide)
    refine ⟨leading ++ c :: withoutReturn front, ⟨before, leading ++ c :: front, '\n' :: after,
      by simp, hbefore, hstart hfront, .inr ⟨rfl, ?_⟩⟩, c, _, rfl, hne, hindent, hblank⟩
    rw [withoutReturn_append leading (List.cons_ne_nil c front),
      withoutReturn_cons (.inr hreturn)]
  · exact ⟨leading ++ c :: rest, ⟨before, _, [], by simp, hbefore, hstart hfeed, .inl ⟨rfl, rfl⟩⟩,
      c, rest, rfl, hne, hindent, hblank⟩

/-- Up to the end of the indentation of a line the line is its indentation. -/
theorem indentationAt?_append {before : Text}
    (hbefore : before = [] ∨ before.getLast? = some '\n') (hindent : ∀ d ∈ leading, isIndent d)
    (behind : Text) :
    indentationAt? (before ++ leading ++ behind) (size (before ++ leading)) = some leading := by
  have hfeed : '\n' ∉ leading := fun hfeed => absurd (hindent _ hfeed) (by decide)
  have hstart : before.lastLine = [] := by
    rcases hbefore with rfl | hlast
    · rfl
    · obtain ⟨front, rfl⟩ := List.getLast?_eq_some_iff.mp hlast
      exact lastLine_append (List.forall_mem_nil _)
  rw [indentationAt?, splitAt?_size_append, Option.map_some]
  dsimp only
  rw [lastLine_append_of_not_mem before hfeed, hstart, List.nil_append,
    List.takeWhile_eq_self_iff.mpr hindent]

end Text

namespace Layout

variable {leadings : List Text} {text : Text} {count : Nat}

/-- The unit is a tab if there is a tab anywhere. -/
theorem indentOf_eq_tab_iff (shortest : Option Nat) :
    indentOf shortest leadings = .tab ↔ ∃ leading ∈ leadings, '\t' ∈ leading := by
  induction leadings generalizing shortest with
  | nil => cases shortest <;> simp [indentOf]
  | cons leading leadings ih =>
      rw [indentOf]
      by_cases htab : '\t' ∈ leading
      · simp [htab]
      · simp [htab, ih]

theorem indentOf_some_eq_spaces (htab : ∀ leading ∈ leadings, '\t' ∉ leading) (shortest : Nat) :
    indentOf (some shortest) leadings =
      .spaces ((leadings.map List.length).foldl min shortest) := by
  induction leadings generalizing shortest with
  | nil => rfl
  | cons leading leadings ih =>
      obtain ⟨hleading, hleadings⟩ := List.forall_mem_cons.mp htab
      rw [indentOf, if_neg hleading, ih hleadings, List.map_cons, List.foldl_cons]
      simp only [Option.elim_some, Nat.min_comm]

theorem indentOf_none_eq_min? (htab : ∀ leading ∈ leadings, '\t' ∉ leading) :
    indentOf none leadings = (leadings.map List.length).min?.elim (.spaces 2) .spaces := by
  cases leadings with
  | nil => rfl
  | cons leading leadings =>
      obtain ⟨hleading, hleadings⟩ := List.forall_mem_cons.mp htab
      rw [indentOf, if_neg hleading, Option.elim_none, indentOf_some_eq_spaces hleadings,
        List.map_cons, List.min?_cons', Option.elim_some]

/-! ## A text -/

/-- The unit is a tab exactly if some line shows one. -/
theorem detectIndent_eq_tab_iff :
    detectIndent text = .tab ↔ ∃ leading, text.ShowsIndent leading ∧ '\t' ∈ leading := by
  simp only [detectIndent, indentOf_eq_tab_iff, Text.mem_indentations_iff]

theorem isLeast_length_iff :
    IsLeast {length | ∃ leading, text.ShowsIndent leading ∧ leading.length = length} count ↔
      ((text.lines.filterMap Text.indentation?).map List.length).min? = some count := by
  rw [List.min?_eq_some_iff]
  simp only [IsLeast, lowerBounds, Set.mem_ofPred_eq, List.mem_map, Text.mem_indentations_iff]

theorem not_showsIndent_iff :
    (∀ leading, ¬ text.ShowsIndent leading) ↔
      ((text.lines.filterMap Text.indentation?).map List.length).min? = none := by
  rw [List.min?_eq_none_iff, List.map_eq_nil_iff, List.eq_nil_iff_forall_not_mem]
  simp only [Text.mem_indentations_iff]

/-- Otherwise it is as many spaces as the shortest indentation has, or two if there is
none. -/
theorem detectIndent_eq_spaces_iff :
    detectIndent text = .spaces count ↔
      (∀ leading, text.ShowsIndent leading → '\t' ∉ leading) ∧
        (IsLeast {length | ∃ leading, text.ShowsIndent leading ∧ leading.length = length} count ∨
          (∀ leading, ¬ text.ShowsIndent leading) ∧ count = 2) := by
  by_cases htab : ∃ leading, text.ShowsIndent leading ∧ '\t' ∈ leading
  · rw [detectIndent_eq_tab_iff.mpr htab]
    obtain ⟨leading, hshows, hmem⟩ := htab
    exact iff_of_false (by simp) fun hspaces => hspaces.1 leading hshows hmem
  · have hnone : ∀ leading, text.ShowsIndent leading → '\t' ∉ leading :=
      fun leading hshows hmem => htab ⟨leading, hshows, hmem⟩
    rw [detectIndent, indentOf_none_eq_min? fun leading hleading =>
      hnone leading (Text.mem_indentations_iff.mp hleading), and_iff_right hnone]
    rw [isLeast_length_iff, not_showsIndent_iff]
    cases ((text.lines.filterMap Text.indentation?).map List.length).min? with
    | none => simp [eq_comm]
    | some shortest => simp

theorem detectIndent_ne_zero (text : Text) : detectIndent text ≠ .spaces 0 := by
  intro hzero
  rcases (detectIndent_eq_spaces_iff.mp hzero).2 with ⟨⟨leading, hshows, hlength⟩, -⟩ | ⟨-, htwo⟩
  · obtain ⟨line, -, c, rest, -, hne, -⟩ := hshows
    exact hne (List.length_eq_zero_iff.mp hlength)
  · cases htwo

/-- The unit is told by the indentations that are shown. -/
theorem detectIndent_congr {other : Text}
    (hsame : ∀ leading, other.ShowsIndent leading ↔ text.ShowsIndent leading) :
    detectIndent other = detectIndent text := by
  cases hunit : detectIndent text with
  | tab =>
      rw [detectIndent_eq_tab_iff] at hunit ⊢
      simpa only [hsame] using hunit
  | spaces count =>
      rw [detectIndent_eq_spaces_iff] at hunit ⊢
      simpa only [hsame] using hunit

/-- A line that is shown bounds the unit. -/
theorem detectIndent_of_showsIndent {leading : Text} (hshows : text.ShowsIndent leading) :
    ('\t' ∈ leading → detectIndent text = .tab) ∧
      ('\t' ∉ leading → detectIndent text = .tab ∨
        ∃ count, detectIndent text = .spaces count ∧ 0 < count ∧ count ≤ leading.length) := by
  constructor
  · intro htab
    exact detectIndent_eq_tab_iff.mpr ⟨leading, hshows, htab⟩
  · intro _
    cases hunit : detectIndent text with
    | tab => exact .inl rfl
    | spaces count =>
        right
        have hpos : 0 < count := by
          apply Nat.pos_of_ne_zero
          rintro rfl
          exact detectIndent_ne_zero text hunit
        refine ⟨count, rfl, hpos, ?_⟩
        rcases (detectIndent_eq_spaces_iff.mp hunit).2 with ⟨-, hleast⟩ | ⟨hnothing, -⟩
        · exact hleast ⟨leading, hshows, rfl⟩
        · exact absurd hshows (hnothing leading)

end Layout

end ArrayPatch
