import ArrayPatch.Proofs.Scan.Passing
import ArrayPatch.Scan.Scanner
import Mathlib.Tactic.Common

/-!
# A scanner serves every request as the first one

The readers of a scanner do what the scans do that are given the number of
arrays and objects that may still be opened: they end in the same way, they add
the sites of the scan to those found before, and they leave the count of what is
open as it was.  So a scanner with some arrays and objects open serves a request
as one does whose settings allow only what may still be opened.  Nothing else
that a scanner has done before changes what it does next, and after any requests
it keeps the sites of all of them, in their order.
-/

namespace ArrayPatch

/-- The settings for what may still be opened while some arrays and objects are
open. -/
def Settings.below (settings : Settings) (depth : Nat) : Settings :=
  { settings with maxDepth := settings.maxDepth - depth }

@[simp]
theorem Settings.below_zero (settings : Settings) : settings.below 0 = settings :=
  rfl

/-- If one more may be opened, fewer than the limit are open. -/
theorem Settings.lt_and_eq_of_below {settings : Settings} {depth rest : Nat}
    (hrest : (settings.below depth).maxDepth = rest + 1) :
    depth < settings.maxDepth ∧ settings.maxDepth - (depth + 1) = rest := by
  dsimp only [below] at hrest
  omega

namespace Scan

/-- A scan inside one more array or object, if one may be opened. -/
def within {α : Type} (scan : Nat → Scan α) (offset : Nat) : (depth : Nat) → Scan α
  | 0 => fail .nestingTooDeep offset
  | depth + 1 => scan depth

theorem value_bracket (settings : Settings) (depth offset : Nat) (rest : Text) :
    value settings depth ⟨offset, '[' :: rest⟩ = do
      let next ← within (fun below => elements (value settings below) offset ⟨offset + 1, rest⟩)
        offset depth
      return ⟨next.1, Nat.lt_succ_of_lt next.2⟩ := by
  have hskip := Cursor.skipBlanks_cons offset rest (show ¬ isBlank '[' by decide)
  rw [value]
  split
  · rename_i hend
    cases hskip.symm.trans hend
  · rename_i hstart
    cases hskip.symm.trans hstart
    cases depth with
    | zero => rfl
    | succ below => rfl

/-! ## The limit of the settings

The readers take the number of arrays and objects that may be opened as an
argument.  Of the settings they look at the field names only.
-/

section Below

variable (settings : Settings) (depth : Nat)
variable (element : (cursor : Cursor) → Scan (After cursor)) (opening : Nat)

theorem member_below (slots : Slots) (cursor : Cursor) :
    member element opening (settings.below depth) slots cursor =
      member element opening settings slots cursor :=
  rfl

theorem moreMembers_below (slots : Slots) (cursor : Cursor) :
    moreMembers element opening (settings.below depth) slots cursor =
      moreMembers element opening settings slots cursor := by
  fun_induction moreMembers element opening settings slots cursor with
  | case1 slots cursor offset hskip =>
      rw [moreMembers]
      split <;> rename_i hskip' <;> cases hskip.symm.trans hskip'
      rfl
  | case2 slots cursor offset rest start hstart hskip hrest ih =>
      rw [moreMembers]
      split <;> rename_i hskip' <;> cases hskip.symm.trans hskip'
      dsimp only
      rw [if_pos rfl]
      simp only [ih]
      rfl
  | case3 slots cursor offset rest hskip hrest hcomma =>
      rw [moreMembers]
      split <;> rename_i hskip' <;> cases hskip.symm.trans hskip'
      rfl
  | case4 slots cursor offset c rest hskip hrest hcomma hclose =>
      rw [moreMembers]
      split <;> rename_i hskip' <;> cases hskip.symm.trans hskip'
      dsimp only
      rw [if_neg hcomma, if_neg hclose]

theorem members_below (cursor : Cursor) :
    members element opening (settings.below depth) cursor =
      members element opening settings cursor := by
  unfold members
  simp only [moreMembers_below, member_below]

@[simp]
theorem value_below (limit : Nat) :
    value (settings.below depth) limit = value settings limit := by
  induction limit with
  | zero =>
      funext cursor
      unfold value
      rfl
  | succ limit ih =>
      funext cursor
      unfold value
      simp only [members_below, ih]

theorem strings_below (limit : Nat) :
    strings (settings.below depth) limit = strings settings limit := by
  funext cursor
  unfold strings
  simp only [value_below]

end Below

end Scan

/-- A monad of steps each of which does what a run does, whatever else it leaves
behind. -/
class MonadRun (m : Type → Type) extends MonadScan m where
  run {α : Type} (step : m α) : Run α
  run_pure {α : Type} (a : α) : run (pure a) = (Pure.pure a : Run α)
  run_bind {α β : Type} (step : m α) (next : α → m β) :
    run (step >>= next) = (run step).bind fun a => run (next a)
  run_ofExcept {α : Type} (result : Except Fault α) :
    run (MonadScan.ofExcept result : m α) = (MonadScan.ofExcept result : Run α)
  run_report (site? : Option Site) :
    run (MonadScan.report site? : m Unit) = (MonadScan.report site? : Run Unit)
  run_turn {α : Type} (offset : Nat) (step : m α) : run (MonadScan.turn offset step) = run step
  run_nested {α : Type} (limit offset : Nat) (step : m α) :
    run (MonadScan.nested limit offset step) = Run.nested limit offset (run step)

instance : MonadRun Run where
  run step := step
  run_pure _ := rfl
  run_bind _ _ := rfl
  run_ofExcept _ := rfl
  run_report _ := rfl
  run_turn _ _ := rfl
  run_nested _ _ _ := rfl

namespace Reader

open MonadScan MonadRun

variable {m : Type → Type} [MonadRun m] {α β : Type}

/-- A step that is run while some arrays and objects are open does what a scan
does, and leaves as many open. -/
def Follows (step : m α) (depth : Nat) (scan : Scan α) : Prop :=
  ∀ found, run step ⟨depth, found⟩ = (scan.result, ⟨depth, found ++ scan.found⟩)

/-! ## Single steps -/

section Steps

variable {step : m α} {scan other : Scan α} {depth : Nat}

theorem Follows.of_eq (hstep : Follows step depth scan) (heq : scan = other) :
    Follows step depth other :=
  heq ▸ hstep

theorem Follows.of_forall (hstep : ∀ other, scan = other → Follows step depth other) :
    Follows step depth scan :=
  hstep scan rfl

theorem follows_pure (a : α) : Follows (pure a : m α) depth (pure a) := by
  intro found
  rw [run_pure, Scan.found_pure, List.append_nil]
  rfl

theorem follows_ofExcept (result : Except Fault α) :
    Follows (ofExcept result : m α) depth (Scan.ofExcept result) := by
  intro found
  rw [run_ofExcept, Scan.ofExcept, List.append_nil]
  rfl

theorem follows_fail (flaw : Flaw) (offset : Nat) :
    Follows (fail flaw offset : m α) depth (Scan.fail flaw offset) :=
  follows_ofExcept (.error ⟨flaw, offset⟩)

theorem follows_report (site? : Option Site) :
    Follows (report site? : m Unit) depth (Scan.report site?) := by
  intro found
  rw [run_report]
  rfl

theorem Follows.turn (offset : Nat) (hstep : Follows step depth scan) :
    Follows (turn offset step) depth scan := by
  intro found
  rw [run_turn, hstep found]

/-- Steps one after the other. -/
theorem Follows.bind {next : α → m β} {nextScan : α → Scan β} (hstep : Follows step depth scan)
    (hnext : ∀ a, Follows (next a) depth (nextScan a)) :
    Follows (step >>= next) depth (scan >>= nextScan) := by
  intro found
  rw [run_bind]
  rw [Run.bind, hstep found]
  rcases scan with ⟨first, fault | a⟩
  · rfl
  · dsimp only
    rw [hnext a, List.append_assoc]
    rfl

/-- No step is taken inside one more array or object if as many as the limit are
open. -/
theorem follows_nested_of_le {limit : Nat} (offset : Nat) (hlimit : limit ≤ depth) :
    Follows (nested limit offset step) depth (Scan.fail .nestingTooDeep offset) := by
  intro found
  rw [run_nested, Run.nested, if_pos hlimit, Scan.fail, List.append_nil]

/-- A step inside one more array or object: the count is back where it was. -/
theorem Follows.nested_of_lt {limit : Nat} (offset : Nat) (hlimit : depth < limit)
    (hstep : Follows step (depth + 1) scan) : Follows (nested limit offset step) depth scan := by
  intro found
  rw [run_nested, Run.nested, if_neg (Nat.not_le_of_lt hlimit), hstep found]
  rfl

/-- A step inside one more array or object, if one may be opened. -/
theorem Follows.nested {limit : Nat} {below : Nat → Scan α} (offset : Nat)
    (hstep : Follows step (depth + 1) (below (limit - (depth + 1)))) :
    Follows (nested limit offset step) depth (Scan.within below offset (limit - depth)) := by
  by_cases hlimit : limit ≤ depth
  · rw [Nat.sub_eq_zero_of_le hlimit]
    exact follows_nested_of_le offset hlimit
  · have hmore : limit - depth = limit - (depth + 1) + 1 := by omega
    rw [hmore]
    exact hstep.nested_of_lt offset (Nat.lt_of_not_le hlimit)

end Steps

/-! ## Readers -/

variable (settings : Settings)

mutual

theorem follows_value (depth : Nat) (cursor : Cursor) :
    Follows (value settings cursor : m (After cursor)) depth
      (Scan.value settings (settings.maxDepth - depth) cursor) := by
  refine Follows.of_forall fun scan hscan => ?_
  rw [Scan.value] at hscan
  rw [value]
  split
  · rename_i offset hskip
    split at hscan
    · rename_i hskip'
      cases hskip.symm.trans hskip'
      exact (follows_fail _ _).of_eq hscan
    · rename_i hskip'
      cases hskip.symm.trans hskip'
  · rename_i offset c rest hskip
    split at hscan
    · rename_i hskip'
      cases hskip.symm.trans hskip'
    · rename_i hskip'
      cases hskip.symm.trans hskip'
      have hrest := Cursor.length_lt_of_skipBlanks_eq hskip
      by_cases hobject : c = '\x7b'
      · simp only [if_pos hobject] at hscan ⊢
        refine ((follows_object depth offset ⟨offset + 1, rest⟩).bind
          fun next => follows_pure _).of_eq ?_
        rw [← hscan]
        cases settings.maxDepth - depth with
        | zero => rfl
        | succ below => rfl
      · simp only [if_neg hobject] at hscan ⊢
        by_cases harray : c = '['
        · simp only [if_pos harray] at hscan ⊢
          refine ((follows_array depth offset ⟨offset + 1, rest⟩).bind
            fun next => follows_pure _).of_eq ?_
          rw [← hscan]
          cases settings.maxDepth - depth with
          | zero => rfl
          | succ below => rfl
        · simp only [if_neg harray] at hscan ⊢
          exact ((follows_ofExcept _).bind fun next => follows_pure _).of_eq hscan
termination_by 6 * cursor.rest.length
decreasing_by all_goals omega

theorem follows_array (depth opening : Nat) (cursor : Cursor) :
    Follows (array settings opening cursor : m (After cursor)) depth
      (Scan.within (fun below => Scan.elements (Scan.value settings below) opening cursor) opening
        (settings.maxDepth - depth)) := by
  rw [array]
  exact (follows_elements (depth + 1) opening cursor).nested opening
termination_by 6 * cursor.rest.length + 2

theorem follows_elements (depth opening : Nat) (cursor : Cursor) :
    Follows (elements settings opening cursor : m (After cursor)) depth
      (Scan.elements (Scan.value settings (settings.maxDepth - depth)) opening cursor) := by
  refine Follows.of_forall fun scan hscan => ?_
  rw [Scan.elements] at hscan
  rw [elements]
  split
  · rename_i hskip
    split at hscan
    · exact ((follows_fail _ _).turn _).of_eq hscan
    · rename_i hskip'
      cases hskip.symm.trans hskip'
  · rename_i offset c rest hskip
    split at hscan
    · rename_i hskip'
      cases hskip.symm.trans hskip'
    · rename_i hskip'
      cases hskip.symm.trans hskip'
      have hrest := Cursor.length_lt_of_skipBlanks_eq hskip
      by_cases hclose : c = ']'
      · simp only [if_pos hclose] at hscan ⊢
        exact (follows_pure _).of_eq hscan
      · simp only [if_neg hclose] at hscan ⊢
        refine (((follows_value depth ⟨offset, c :: rest⟩).bind fun next => ?_).turn _).of_eq hscan
        have := next.2
        exact (follows_moreElements depth opening next.1).bind fun last => follows_pure _
termination_by 6 * cursor.rest.length + 1
decreasing_by all_goals (simp only [List.length_cons] at *; omega)

theorem follows_moreElements (depth opening : Nat) (cursor : Cursor) :
    Follows (moreElements settings opening cursor : m (After cursor)) depth
      (Scan.moreElements (Scan.value settings (settings.maxDepth - depth)) opening cursor) := by
  refine Follows.of_forall fun scan hscan => ?_
  rw [Scan.moreElements] at hscan
  rw [moreElements]
  split
  · rename_i hskip
    split at hscan
    · exact (follows_fail _ _).of_eq hscan
    · rename_i hskip'
      cases hskip.symm.trans hskip'
  · rename_i offset c rest hskip
    split at hscan
    · rename_i hskip'
      cases hskip.symm.trans hskip'
    · rename_i hskip'
      cases hskip.symm.trans hskip'
      have hrest := Cursor.length_lt_of_skipBlanks_eq hskip
      have hitem := Cursor.length_skipBlanks_le ⟨offset + 1, rest⟩
      by_cases hcomma : c = ','
      · simp only [if_pos hcomma] at hscan ⊢
        refine Follows.turn _ ?_
        by_cases hend : (Cursor.skipBlanks ⟨offset + 1, rest⟩).rest = []
        · simp only [if_pos hend] at hscan ⊢
          exact (follows_fail _ _).of_eq hscan
        · simp only [if_neg hend] at hscan ⊢
          refine ((follows_value depth (Cursor.skipBlanks ⟨offset + 1, rest⟩)).bind
            fun next => ?_).of_eq hscan
          have := next.2
          exact (follows_moreElements depth opening next.1).bind fun last => follows_pure _
      · simp only [if_neg hcomma] at hscan ⊢
        by_cases hclose : c = ']'
        · simp only [if_pos hclose] at hscan ⊢
          exact (follows_pure _).of_eq hscan
        · simp only [if_neg hclose] at hscan ⊢
          exact (follows_fail _ _).of_eq hscan
termination_by 6 * cursor.rest.length
decreasing_by all_goals (dsimp only at *; omega)

theorem follows_object (depth opening : Nat) (cursor : Cursor) :
    Follows (object settings opening cursor : m (After cursor)) depth
      (Scan.within (fun below => Scan.members (Scan.value settings below) opening settings cursor)
        opening (settings.maxDepth - depth)) := by
  rw [object]
  exact (follows_members (depth + 1) opening cursor).nested opening
termination_by 6 * cursor.rest.length + 5

theorem follows_members (depth opening : Nat) (cursor : Cursor) :
    Follows (members settings opening cursor : m (After cursor)) depth
      (Scan.members (Scan.value settings (settings.maxDepth - depth)) opening settings cursor) := by
  refine Follows.of_forall fun scan hscan => ?_
  rw [Scan.members] at hscan
  rw [members]
  split
  · rename_i hskip
    split at hscan
    · exact ((follows_fail _ _).turn _).of_eq hscan
    · rename_i hskip'
      cases hskip.symm.trans hskip'
  · rename_i offset c rest hskip
    split at hscan
    · rename_i hskip'
      cases hskip.symm.trans hskip'
    · rename_i hskip'
      cases hskip.symm.trans hskip'
      have hrest := Cursor.length_lt_of_skipBlanks_eq hskip
      by_cases hclose : c = '\x7d'
      · simp only [if_pos hclose] at hscan ⊢
        exact (follows_pure _).of_eq hscan
      · simp only [if_neg hclose] at hscan ⊢
        refine (((follows_member depth opening {} ⟨offset, c :: rest⟩).bind
          fun yielded => ?_).turn _).of_eq hscan
        obtain ⟨slots, next⟩ := yielded
        have := next.2
        exact (follows_moreMembers depth opening slots next.1).bind fun last => follows_pure _
termination_by 6 * cursor.rest.length + 4
decreasing_by all_goals (simp only [List.length_cons] at *; omega)

theorem follows_member (depth opening : Nat) (slots : Scan.Slots) (cursor : Cursor) :
    Follows (member settings opening slots cursor : m (Scan.Slots × After cursor)) depth
      (Scan.member (Scan.value settings (settings.maxDepth - depth)) opening settings slots
        cursor) := by
  rw [member, Scan.member]
  cases cursor.rest.head? with
  | none => exact follows_fail _ _
  | some c =>
      by_cases hquote : c = '"'
      · simp only [if_pos hquote]
        refine (follows_ofExcept _).bind fun yielded => ?_
        obtain ⟨key, behind⟩ := yielded
        have hkey := behind.2
        refine Follows.of_forall fun scan hscan => ?_
        dsimp only at hscan ⊢
        split
        · rename_i hskip
          split at hscan
          · exact (follows_fail _ _).of_eq hscan
          · rename_i hskip'
            cases hskip.symm.trans hskip'
        · rename_i offset c rest hskip
          split at hscan
          · rename_i hskip'
            cases hskip.symm.trans hskip'
          · rename_i hskip'
            cases hskip.symm.trans hskip'
            have hrest := Cursor.length_lt_of_skipBlanks_eq hskip
            have hstart := Cursor.length_skipBlanks_le ⟨offset + 1, rest⟩
            by_cases hcolon : c = ':'
            · simp only [if_pos hcolon] at hscan ⊢
              rw [← hscan]
              exact (follows_memberValue depth opening slots key cursor.offset
                (Cursor.skipBlanks ⟨offset + 1, rest⟩)).bind fun yielded => follows_pure _
            · simp only [if_neg hcolon] at hscan ⊢
              exact (follows_fail _ _).of_eq hscan
      · simp only [if_neg hquote]
        exact follows_fail _ _
termination_by 6 * cursor.rest.length + 3
decreasing_by all_goals (dsimp only at *; omega)

theorem follows_memberValue (depth opening : Nat) (slots : Scan.Slots) (key : Text)
    (keyStart : Nat) (cursor : Cursor) :
    Follows (memberValue settings opening slots key keyStart cursor : m (Scan.Slots × After cursor))
      depth
      (Scan.memberValue (Scan.value settings (settings.maxDepth - depth)) opening settings slots
        key keyStart cursor) := by
  rcases cursor with ⟨offset, _ | ⟨c, rest⟩⟩
  · rw [memberValue, Scan.memberValue]
    exact follows_fail _ _
  · rw [memberValue, Scan.memberValue]
    simp only [List.head?_cons]
    by_cases hidentifier : c = '"' ∧ key = settings.identifierField
    · simp only [if_pos hidentifier]
      exact (follows_ofExcept _).bind fun yielded => follows_pure _
    · simp only [if_neg hidentifier]
      by_cases htarget : c = '[' ∧ key = settings.targetField
      · simp only [if_pos htarget]
        obtain ⟨rfl, -⟩ := htarget
        rw [Scan.value_bracket, Scan.bind_assoc]
        exact (follows_array depth offset ⟨offset + 1, rest⟩).bind fun next => follows_pure _
      · simp only [if_neg htarget]
        exact (follows_value depth ⟨offset, c :: rest⟩).bind fun next => follows_pure _
termination_by 6 * cursor.rest.length + 1
decreasing_by all_goals (simp only [List.length_cons]; omega)

theorem follows_moreMembers (depth opening : Nat) (slots : Scan.Slots) (cursor : Cursor) :
    Follows (moreMembers settings opening slots cursor : m (After cursor)) depth
      (Scan.moreMembers (Scan.value settings (settings.maxDepth - depth)) opening settings slots
        cursor) := by
  refine Follows.of_forall fun scan hscan => ?_
  rw [Scan.moreMembers] at hscan
  rw [moreMembers]
  split
  · rename_i hskip
    split at hscan
    · exact (follows_fail _ _).of_eq hscan
    · rename_i hskip'
      cases hskip.symm.trans hskip'
  · rename_i offset c rest hskip
    split at hscan
    · rename_i hskip'
      cases hskip.symm.trans hskip'
    · rename_i hskip'
      cases hskip.symm.trans hskip'
      have hrest := Cursor.length_lt_of_skipBlanks_eq hskip
      have hstart := Cursor.length_skipBlanks_le ⟨offset + 1, rest⟩
      by_cases hcomma : c = ','
      · simp only [if_pos hcomma] at hscan ⊢
        refine (((follows_member depth opening slots (Cursor.skipBlanks ⟨offset + 1, rest⟩)).bind
          fun yielded => ?_).turn _).of_eq hscan
        obtain ⟨slots, next⟩ := yielded
        have := next.2
        exact (follows_moreMembers depth opening slots next.1).bind fun last => follows_pure _
      · simp only [if_neg hcomma] at hscan ⊢
        by_cases hclose : c = '\x7d'
        · simp only [if_pos hclose] at hscan ⊢
          exact ((follows_report _).bind fun _ => follows_pure _).of_eq hscan
        · simp only [if_neg hclose] at hscan ⊢
          exact (follows_fail _ _).of_eq hscan
termination_by 6 * cursor.rest.length
decreasing_by all_goals (dsimp only at *; omega)

end

theorem follows_stringElement (depth : Nat) (values : Option (List Text)) (cursor : Cursor) :
    Follows (stringElement settings values cursor : m (Option (List Text) × After cursor)) depth
      (Scan.stringElement (Scan.value settings (settings.maxDepth - depth)) values cursor) := by
  rw [stringElement.eq_def]
  split
  · rename_i values hquote
    simp only [Scan.stringElement, hquote]
    exact (follows_ofExcept _).bind fun yielded => follows_pure _
  · rename_i hother
    rw [Scan.stringElement.eq_2 _ _ _ hother]
    exact (follows_value settings depth cursor).bind fun next => follows_pure _

theorem follows_moreStrings (depth opening : Nat) (values : Option (List Text)) (cursor : Cursor) :
    Follows (moreStrings settings opening values cursor : m (Option (List Text) × After cursor))
      depth
      (Scan.moreStrings (Scan.value settings (settings.maxDepth - depth)) opening values
        cursor) := by
  refine Follows.of_forall fun scan hscan => ?_
  rw [Scan.moreStrings] at hscan
  rw [moreStrings]
  split
  · rename_i hskip
    split at hscan
    · exact (follows_fail _ _).of_eq hscan
    · rename_i hskip'
      cases hskip.symm.trans hskip'
  · rename_i offset c rest hskip
    split at hscan
    · rename_i hskip'
      cases hskip.symm.trans hskip'
    · rename_i hskip'
      cases hskip.symm.trans hskip'
      have hrest := Cursor.length_lt_of_skipBlanks_eq hskip
      have hitem := Cursor.length_skipBlanks_le ⟨offset + 1, rest⟩
      by_cases hcomma : c = ','
      · simp only [if_pos hcomma] at hscan ⊢
        refine Follows.turn _ ?_
        by_cases hend : (Cursor.skipBlanks ⟨offset + 1, rest⟩).rest = []
        · simp only [if_pos hend] at hscan ⊢
          exact (follows_fail _ _).of_eq hscan
        · simp only [if_neg hend] at hscan ⊢
          refine ((follows_stringElement settings depth values
            (Cursor.skipBlanks ⟨offset + 1, rest⟩)).bind fun yielded => ?_).of_eq hscan
          obtain ⟨values, next⟩ := yielded
          have := next.2
          exact (follows_moreStrings depth opening values next.1).bind fun last => follows_pure _
      · simp only [if_neg hcomma] at hscan ⊢
        by_cases hclose : c = ']'
        · simp only [if_pos hclose] at hscan ⊢
          exact (follows_pure _).of_eq hscan
        · simp only [if_neg hclose] at hscan ⊢
          exact (follows_fail _ _).of_eq hscan
termination_by cursor.rest.length
decreasing_by all_goals (dsimp only at *; omega)

theorem follows_stringElements (depth opening : Nat) (cursor : Cursor) :
    Follows (stringElements settings opening cursor : m (Option (List Text) × After cursor)) depth
      (Scan.stringElements (Scan.value settings (settings.maxDepth - depth)) opening cursor) := by
  refine Follows.of_forall fun scan hscan => ?_
  rw [Scan.stringElements] at hscan
  rw [stringElements]
  split
  · rename_i hskip
    split at hscan
    · exact ((follows_fail _ _).turn _).of_eq hscan
    · rename_i hskip'
      cases hskip.symm.trans hskip'
  · rename_i offset c rest hskip
    split at hscan
    · rename_i hskip'
      cases hskip.symm.trans hskip'
    · rename_i hskip'
      cases hskip.symm.trans hskip'
      by_cases hclose : c = ']'
      · simp only [if_pos hclose] at hscan ⊢
        exact (follows_pure _).of_eq hscan
      · simp only [if_neg hclose] at hscan ⊢
        refine (((follows_stringElement settings depth (some []) ⟨offset, c :: rest⟩).bind
          fun yielded => ?_).turn _).of_eq hscan
        obtain ⟨values, next⟩ := yielded
        exact (follows_moreStrings settings depth opening values next.1).bind
          fun last => follows_pure _

theorem follows_strings (depth : Nat) (cursor : Cursor) :
    Follows (strings settings cursor : m (Option (List Text) × After cursor)) depth
      (Scan.strings settings (settings.maxDepth - depth) cursor) := by
  refine Follows.of_forall fun scan hscan => ?_
  rw [Scan.strings] at hscan
  rw [strings]
  split
  · rename_i offset rest hskip
    split at hscan
    · rename_i hskip'
      cases hskip.symm.trans hskip'
      have harray : Follows (nested settings.maxDepth offset
          (stringElements settings offset ⟨offset + 1, rest⟩) : m _) depth
          (Scan.within (fun below =>
            Scan.stringElements (Scan.value settings below) offset ⟨offset + 1, rest⟩) offset
            (settings.maxDepth - depth)) :=
        (follows_stringElements settings (depth + 1) offset ⟨offset + 1, rest⟩).nested offset
      refine (harray.bind fun yielded => follows_pure _).of_eq ?_
      rw [← hscan]
      cases settings.maxDepth - depth with
      | zero => rfl
      | succ below => rfl
    · rename_i hother
      exact absurd hskip (hother offset rest)
  · rename_i hother
    split at hscan
    · rename_i offset rest hskip
      exact absurd hskip (hother offset rest)
    · exact ((follows_value settings depth _).bind fun next => follows_pure _).of_eq hscan

/-! ## Requests -/

variable (text : Text) (start : Nat)

theorem follows_valueAt (depth : Nat) : Follows (valueAt settings text start : m Nat) depth
    (Scan.valueAt (settings.below depth) text start) := by
  rw [valueAt, Scan.valueAt]
  dsimp only
  by_cases hboundary : (text.tailAt start).fragment = 0
  · rw [if_pos hboundary, if_pos hboundary, Scan.value_below]
    exact (follows_value settings depth _).bind fun next => follows_pure _
  · rw [if_neg hboundary, if_neg hboundary]
    exact follows_pure _

theorem follows_arrayAt (depth : Nat) : Follows (arrayAt settings text start : m Nat) depth
    (Scan.arrayAt (settings.below depth) text start) := by
  rw [arrayAt, Scan.arrayAt]
  cases hlimit : (settings.below depth).maxDepth with
  | zero => exact follows_nested_of_le start (Nat.le_of_sub_eq_zero hlimit)
  | succ below =>
      obtain ⟨hlt, rfl⟩ := Settings.lt_and_eq_of_below hlimit
      refine Follows.nested_of_lt start hlt ?_
      dsimp only
      by_cases hboundary : (text.tailAt (start + 1)).fragment = 0
      · rw [if_pos hboundary, if_pos hboundary, Scan.value_below]
        exact (follows_elements settings (depth + 1) start _).bind fun next => follows_pure _
      · rw [if_neg hboundary, if_neg hboundary, Scan.value_below]
        exact ((follows_moreElements settings (depth + 1) start _).bind
          fun next => follows_pure _).turn _

theorem follows_objectAt (depth : Nat) : Follows (objectAt settings text start : m Nat) depth
    (Scan.objectAt (settings.below depth) text start) := by
  rw [objectAt, Scan.objectAt]
  cases hlimit : (settings.below depth).maxDepth with
  | zero => exact follows_nested_of_le start (Nat.le_of_sub_eq_zero hlimit)
  | succ below =>
      obtain ⟨hlt, rfl⟩ := Settings.lt_and_eq_of_below hlimit
      refine Follows.nested_of_lt start hlt ?_
      dsimp only
      by_cases hboundary : (text.tailAt (start + 1)).fragment = 0
      · rw [if_pos hboundary, if_pos hboundary, Scan.value_below, Scan.members_below]
        exact (follows_members settings (depth + 1) start _).bind fun next => follows_pure _
      · rw [if_neg hboundary, if_neg hboundary]
        exact (follows_fail _ _).turn _

theorem follows_stringsAt (depth : Nat) :
    Follows (stringsAt settings text start : m (Option (List Text) × Nat)) depth
      (Scan.stringsAt (settings.below depth) text start) := by
  rw [stringsAt, Scan.stringsAt]
  dsimp only
  by_cases hboundary : (text.tailAt start).fragment = 0
  · rw [if_pos hboundary, if_pos hboundary, Scan.strings_below]
    exact (follows_strings settings depth _).bind fun yielded => follows_pure _
  · rw [if_neg hboundary, if_neg hboundary]
    exact follows_pure _

end Reader

/-- A request is served as it is scanned by settings that allow what may still be
opened. -/
theorem Request.follows_read {m : Type → Type} [MonadRun m] (settings : Settings) (depth : Nat)
    (text : Text) (request : Request) :
    Reader.Follows (request.read settings text : m Answer) depth
      (request.scan (settings.below depth) text) := by
  cases request with
  | value start =>
      exact (Reader.follows_valueAt settings text start depth).bind fun _ => Reader.follows_pure _
  | array start =>
      exact (Reader.follows_arrayAt settings text start depth).bind fun _ => Reader.follows_pure _
  | object start =>
      exact (Reader.follows_objectAt settings text start depth).bind fun _ => Reader.follows_pure _
  | strings start =>
      exact (Reader.follows_stringsAt settings text start depth).bind fun _ => Reader.follows_pure _

theorem Request.run_apply (settings : Settings) (text : Text) (request : Request) (depth : Nat)
    (found : List Site) :
    request.run settings text ⟨depth, found⟩ =
      ((request.scan (settings.below depth) text).result,
        ⟨depth, found ++ (request.scan (settings.below depth) text).found⟩) :=
  Request.follows_read (m := Run) settings depth text request found

/-- Steps that do what runs do serve a request as a run does. -/
theorem Request.run_read {m : Type → Type} [MonadRun m] (settings : Settings) (text : Text)
    (request : Request) :
    MonadRun.run (request.read settings text : m Answer) = request.run settings text := by
  funext ⟨depth, found⟩
  rw [request.run_apply]
  exact request.follows_read settings depth text found

namespace Scanner

variable (scanner : Scanner)

/-- A scanner serves a request by a scan, keeps the sites of the scan, and leaves
as many arrays and objects open. -/
theorem ask_eq_below (request : Request) :
    scanner.ask request =
      ((request.scan (scanner.settings.below scanner.depth) scanner.text).result,
        { scanner with
          found := scanner.found ++
            (request.scan (scanner.settings.below scanner.depth) scanner.text).found }) := by
  rcases scanner with ⟨⟨depth, found⟩, settings, text⟩
  rw [ask, request.run_apply settings text depth found]

/-- With nothing open the limit is that of the settings. -/
theorem ask_eq (hdepth : scanner.depth = 0) (request : Request) :
    scanner.ask request =
      ((request.scan scanner.settings scanner.text).result,
        { scanner with
          found := scanner.found ++ (request.scan scanner.settings scanner.text).found }) := by
  rw [ask_eq_below, hdepth, Settings.below_zero]

/-- A scanner with nothing open serves requests by scans, each of which depends
on its request only. -/
theorem askAll_eq (hdepth : scanner.depth = 0) (requests : List Request) :
    scanner.askAll requests =
      (requests.map fun request => (request.scan scanner.settings scanner.text).result,
        { scanner with
          found := scanner.found ++
            requests.flatMap fun request =>
              (request.scan scanner.settings scanner.text).found }) := by
  induction requests generalizing scanner with
  | nil =>
      rw [askAll, List.flatMap_nil, List.append_nil]
      rfl
  | cons request requests ih =>
      rw [askAll, ask_eq scanner hdepth]
      dsimp only
      have hrest := ih { scanner with
        found := scanner.found ++ (request.scan scanner.settings scanner.text).found } hdepth
      rw [hrest, List.map_cons, List.flatMap_cons, List.append_assoc]

end Scanner

end ArrayPatch
