import ArrayPatch.Proofs.Document.ReadBack

/-!
# Sessions keep what was given last

A session patches a text step by step; a step that fails leaves it as it is.
Offsets, layout and nesting change from step to step, and a step can remove the
arrays inside the one that it writes.  What lasts is told array by array: an
array that holds no other site is *settled*.  A step keeps the bytes of a settled
array that it does not name, and settles every array that it names.  So an
identifier that is still there at the end has the list of the last step that
named it, or the bytes of the first text.
-/

namespace ArrayPatch

open Grammar Patch

/-- The array of an identifier reads `raw`, and no other site lies inside it. -/
structure Settled (settings : Settings) (text : Text) (index : SiteIndex) (identifier raw : Text)
    (site : Site) : Prop where
  locate : SiteIndex.locate settings text = .ok index
  find : index.find? identifier = some site
  rawValue : site.rawValue? text = some raw
  not_within : ∀ inner ∈ index.entries, ¬ inner.Within site

namespace Patching

variable {settings : Settings} {layout : Layout} {text out : Text} {desired : Desired}
variable {index again : SiteIndex} {patches : List Patch} {blanks after : Text} {tree : Tree}
variable {identifier raw : Text} {values : List Text} {site : Site}
variable (hpatching : Patching settings layout text out desired index patches blanks tree after)

include hpatching

/-- No step adds an identifier. -/
theorem contains_of_contains_again (hagain : SiteIndex.locate settings out = .ok again)
    (hcontains : again.contains identifier) : index.contains identifier := by
  obtain ⟨site, hfind, -⟩ := (hpatching.contains_again_iff hagain).mp hcontains
  exact Catalog.isSome_find?_iff.mp (Option.isSome_of_eq_some hfind)

theorem not_inside_of_settled (hsettled : Settled settings text index identifier raw site)
    (hnamed : desired.find? identifier = none) :
    ∀ patch ∈ patches, ¬ (site.valueStart ≤ patch.start ∧ patch.stop ≤ site.valueEnd) := by
  rintro patch hpatch ⟨hbefore, hbehind⟩
  obtain ⟨other, values, hother, hdesired, hrenders⟩ :=
    exists_renders_of_mem hpatching.build hpatch
  obtain ⟨hsite, hname⟩ := Catalog.find?_eq_some_iff.mp hsettled.find
  obtain ⟨hotherSite, hotherName⟩ := Catalog.find?_eq_some_iff.mp hother
  have hstart := hrenders.start_eq
  have hstop := hrenders.stop_eq
  have hkey := (hpatching.located.between_of_mem hsite).keyStart_lt
  have hotherKey := (hpatching.located.between_of_mem hotherSite).keyStart_lt
  have hotherValue := (hpatching.located.between_of_mem hotherSite).valueStart_lt
  rcases hpatching.located.nested_of_mem hotherSite hsite with rfl | hapart | hwithin | hwithin
  · obtain rfl : patch.identifier = identifier := hotherName.symm.trans hname
    cases hnamed.symm.trans hdesired
  · rcases hapart with hapart | hapart <;> omega
  · exact hsettled.not_within other hotherSite hwithin
  · have hlow := hwithin.low_lt
    omega

/-- A settled array that a step does not name keeps its bytes, and stays settled. -/
theorem exists_settled_of_not_named (hsettled : Settled settings text index identifier raw site)
    (hnamed : desired.find? identifier = none)
    (hagain : SiteIndex.locate settings out = .ok again)
    (hcontains : again.contains identifier) :
    ∃ moved, Settled settings out again identifier raw moved := by
  obtain ⟨other, hother, hsurvives⟩ := (hpatching.contains_again_iff hagain).mp hcontains
  cases hsettled.find.symm.trans hother
  obtain ⟨moved, kept, hmoved, hmoves, hold, hnew⟩ := hpatching.rawValue?_of_survives hagain
    hsettled.find hsurvives (hpatching.not_inside_of_settled hsettled hnamed)
  cases hsettled.rawValue.symm.trans hold
  refine ⟨moved, hagain, hmoved, hnew, ?_⟩
  intro movedInner hmovedInner hwithin
  obtain ⟨inner, hinner, hinnerSurvives, hinnerMoves⟩ :=
    hpatching.exists_survivor hagain hmovedInner
  have hsite := (Catalog.find?_eq_some_iff.mp hsettled.find).1
  exact hsettled.not_within inner hinner
    (hpatching.within_of_moved hsite hinner hsurvives hinnerSurvives hmoves hinnerMoves hwithin)

/-- A step settles every array that it names, as the rendering of the list that it
gives. -/
theorem exists_settled_of_named (hdesired : desired.find? identifier = some (identifier, values))
    (hagain : SiteIndex.locate settings out = .ok again)
    (hcontains : again.contains identifier) :
    ∃ moved indentation, AllBlank indentation ∧
      Settled settings out again identifier (layout.render indentation values) moved := by
  obtain ⟨site, hfind, hsurvives⟩ := (hpatching.contains_again_iff hagain).mp hcontains
  obtain ⟨moved, indentation, hmoved, -, hindentation, hraw⟩ :=
    hpatching.exists_rendered_of_survives hagain hfind hdesired hsurvives
  have hblank := Text.allBlank_of_indentationAt? hindentation
  obtain ⟨-, -, hfields, -⟩ := settings.fault?_eq_none_iff.mp hpatching.valid
  obtain ⟨_, _, _, hlocated⟩ := SiteIndex.exists_located hfields hagain
  refine ⟨moved, indentation, hblank, hagain, hmoved, hraw, ?_⟩
  intro inner hinner
  exact hlocated.not_within_of_rawValue? hagain hfields hblank
    (Catalog.find?_eq_some_iff.mp hmoved).1 hinner hraw

end Patching

/-! ## Runs -/

/-- The list that the last successful step naming an identifier gives to it. -/
def lastGiven? (settings : Settings) (identifier : Text) (current : Text) :
    List Desired → Option (List Text)
  | [] => none
  | desired :: steps =>
      (lastGiven? settings identifier (sessionStep settings current desired) steps).or
        (match patchText settings current desired with
          | .ok _ => (desired.find? identifier).map Prod.snd
          | .error _ => none)

/-- From one text to a later one no identifier is added, and the arrays that are
still there are settled: with the list last given, or with what they had. -/
structure Lasts (settings : Settings) (given? : Text → Option (List Text)) (text : Text)
    (index : SiteIndex) (current : Text) (now : SiteIndex) : Prop where
  locate : SiteIndex.locate settings current = .ok now
  contains : ∀ {identifier}, now.contains identifier → index.contains identifier
  given : ∀ {identifier values}, now.contains identifier → given? identifier = some values →
    ∃ moved layout indentation, AllBlank indentation ∧
      Settled settings current now identifier (Layout.render layout indentation values) moved
  kept : ∀ {identifier raw site}, now.contains identifier → given? identifier = none →
    Settled settings text index identifier raw site →
    ∃ moved, Settled settings current now identifier raw moved

namespace Lasts

variable {settings : Settings} {text mid current : Text} {index between now : SiteIndex}
variable {given? first? second? : Text → Option (List Text)}

theorem refl (hlocate : SiteIndex.locate settings text = .ok index) :
    Lasts settings (fun _ => none) text index text index where
  locate := hlocate
  contains := id
  given _ hgiven := by cases hgiven
  kept _ _ hsettled := ⟨_, hsettled⟩

/-- What is given later lasts, and what is given earlier lasts unless more is given
later. -/
theorem trans (hfirst : Lasts settings first? text index mid between)
    (hsecond : Lasts settings second? mid between current now) :
    Lasts settings (fun identifier => (second? identifier).or (first? identifier)) text index
      current now where
  locate := hsecond.locate
  contains hcontains := hfirst.contains (hsecond.contains hcontains)
  given := by
    intro identifier values hcontains hgiven
    rcases Option.or_eq_some_iff.mp hgiven with hlater | ⟨hlater, hearlier⟩
    · exact hsecond.given hcontains hlater
    · obtain ⟨moved, layout, indentation, hblank, hsettled⟩ :=
        hfirst.given (hsecond.contains hcontains) hearlier
      obtain ⟨last, hlast⟩ := hsecond.kept hcontains hlater hsettled
      exact ⟨last, layout, indentation, hblank, hlast⟩
  kept := by
    intro identifier raw site hcontains hgiven hsettled
    obtain ⟨hlater, hearlier⟩ := Option.or_eq_none_iff.mp hgiven
    obtain ⟨moved, hmoved⟩ := hfirst.kept (hsecond.contains hcontains) hearlier hsettled
    exact hsecond.kept hcontains hlater hmoved

end Lasts

section Runs

variable {settings : Settings} {text : Text} {index : SiteIndex}

/-- One step, which succeeds or leaves the text as it is. -/
theorem exists_lasts_sessionStep (hlocate : SiteIndex.locate settings text = .ok index)
    (desired : Desired) :
    ∃ again, Lasts settings (fun identifier => lastGiven? settings identifier text [desired]) text
      index (sessionStep settings text desired) again := by
  simp only [sessionStep, lastGiven?, Option.none_or]
  cases hpatch : patchText settings text desired with
  | error failure => exact ⟨index, .refl hlocate⟩
  | ok out =>
      obtain ⟨other, patches, blanks, tree, after, hpatching⟩ := exists_patching hpatch
      cases hlocate.symm.trans hpatching.locate
      obtain ⟨again, hagain, -⟩ := hpatching.exists_locate
      refine ⟨again, hagain, hpatching.contains_of_contains_again hagain, ?_, ?_⟩
      · intro identifier values hcontains hgiven
        obtain ⟨⟨name, others⟩, hdesired, rfl⟩ := Option.map_eq_some_iff.mp hgiven
        obtain rfl : name = identifier := (Catalog.find?_eq_some_iff.mp hdesired).2
        obtain ⟨moved, indentation, hblank, hsettled⟩ :=
          hpatching.exists_settled_of_named hdesired hagain hcontains
        exact ⟨moved, _, indentation, hblank, hsettled⟩
      · intro identifier raw site hcontains hgiven hsettled
        exact hpatching.exists_settled_of_not_named hsettled (Option.map_eq_none_iff.mp hgiven)
          hagain hcontains

/-- A whole run, by induction on the steps. -/
theorem exists_lasts_session (hlocate : SiteIndex.locate settings text = .ok index)
    (steps : List Desired) :
    ∃ now, Lasts settings (fun identifier => lastGiven? settings identifier text steps) text index
      (session settings text steps) now := by
  induction steps generalizing text index with
  | nil => exact ⟨index, .refl hlocate⟩
  | cons desired steps ih =>
      obtain ⟨again, hstep⟩ := exists_lasts_sessionStep hlocate desired
      obtain ⟨now, hrest⟩ := ih hstep.locate
      exact ⟨now, hstep.trans hrest⟩

end Runs

/-- After any run of a session the text is located, and it has no identifier that
the first text has not.  From every identifier that is still there the list of the
last successful step that named it is read.  If no successful step named it, and
if its array held no other site at first, then the array has the bytes that it had
at first. -/
theorem exists_locate_session {settings : Settings} {text : Text} {index : SiteIndex}
    (hvalid : settings.fault? = none) (hlocate : SiteIndex.locate settings text = .ok index)
    (steps : List Desired) :
    ∃ now, SiteIndex.locate settings (session settings text steps) = .ok now ∧
      (∀ identifier, now.contains identifier → index.contains identifier) ∧
      ∀ identifier site, now.find? identifier = some site →
        (∀ values, lastGiven? settings identifier text steps = some values →
          site.readValues settings (session settings text steps) = .ok (some values)) ∧
        (lastGiven? settings identifier text steps = none →
          ∀ first, index.find? identifier = some first →
            (∀ inner ∈ index.entries, ¬ inner.Within first) →
            ∃ raw, first.rawValue? text = some raw ∧
              site.rawValue? (session settings text steps) = some raw) := by
  obtain ⟨now, hlasts⟩ := exists_lasts_session hlocate steps
  refine ⟨now, hlasts.locate, fun _ => hlasts.contains, ?_⟩
  intro identifier site hfind
  have hcontains := Catalog.isSome_find?_iff.mp (Option.isSome_of_eq_some hfind)
  refine ⟨?_, ?_⟩
  · intro values hgiven
    obtain ⟨moved, layout, indentation, hblank, hsettled⟩ := hlasts.given hcontains hgiven
    cases hfind.symm.trans hsettled.find
    exact Site.readValues_of_rawValue? hvalid hblank hsettled.rawValue
  · intro hgiven first hfirst hinner
    obtain ⟨-, -, hfields, -⟩ := settings.fault?_eq_none_iff.mp hvalid
    obtain ⟨blanks, tree, after, hlocated⟩ := SiteIndex.exists_located hfields hlocate
    obtain ⟨raw, hraw⟩ := hlocated.exists_rawValue? (Catalog.find?_eq_some_iff.mp hfirst).1
    obtain ⟨moved, hsettled⟩ :=
      hlasts.kept hcontains hgiven ⟨hlocate, hfirst, hraw, hinner⟩
    cases hfind.symm.trans hsettled.find
    exact ⟨raw, hraw, hsettled.rawValue⟩

/-- Of three steps the second one names an identifier without a site and fails; the
list of the first one gives way to that of the third one. -/
theorem exists_locate_session_of_failed_step :
    ∃ text steps index now site,
      text = "\x7b\"id\":\"a\",\"tags\":[1]\x7d".toList ∧
      steps = [Catalog.ofList [(['a'], [['x']])], Catalog.ofList [(['b'], [])],
        Catalog.ofList [(['a'], [['y']])]] ∧
      ({} : Settings).fault? = none ∧ SiteIndex.locate {} text = .ok index ∧
      SiteIndex.locate {} (session {} text steps) = .ok now ∧ now.find? ['a'] = some site ∧
      site.readValues {} (session {} text steps) = .ok (some [['y']]) := by
  obtain ⟨text, htext⟩ : ∃ text : Text, text = "\x7b\"id\":\"a\",\"tags\":[1]\x7d".toList :=
    ⟨_, rfl⟩
  obtain ⟨steps, hsteps⟩ : ∃ steps : List Desired, steps = [Catalog.ofList [(['a'], [['x']])],
    Catalog.ofList [(['b'], [])], Catalog.ofList [(['a'], [['y']])]] := ⟨_, rfl⟩
  have hvalid : ({} : Settings).fault? = none := by
    decide +kernel
  have hfound : (SiteIndex.locate {} text).map (fun index => index.contains ['a']) = .ok true := by
    rw [htext]
    decide +kernel
  have hlast : (SiteIndex.locate {} (session {} text steps)).map
      (fun now => (now.find? ['a']).isSome) = .ok true := by
    rw [htext, hsteps]
    decide +kernel
  have hgiven : lastGiven? {} ['a'] text steps = some [['y']] := by
    rw [htext, hsteps]
    decide +kernel
  obtain ⟨index, hlocate⟩ : ∃ index, SiteIndex.locate {} text = .ok index := by
    cases hlocate : SiteIndex.locate {} text with
    | error error =>
        rw [hlocate] at hfound
        cases hfound
    | ok index => exact ⟨index, rfl⟩
  obtain ⟨now, hnow, -, hread⟩ := exists_locate_session hvalid hlocate steps
  rw [hnow] at hlast
  obtain ⟨site, hsite⟩ := Option.isSome_iff_exists.mp (Except.ok.inj hlast)
  exact ⟨text, steps, index, now, site, htext, hsteps, hvalid, hlocate, hnow, hsite,
    (hread _ site hsite).1 _ hgiven⟩

end ArrayPatch
