import ArrayPatch.Proofs.Document.Divided

/-!
# Updates in a row override each other

What is written in an earlier update is written over by a later one where both name
an array, and stays where only the earlier one does.  The result is that of a single
update with the one desired state overridden by the other, provided that every key
that is named starts its line and no array that is named lies inside another one.
-/

namespace ArrayPatch

open Grammar Patch Segment

/-- Two updates of a divided text in a row come to one update, by any desired state
that has the lists of the second one and, for other identifiers, those of the first. -/
theorem Divided.update_update {settings : Settings} {text rest : Text} {index : SiteIndex}
    {segments : List Segment} {layout : Layout} {first second both : Desired}
    (hdivided : Divided text index segments rest) (hvalid : settings.fault? = none)
    (hlocate : SiteIndex.locate settings text = .ok index)
    (hfirst : Include segments first) (hsecond : Include segments second)
    (hboth : ∀ identifier,
      both.find? identifier = (second.find? identifier).or (first.find? identifier)) :
    ∃ once again out, update text layout index first = .ok once ∧
      SiteIndex.locate settings once = .ok again ∧
      update once layout again second = .ok out ∧ update text layout index both = .ok out := by
  obtain ⟨again, honce, hagain, hdividedOnce⟩ := hdivided.exists_update hfirst hvalid hlocate
  obtain ⟨_, hout, -, -⟩ :=
    hdividedOnce.exists_update (hsecond.map_write layout first) hvalid hagain
  obtain ⟨_, hdirect, -, -⟩ :=
    hdivided.exists_update (hfirst.of_find?_eq_or hsecond hboth) hvalid hlocate
  rw [List.map_map, write_write hboth] at hout
  exact ⟨_, again, _, honce, hagain, hout, hdirect⟩

/-- If every key that is named starts its line and no array that is named lies inside
another one, then updating twice is updating once with the first desired state
overridden by the second one.  So an update done again changes nothing, and updates
that name no identifier in common can be done in either order. -/
theorem update_update_eq_update_override {settings : Settings} {text : Text} {index : SiteIndex}
    (hvalid : settings.fault? = none) (hlocate : SiteIndex.locate settings text = .ok index)
    (layout : Layout) (first second : Desired)
    (hknown : ∀ identifier, first.contains identifier ∨ second.contains identifier →
      index.contains identifier)
    (hlines : ∀ identifier site, first.contains identifier ∨ second.contains identifier →
      index.find? identifier = some site → site.StartsLine text)
    (hapart : ∀ outer inner outerSite innerSite,
      first.contains outer ∨ second.contains outer →
      first.contains inner ∨ second.contains inner →
      index.find? outer = some outerSite → index.find? inner = some innerSite → outer ≠ inner →
      ¬ (outerSite.valueStart ≤ innerSite.valueStart ∧
        innerSite.valueEnd ≤ outerSite.valueEnd)) :
    ∃ once again out, update text layout index first = .ok once ∧
      SiteIndex.locate settings once = .ok again ∧
      update once layout again second = .ok out ∧
      update text layout index (first.override second) = .ok out ∧
      (second = first → out = once) ∧
      ((∀ identifier, first.contains identifier → ¬ second.contains identifier) →
        ∃ other otherAgain, update text layout index second = .ok other ∧
          SiteIndex.locate settings other = .ok otherAgain ∧
          update other layout otherAgain first = .ok out) := by
  obtain ⟨-, -, hfields, -⟩ := settings.fault?_eq_none_iff.mp hvalid
  obtain ⟨blanks, tree, after, hlocated⟩ := SiteIndex.exists_located hfields hlocate
  have hfind : ∀ site ∈ index.entries, index.find? site.identifier = some site :=
    fun site hsite => Catalog.find?_eq_some_iff.mpr ⟨hsite, rfl⟩
  have hwithin : ∀ outer ∈ index.entries, ∀ inner ∈ index.entries,
      first.contains outer.identifier ∨ second.contains outer.identifier →
      first.contains inner.identifier ∨ second.contains inner.identifier →
      ¬ inner.Within outer := by
    intro outer houter inner hinner houterNamed hinnerNamed hwithin
    have hlow := hwithin.low_lt
    have hkey := hwithin.keyStart_lt
    have hhigh := hwithin.lt_high
    have hne : outer.identifier ≠ inner.identifier := by
      intro hname
      cases Catalog.eq_of_name_eq houter hinner hname
      omega
    exact hapart _ _ outer inner houterNamed hinnerNamed (hfind outer houter) (hfind inner hinner)
      hne ⟨by omega, by omega⟩
  obtain ⟨segments, rest, hdivided, hsegments⟩ :=
    exists_divided hlocated
      (fun identifier => first.contains identifier ∨ second.contains identifier)
      (fun site hsite hnamed => hlines _ site hnamed (hfind site hsite)) hwithin
  have hall : ∀ identifier, first.contains identifier ∨ second.contains identifier →
      ∃ segment ∈ segments, segment.identifier = identifier := by
    intro identifier hnamed
    obtain ⟨site, hsite, rfl⟩ := Catalog.contains_iff.mp (hknown identifier hnamed)
    exact hsegments site hsite hnamed
  have hfirst : Include segments first := fun identifier hcontains =>
    hall identifier (.inl hcontains)
  have hsecond : Include segments second := fun identifier hcontains =>
    hall identifier (.inr hcontains)
  obtain ⟨once, again, out, honce, hagain, htwice, hboth⟩ :=
    hdivided.update_update hvalid hlocate hfirst hsecond (Catalog.find?_override first second)
  refine ⟨once, again, out, honce, hagain, htwice, hboth, ?_, ?_⟩
  · intro hsame
    subst hsame
    obtain ⟨_, _, _, hother, hotherAgain, hotherTwice, hdirect⟩ :=
      hdivided.update_update hvalid hlocate hsecond hsecond fun _ => Option.or_self.symm
    cases honce.symm.trans hother
    cases hagain.symm.trans hotherAgain
    cases htwice.symm.trans hotherTwice
    exact Except.ok.inj (hdirect.symm.trans honce)
  · intro hdisjoint
    obtain ⟨other, otherAgain, swapped, hother, hotherAgain, hswapped, hsame⟩ :=
      hdivided.update_update hvalid hlocate hsecond hfirst
        (Catalog.find?_override_of_disjoint hdisjoint)
    cases hboth.symm.trans hsame
    exact ⟨other, otherAgain, hother, hotherAgain, hswapped⟩

/-- Two objects in an array.  The first update fills the array of one of them; the
second one empties both. -/
theorem update_update_of_two_objects :
    ∃ (text once out : Text) (first second : Desired) (index again : SiteIndex),
      text = "[\x7b\"id\":\"a\",\n\"tags\":[]\x7d,\x7b\"id\":\"b\",\n\"tags\":[1]\x7d]".toList ∧
      first = Catalog.ofList [(['a'], [['x']])] ∧
      second = Catalog.ofList [(['a'], []), (['b'], [])] ∧
      once = ("[\x7b\"id\":\"a\",\n\"tags\":[\n  \"x\"\n]\x7d," ++
        "\x7b\"id\":\"b\",\n\"tags\":[1]\x7d]").toList ∧
      out = "[\x7b\"id\":\"a\",\n\"tags\":[]\x7d,\x7b\"id\":\"b\",\n\"tags\":[]\x7d]".toList ∧
      SiteIndex.locate {} text = .ok index ∧ update text {} index first = .ok once ∧
      SiteIndex.locate {} once = .ok again ∧ update once {} again second = .ok out ∧
      update text {} index (first.override second) = .ok out := by
  obtain ⟨text, htext⟩ : ∃ text : Text, text =
    "[\x7b\"id\":\"a\",\n\"tags\":[]\x7d,\x7b\"id\":\"b\",\n\"tags\":[1]\x7d]".toList := ⟨_, rfl⟩
  obtain ⟨index, hindex⟩ : ∃ index : SiteIndex,
    index = Catalog.ofList [⟨['a'], 12, 19, 21⟩, ⟨['b'], 34, 41, 44⟩] := ⟨_, rfl⟩
  obtain ⟨first, hfirst⟩ : ∃ first : Desired, first = Catalog.ofList [(['a'], [['x']])] := ⟨_, rfl⟩
  obtain ⟨second, hsecond⟩ : ∃ second : Desired,
    second = Catalog.ofList [(['a'], []), (['b'], [])] := ⟨_, rfl⟩
  have hvalid : ({} : Settings).fault? = none := rfl
  have hlocate : SiteIndex.locate {} text = .ok index := by
    rw [htext, hindex]
    decide +kernel
  have hentries : index.entries = [⟨['a'], 12, 19, 21⟩, ⟨['b'], 34, 41, 44⟩] := by
    rw [hindex]
    decide +kernel
  have hsites : ∀ {identifier site}, index.find? identifier = some site →
      site = ⟨['a'], 12, 19, 21⟩ ∨ site = ⟨['b'], 34, 41, 44⟩ := by
    intro identifier site hfind
    have hmem := (Catalog.find?_eq_some_iff.mp hfind).1
    rw [hentries] at hmem
    simpa using hmem
  have hknown : ∀ identifier, first.contains identifier ∨ second.contains identifier →
      index.contains identifier := by
    have hfirstEntries : first.entries = [(['a'], [['x']])] := by
      rw [hfirst]
      decide +kernel
    have hsecondEntries : second.entries = [(['a'], []), (['b'], [])] := by
      rw [hsecond]
      decide +kernel
    intro identifier hnamed
    rw [Catalog.contains, Catalog.contains, hfirstEntries, hsecondEntries] at hnamed
    rw [Catalog.contains, hentries]
    simp only [List.any_cons, List.any_nil, Bool.or_false, Bool.or_eq_true,
      decide_eq_true_eq] at hnamed ⊢
    exact hnamed.elim .inl id
  have hlines : ∀ identifier site, index.find? identifier = some site → site.StartsLine text := by
    intro identifier site hfind
    rcases hsites hfind with rfl | rfl
    · refine ⟨text.take 12, text.drop 12, (List.take_append_drop _ _).symm, ?_, ?_⟩
      · rw [htext]
        rfl
      · rw [show Text.lastLine (text.take 12) = [] by rw [htext]; decide +kernel]
        exact List.forall_mem_nil _
    · refine ⟨text.take 34, text.drop 34, (List.take_append_drop _ _).symm, ?_, ?_⟩
      · rw [htext]
        rfl
      · rw [show Text.lastLine (text.take 34) = [] by rw [htext]; decide +kernel]
        exact List.forall_mem_nil _
  have hapart : ∀ outer inner outerSite innerSite, index.find? outer = some outerSite →
      index.find? inner = some innerSite → outer ≠ inner →
      ¬ (outerSite.valueStart ≤ innerSite.valueStart ∧
        innerSite.valueEnd ≤ outerSite.valueEnd) := by
    intro outer inner outerSite innerSite houter hinner hne
    have houterName := (Catalog.find?_eq_some_iff.mp houter).2
    have hinnerName := (Catalog.find?_eq_some_iff.mp hinner).2
    rcases hsites houter with rfl | rfl <;> rcases hsites hinner with rfl | rfl
    · exact absurd (houterName.symm.trans hinnerName) hne
    · decide
    · decide
    · exact absurd (houterName.symm.trans hinnerName) hne
  have hfill : update text {} index first =
      .ok ("[\x7b\"id\":\"a\",\n\"tags\":[\n  \"x\"\n]\x7d," ++
        "\x7b\"id\":\"b\",\n\"tags\":[1]\x7d]").toList := by
    rw [htext, hindex, hfirst]
    decide +kernel
  have hempty : update text {} index (first.override second) =
      .ok "[\x7b\"id\":\"a\",\n\"tags\":[]\x7d,\x7b\"id\":\"b\",\n\"tags\":[]\x7d]".toList := by
    rw [htext, hindex, hfirst, hsecond]
    decide +kernel
  obtain ⟨once, again, out, honce, hagain, htwice, hboth, -⟩ :=
    update_update_eq_update_override hvalid hlocate {} first second hknown
      (fun identifier site _ => hlines identifier site)
      (fun outer inner outerSite innerSite _ _ => hapart outer inner outerSite innerSite)
  have honceText := Except.ok.inj (honce.symm.trans hfill)
  have houtText := Except.ok.inj (hboth.symm.trans hempty)
  exact ⟨text, once, out, first, second, index, again, htext, hfirst, hsecond, honceText, houtText,
    hlocate, honce, hagain, htwice, hboth⟩

end ArrayPatch
