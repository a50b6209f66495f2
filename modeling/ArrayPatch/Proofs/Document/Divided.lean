import ArrayPatch.Proofs.Document.Segments

/-!
# Updating a divided text

A text is divided if it is cut into segments whose sites are in its index, and if
every segment but the first starts in front of the line that its key is on.
An update whose identifiers all have segments writes the segments, and the text
that it gives is divided into the written ones.

A text can be divided at any sites of which none lies inside another one and whose
keys start their lines: no array ends on the line of such a key in front of it.
-/

namespace ArrayPatch

open Grammar Patch Segment

/-- A text cut into segments, whose sites an index holds. -/
structure Divided (text : Text) (index : SiteIndex) (segments : List Segment) (rest : Text) :
    Prop where
  text_eq : text = joined segments ++ rest
  site_mem : ∀ segment ∈ placed 0 segments, segment.2.site segment.1 ∈ index.entries
  feed_mem : ∀ segment ∈ segments.tail, '\n' ∈ segment.lead

namespace Divided

variable {settings : Settings} {text blanks after rest : Text} {index : SiteIndex} {tree : Tree}
variable {segments : List Segment} {segment : Segment} {offset : Nat}
variable (hdivided : Divided text index segments rest)

include hdivided

/-- The site of a segment is found under its identifier. -/
theorem find?_eq_some (hplaced : (offset, segment) ∈ placed 0 segments) :
    index.find? segment.identifier = some (segment.site offset) :=
  Catalog.find?_eq_some_iff.mpr ⟨hdivided.site_mem _ hplaced, rfl⟩

theorem exists_text_eq (hplaced : (offset, segment) ∈ placed 0 segments) :
    ∃ before behind,
      text = before ++ segment.lead ++ segment.key ++ segment.array ++ behind ∧
      before.size = offset ∧ (before = [] ∨ '\n' ∈ segment.lead) := by
  obtain ⟨before, behind, hjoined, rfl, hfirst⟩ := exists_before_of_mem_placed hplaced rest
  refine ⟨before, behind, ?_, (Nat.zero_add _).symm, hfirst.imp_right (hdivided.feed_mem segment)⟩
  rw [hdivided.text_eq, hjoined, Segment.text]
  simp only [List.append_assoc]

theorem rawValue?_eq_some (hplaced : (offset, segment) ∈ placed 0 segments) :
    (segment.site offset).rawValue? text = some segment.array := by
  obtain ⟨before, behind, htext, rfl, -⟩ := hdivided.exists_text_eq hplaced
  apply Text.slice?_eq_some_iff.mpr
  refine ⟨before ++ segment.lead ++ segment.key, behind, htext, ?_, ?_⟩
  · simp only [Text.size_append, Segment.site]
  · simp only [Text.size_append, Segment.site]

theorem indentationAt?_eq_some (hplaced : (offset, segment) ∈ placed 0 segments) :
    text.indentationAt? (segment.site offset).keyStart = some segment.indentation := by
  obtain ⟨before, behind, htext, rfl, hfirst⟩ := hdivided.exists_text_eq hplaced
  have hcut : text.splitAt? (segment.site before.size).keyStart =
      some (before ++ segment.lead, segment.key ++ segment.array ++ behind) := by
    apply Text.splitAt?_eq_some_iff.mpr
    refine ⟨?_, Text.size_append _ _⟩
    rw [htext]
    simp only [List.append_assoc]
  have hline : Text.lastLine (before ++ segment.lead) = segment.lead.lastLine := by
    rcases hfirst with rfl | hfeed
    · rfl
    · exact Text.lastLine_append_of_mem before hfeed
  rw [Text.indentationAt?, hcut, Option.map_some]
  dsimp only
  rw [hline, Segment.indentation]

theorem size_array_pos (hlocated : Located settings text index blanks tree after) :
    ∀ segment ∈ segments, 0 < segment.array.size := by
  intro segment hsegment
  obtain ⟨offset, hplaced⟩ := exists_mem_placed hsegment 0
  have hvalue := (hlocated.between_of_mem (hdivided.site_mem _ hplaced)).valueStart_lt
  dsimp only [Segment.site] at hvalue
  omega

section Update

variable {layout : Layout} {desired : Desired} {patches : List Patch} {patch : Patch}

/-- The patch of a segment renders its entry. -/
theorem patch?_eq_some_iff (hplaced : (offset, segment) ∈ placed 0 segments) :
    segment.patch? layout desired offset = some patch ↔
      ∃ values, desired.find? segment.identifier = some (segment.identifier, values) ∧
        patch.Renders text layout (segment.site offset) values := by
  have hraw := hdivided.rawValue?_eq_some hplaced
  have hindentation := hdivided.indentationAt?_eq_some hplaced
  rw [Segment.patch?]
  constructor
  · intro hpatch
    by_cases hsame : (segment.write layout desired).array = segment.array
    · rw [if_pos hsame] at hpatch
      cases hpatch
    · rw [if_neg hsame] at hpatch
      cases hpatch
      cases hdesired : desired.find? segment.identifier with
      | none => exact absurd (array_write_of_none hdesired) hsame
      | some entry =>
          obtain ⟨name, values⟩ := entry
          obtain rfl : name = segment.identifier := (Catalog.find?_eq_some_iff.mp hdesired).2
          refine ⟨values, rfl, rfl, rfl, rfl, ?_, ?_⟩
          · exact renderAt_eq_ok_iff.mpr ⟨_, hindentation, array_write_of_some hdesired⟩
          · rw [hraw]
            exact fun heq => hsame (Option.some.inj heq).symm
  · rintro ⟨values, hdesired, hidentifier, hstart, hstop, hrender, hchange⟩
    obtain ⟨indentation, hline, htext⟩ := renderAt_eq_ok_iff.mp hrender
    cases hindentation.symm.trans hline
    rw [← array_write_of_some hdesired] at htext
    have hname : segment.identifier = patch.identifier := hidentifier.symm
    rw [hraw, htext] at hchange
    rw [if_neg fun hsame => hchange (congrArg some hsame.symm), ← htext, ← hstart, ← hstop, hname]

variable (hinclude : Include segments desired)

include hinclude

theorem patches_perm (hlocated : Located settings text index blanks tree after)
    (hbuild : buildAll text layout index desired = .ok patches) :
    patches.Perm (Segment.patches layout desired 0 segments) := by
  have hrewrites : Rewrites (Segment.patches layout desired 0 segments) 0 _ _ :=
    rewrites_patches (hdivided.size_array_pos hlocated) rest 0
  have hnodup : (Segment.patches layout desired 0 segments).Nodup :=
    Ascends.nodup (fun patch hpatch => (hrewrites.bounds patch hpatch).2.1) hrewrites.pairwise
  apply (List.perm_ext_iff_of_nodup (nodup_map_identifier hbuild).of_map hnodup).mpr
  intro patch
  rw [mem_iff_of_buildAll hbuild, Segment.patches, List.mem_filterMap]
  constructor
  · rintro ⟨site, values, hsite, hdesired, hrenders⟩
    obtain ⟨segment, hsegment, hname⟩ := hinclude patch.identifier <|
      Catalog.isSome_find?_iff.mp (Option.isSome_of_eq_some hdesired)
    obtain ⟨offset, hplaced⟩ := exists_mem_placed hsegment 0
    rw [← hname] at hsite hdesired
    cases hsite.symm.trans (hdivided.find?_eq_some hplaced)
    exact ⟨_, hplaced, (hdivided.patch?_eq_some_iff hplaced).mpr ⟨values, hdesired, hrenders⟩⟩
  · rintro ⟨⟨offset, segment⟩, hplaced, hpatch⟩
    obtain ⟨values, hdesired, hrenders⟩ := (hdivided.patch?_eq_some_iff hplaced).mp hpatch
    have hname : patch.identifier = segment.identifier := hrenders.identifier_eq
    rw [hname]
    exact ⟨_, values, hdivided.find?_eq_some hplaced, hdesired, hrenders⟩

/-- An update writes the segments. -/
theorem exists_update (hvalid : settings.fault? = none)
    (hlocate : SiteIndex.locate settings text = .ok index) :
    ∃ again, update text layout index desired =
        .ok (joined (segments.map (write layout desired)) ++ rest) ∧
      SiteIndex.locate settings (joined (segments.map (write layout desired)) ++ rest) =
        .ok again ∧
      Divided (joined (segments.map (write layout desired)) ++ rest) again
        (segments.map (write layout desired)) rest := by
  obtain ⟨-, -, hfields, -⟩ := settings.fault?_eq_none_iff.mp hvalid
  obtain ⟨blanks, tree, after, hlocated⟩ := SiteIndex.exists_located hfields hlocate
  have hsome := hdivided.size_array_pos hlocated
  have hrewrites : Rewrites (Segment.patches layout desired 0 segments) 0 _ _ :=
    rewrites_patches hsome rest 0
  rw [← hdivided.text_eq] at hrewrites
  rcases buildAll_cases hlocated desired with ⟨identifier, hunknown, -⟩ | ⟨-, patches, hbuild⟩
  · obtain ⟨segment, hsegment, rfl⟩ := hinclude identifier hunknown.wanted
    obtain ⟨offset, hplaced⟩ := exists_mem_placed hsegment 0
    exact absurd (Catalog.contains_iff.mpr ⟨_, hdivided.site_mem _ hplaced, rfl⟩) hunknown.unknown
  · have hperm := hdivided.patches_perm hinclude hlocated hbuild
    have happly := hrewrites.applyAll_eq_ok hperm
    have hpatching := patching_of_applyAll hvalid hlocate hbuild happly hlocated.document
    obtain ⟨again, hagain, -⟩ := hpatching.exists_locate
    refine ⟨again, ?_, hagain, rfl, ?_, ?_⟩
    · rw [update, hbuild]
      exact happly
    · intro new hnew
      have hpart := hrewrites.part
      rw [hdivided.text_eq] at hpart
      obtain ⟨old, hold, hwritten⟩ := exists_mem_of_forall₂ (written_placed hsome hpart) hnew
      obtain ⟨moved, hmoved, hmoves⟩ := hpatching.exists_moved hagain
        (hdivided.site_mem old hold) ((Site.survives_perm hperm).mpr hwritten.survives)
      rw [hwritten.movesTo.eq (hmoves.perm hperm)]
      exact hmoved
    · intro new hnew
      rw [← List.map_tail] at hnew
      obtain ⟨old, hold, rfl⟩ := List.mem_map.mp hnew
      exact hdivided.feed_mem old hold

end Update

end Divided

/-! ## Dividing a text -/

/-- In front of a key stands nothing but indentation on its line. -/
def Site.StartsLine (text : Text) (site : Site) : Prop :=
  ∃ before behind, text = before ++ behind ∧ before.size = site.keyStart ∧
    ∀ c ∈ before.lastLine, isIndent c

/-- A text ends with a closing bracket. -/
def Text.EndsArray (text : Text) : Prop :=
  ∃ front, text = front ++ [']']

section Dividing

variable {settings : Settings} {text blanks after before tail : Text} {index : SiteIndex}
variable {tree : Tree} {site : Site}
variable (hlocated : Located settings text index blanks tree after)

include hlocated

/-- A text is cut at a site. -/
theorem exists_segment (hsite : site ∈ index.entries) (htext : text = before ++ tail)
    (hle : before.size ≤ site.keyStart) :
    ∃ (segment : Segment) (behind : Text), tail = segment.text ++ behind ∧
      segment.site before.size = site ∧ segment.array.EndsArray := by
  obtain ⟨pieces, front, back, hkey, hkeyStart⟩ := hlocated.exists_key hsite
  obtain ⟨array, harray, ⟨prior, behind, hvalue, hvalueStart⟩, hend⟩ :=
    hlocated.exists_array hsite
  have hlt := (hlocated.between_of_mem hsite).keyStart_lt
  rw [Nat.zero_add] at hkeyStart hvalueStart
  rw [List.append_assoc] at hkey hvalue
  obtain ⟨lead, rfl, rfl⟩ := Text.exists_eq_append_of_size_le (htext.symm.trans hkey) (by omega)
  obtain ⟨key, rfl, hback⟩ :=
    Text.exists_eq_append_of_size_le (hkey.symm.trans hvalue) (by omega)
  refine ⟨⟨site.identifier, lead, key, array.text⟩, behind, ?_, ?_,
    (Tree.exists_brackets_of_isArray harray).2⟩
  · rw [hback, Segment.text]
    simp only [List.append_assoc]
  · simp only [Text.size_append] at hkeyStart hvalueStart
    rw [Segment.site, Site.mk.injEq]
    refine ⟨rfl, hkeyStart, hvalueStart, ?_⟩
    rw [hend, ← hvalueStart]

omit hlocated in
/-- Behind an array a key that starts its line has a line feed in front of it. -/
theorem feed_mem_lead {segment : Segment} {behind : Text} (hbefore : before.EndsArray)
    (htext : text = before ++ (segment.text ++ behind))
    (hline : (segment.site before.size).StartsLine text) : '\n' ∈ segment.lead := by
  obtain ⟨front, rfl⟩ := hbefore
  obtain ⟨first, second, hcut, hsize, hindent⟩ := hline
  have hsame : text =
      front ++ [']'] ++ segment.lead ++ (segment.key ++ segment.array ++ behind) := by
    rw [htext, Segment.text]
    simp only [List.append_assoc]
  have hparts := (Text.splitAt?_eq_some_iff.mpr ⟨hcut, hsize⟩).symm.trans
    (Text.splitAt?_eq_some_iff.mpr ⟨hsame, Text.size_append _ _⟩)
  obtain ⟨rfl, -⟩ := Prod.mk.inj (Option.some.inj hparts)
  by_contra hfeed
  -- Without a line feed the bracket is on the line of the key.
  have hbracket : '\n' ∉ [']'] ++ segment.lead := by simpa using hfeed
  rw [List.append_assoc, Text.lastLine_append_of_not_mem front hbracket] at hindent
  exact absurd (hindent ']' (by simp)) (by decide)

/-- A text is cut at sites from left to right. -/
theorem exists_segments {sites : List Site} (hmem : ∀ site ∈ sites, site ∈ index.entries)
    (hlines : ∀ site ∈ sites, site.StartsLine text)
    (hascends : sites.Pairwise fun earlier later => earlier.valueEnd ≤ later.keyStart)
    (htext : text = before ++ tail) (hle : ∀ site ∈ sites, before.size ≤ site.keyStart) :
    ∃ segments rest, tail = joined segments ++ rest ∧
      (placed before.size segments).map (fun segment => segment.2.site segment.1) = sites ∧
      (∀ segment ∈ segments.tail, '\n' ∈ segment.lead) ∧
      (before.EndsArray → ∀ segment ∈ segments, '\n' ∈ segment.lead) := by
  induction sites generalizing before tail with
  | nil => exact ⟨[], tail, rfl, rfl, List.forall_mem_nil _, fun _ => List.forall_mem_nil _⟩
  | cons site sites ih =>
      obtain ⟨hsite, hmore⟩ := List.forall_mem_cons.mp hmem
      obtain ⟨hline, hmoreLines⟩ := List.forall_mem_cons.mp hlines
      obtain ⟨hbehind, hrest⟩ := List.pairwise_cons.mp hascends
      obtain ⟨segment, behind, rfl, rfl, front, harray⟩ :=
        exists_segment hlocated hsite htext (List.forall_mem_cons.mp hle).1
      have hsize : Text.size (before ++ segment.text) = (segment.site before.size).valueEnd := by
        rw [Text.size_append, add_size_text]
        rfl
      obtain ⟨segments, rest, rfl, hplaced, -, hfeeds⟩ :=
        @ih (before ++ segment.text) behind hmore hmoreLines hrest
          (by rw [htext, List.append_assoc]) (by rwa [hsize])
      have hends : Text.EndsArray (before ++ segment.text) := by
        refine ⟨before ++ segment.lead ++ segment.key ++ front, ?_⟩
        rw [Segment.text, harray]
        simp only [List.append_assoc]
      rw [Text.size_append] at hplaced
      refine ⟨segment :: segments, rest, (List.append_assoc _ _ _).symm, ?_, hfeeds hends, ?_⟩
      · rw [placed, List.map_cons, hplaced]
      · intro hbefore
        exact List.forall_mem_cons.mpr ⟨feed_mem_lead hbefore htext hline, hfeeds hends⟩

omit hlocated in
theorem exists_sorted (sites : List Site) :
    ∃ sorted : List Site, sorted.Perm sites ∧
      sorted.Pairwise fun earlier later => earlier.keyStart ≤ later.keyStart := by
  refine ⟨sites.mergeSort fun earlier later => earlier.keyStart ≤ later.keyStart,
    List.mergeSort_perm _ _, ?_⟩
  apply (List.pairwise_mergeSort _ _ sites).imp of_decide_eq_true
  · intro a b c hab hbc
    exact decide_eq_true (Nat.le_trans (of_decide_eq_true hab) (of_decide_eq_true hbc))
  · intro a b
    simpa using Nat.le_total a.keyStart b.keyStart

/-- A text is divided at sites of which none lies inside another one. -/
theorem exists_divided (named : Text → Prop) [DecidablePred named]
    (hlines : ∀ site ∈ index.entries, named site.identifier → site.StartsLine text)
    (hwithin : ∀ outer ∈ index.entries, ∀ inner ∈ index.entries, named outer.identifier →
      named inner.identifier → ¬ inner.Within outer) :
    ∃ segments rest, Divided text index segments rest ∧
      ∀ site ∈ index.entries, named site.identifier →
        ∃ segment ∈ segments, segment.identifier = site.identifier := by
  obtain ⟨sites, hperm, hsorted⟩ :=
    exists_sorted (index.entries.filter fun site => named site.identifier)
  have hmem : ∀ site, site ∈ sites ↔ site ∈ index.entries ∧ named site.identifier := by
    intro site
    rw [hperm.mem_iff, List.mem_filter, decide_eq_true_iff]
  have hnodup : sites.Nodup :=
    hperm.nodup_iff.mpr (index.nodup_map_name.of_map.filter _)
  have hascends : sites.Pairwise fun earlier later => earlier.valueEnd ≤ later.keyStart := by
    apply (hsorted.and hnodup).imp_of_mem
    rintro first second hfirst hsecond ⟨hle, hne⟩
    obtain ⟨hfirst, hfirstNamed⟩ := (hmem first).mp hfirst
    obtain ⟨hsecond, hsecondNamed⟩ := (hmem second).mp hsecond
    have hkey := (hlocated.between_of_mem hsecond).keyStart_lt
    have hvalue := (hlocated.between_of_mem hsecond).valueStart_lt
    rcases hlocated.nested_of_mem hfirst hsecond with rfl | hapart | hnested | hnested
    · exact absurd rfl hne
    · rcases hapart with hbefore | hbehind
      · exact hbefore
      · omega
    · exact absurd hnested (hwithin second hsecond first hfirst hsecondNamed hfirstNamed)
    · exact absurd hnested (hwithin first hfirst second hsecond hfirstNamed hsecondNamed)
  obtain ⟨segments, rest, htext, hplaced, hfeed, -⟩ :=
    exists_segments hlocated (fun site hsite => ((hmem site).mp hsite).1)
      (fun site hsite => hlines site ((hmem site).mp hsite).1 ((hmem site).mp hsite).2) hascends
      (List.nil_append text).symm (fun site _ => Nat.zero_le site.keyStart)
  have hsites : ∀ site, site ∈ sites ↔
      ∃ segment ∈ placed 0 segments, segment.2.site segment.1 = site := by
    intro site
    rw [← hplaced, List.mem_map]
    rfl
  refine ⟨segments, rest, ⟨htext, ?_, hfeed⟩, ?_⟩
  · intro segment hsegment
    exact ((hmem _).mp ((hsites _).mpr ⟨segment, hsegment, rfl⟩)).1
  · intro site hsite hnamed
    obtain ⟨segment, hsegment, rfl⟩ := (hsites site).mp ((hmem site).mpr ⟨hsite, hnamed⟩)
    exact ⟨segment.2, mem_of_mem_placed hsegment, rfl⟩

end Dividing

end ArrayPatch
