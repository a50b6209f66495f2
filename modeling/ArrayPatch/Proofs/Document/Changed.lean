import ArrayPatch.Batch
import ArrayPatch.Proofs.Document.Rescan

/-!
# Whether a text is changed

A patched text is the same as before exactly if no patch was built for it.  A
patch changes its own range, but one could fear that several patches of
different lengths move the text so that their changes cancel out.  They do not:
scanning the patched text finds the rendering of every patch at the identifier
of the patch.  If the patched text were the old one, the old text would be read
in the same way, and so the rendering would have been there already.

Hence the outcomes of a batch say of each patched text whether a patch was built
for it.
-/

namespace ArrayPatch

open Patch

/-- No patches are built exactly if every desired list is rendered in the text already. -/
theorem Patch.eq_nil_iff_of_buildAll {text : Text} {layout : Layout} {index : SiteIndex}
    {desired : Desired} {patches : List Patch}
    (hbuild : buildAll text layout index desired = .ok patches) :
    patches = [] ↔
      ∀ identifier values, desired.find? identifier = some (identifier, values) →
        ∃ site, index.find? identifier = some site ∧
          ∃ rendered, renderAt text layout site values = .ok rendered ∧
            site.rawValue? text = some rendered := by
  constructor
  · rintro rfl identifier values hdesired
    obtain ⟨site, rendered, hfind, hrender, hwritten⟩ := exists_renderAt_of_mem hbuild hdesired
    exact ⟨site, hfind, rendered, hrender, hwritten.resolve_right List.not_mem_nil⟩
  · intro hrendered
    apply List.eq_nil_iff_forall_not_mem.mpr
    intro patch hpatch
    obtain ⟨site, values, hfind, hdesired, hrenders⟩ := exists_renders_of_mem hbuild hpatch
    obtain ⟨other, hother, rendered, hrender, hraw⟩ := hrendered patch.identifier values hdesired
    cases hfind.symm.trans hother
    cases hrenders.renderAt_eq.symm.trans hrender
    exact hrenders.ne_current hraw

theorem Patching.eq_self_iff {settings : Settings} {layout : Layout} {text out : Text}
    {desired : Desired} {index : SiteIndex} {patches : List Patch} {blanks after : Text}
    {tree : Grammar.Tree}
    (hpatching : Patching settings layout text out desired index patches blanks tree after) :
    out = text ↔ patches = [] := by
  constructor
  · rintro rfl
    apply List.eq_nil_iff_forall_not_mem.mpr
    intro patch hpatch
    obtain ⟨site, _, hfind, -, hrenders⟩ := exists_renders_of_mem hpatching.build hpatch
    -- The patched text is scanned like the old one, so the patch wrote what was there.
    obtain ⟨moved, hmoved, -, hraw⟩ := hpatching.rawValue?_of_mem hpatching.locate hpatch hfind
    cases hfind.symm.trans hmoved
    exact hrenders.ne_current hraw
  · rintro rfl
    obtain ⟨ascending, hperm, hrewrites⟩ := hpatching.exists_rewrites
    cases hperm.nil_eq
    cases hrewrites
    rfl

/-- At least one patch is built for the text of a job. -/
def Job.BuildsPatch (settings : Settings) (job : Job) : Prop :=
  ∃ index patches, SiteIndex.locate settings job.text = .ok index ∧
    buildAll job.text (Layout.detect job.text) index job.desired = .ok patches ∧ patches ≠ []

theorem Job.ne_text_iff {settings : Settings} {job : Job} {out : Text}
    (hpatch : patchText settings job.text job.desired = .ok out) :
    out ≠ job.text ↔ job.BuildsPatch settings := by
  obtain ⟨index, patches, blanks, tree, after, hpatching⟩ := exists_patching hpatch
  rw [ne_eq, hpatching.eq_self_iff]
  constructor
  · intro hpatches
    exact ⟨index, patches, hpatching.locate, hpatching.build, hpatches⟩
  · rintro ⟨other, others, hlocate, hbuild, hothers⟩
    cases hpatching.locate.symm.trans hlocate
    cases hpatching.build.symm.trans hbuild
    exact hothers

/-- A patched text is the same as before exactly if no patch was built for it, that is, if
every desired list is rendered in it already.  Every job of a batch has an outcome: it fails
as patching fails, or holds the patched text and says that it differs exactly if a patch was
built. -/
theorem changed_iff_patch_built (settings : Settings) :
    (∀ text desired out, patchText settings text desired = .ok out →
      ∃ index patches, SiteIndex.locate settings text = .ok index ∧
        buildAll text (Layout.detect text) index desired = .ok patches ∧
        (out = text ↔ patches = []) ∧
        (patches = [] ↔ ∀ identifier values,
          desired.find? identifier = some (identifier, values) →
            ∃ site, index.find? identifier = some site ∧
              ∃ rendered, renderAt text (Layout.detect text) site values = .ok rendered ∧
                site.rawValue? text = some rendered)) ∧
    ∀ jobs, List.Forall₂ (fun job outcome => outcome.name = job.name ∧
        (∀ failure, outcome.result = .error failure ↔
          patchText settings job.text job.desired = .error failure) ∧
        ∀ out changed, outcome.result = .ok ⟨out, changed⟩ ↔
          patchText settings job.text job.desired = .ok out ∧
            (changed = true ↔ job.BuildsPatch settings))
      jobs (patchAll settings jobs) := by
  constructor
  · intro text desired out hpatch
    obtain ⟨index, patches, blanks, tree, after, hpatching⟩ := exists_patching hpatch
    exact ⟨index, patches, hpatching.locate, hpatching.build, hpatching.eq_self_iff,
      eq_nil_iff_of_buildAll hpatching.build⟩
  · intro jobs
    rw [patchAll, List.forall₂_map_right_iff, List.forall₂_same]
    intro job _
    refine ⟨rfl, ?_⟩
    rw [Job.run, patchAndCompare]
    cases hpatch : patchText settings job.text job.desired with
    | error failure => simp [Except.map]
    | ok out =>
        have hchanged := Job.ne_text_iff hpatch
        refine ⟨by simp [Except.map], ?_⟩
        intro result changed
        rw [← hchanged]
        simp only [Except.map, Except.ok.injEq, Patched.mk.injEq]
        constructor
        · rintro ⟨rfl, rfl⟩
          exact ⟨rfl, decide_eq_true_iff⟩
        · rintro ⟨rfl, hiff⟩
          exact ⟨rfl, Bool.eq_iff_iff.mpr (decide_eq_true_iff.trans hiff.symm)⟩

/-- An array with another element is rendered in as many bytes as it had before. -/
theorem changed_iff_patch_built_of_same_size :
    ∃ (text out : Text) (desired : Desired),
      text = "\x7b\"id\":\"a\",\"tags\":[\"12345\"]\x7d".toList ∧
      desired = Catalog.ofList [(['a'], [['z']])] ∧
      out = "\x7b\"id\":\"a\",\"tags\":[\n  \"z\"\n]\x7d".toList ∧
      patchText {} text desired = .ok out ∧ out.size = text.size ∧
      ∃ index patches, SiteIndex.locate {} text = .ok index ∧
        buildAll text (Layout.detect text) index desired = .ok patches ∧
        (out = text ↔ patches = []) ∧ patches ≠ [] := by
  have hpatch : patchText {} "\x7b\"id\":\"a\",\"tags\":[\"12345\"]\x7d".toList
      (Catalog.ofList [(['a'], [['z']])]) =
      .ok "\x7b\"id\":\"a\",\"tags\":[\n  \"z\"\n]\x7d".toList := by
    decide +kernel
  obtain ⟨index, patches, hlocate, hbuild, hsame, -⟩ :=
    (changed_iff_patch_built {}).1 _ _ _ hpatch
  refine ⟨_, _, _, rfl, rfl, rfl, hpatch, by decide, index, patches, hlocate, hbuild, hsame, ?_⟩
  intro hnone
  exact absurd (hsame.mpr hnone) (by decide)

end ArrayPatch
