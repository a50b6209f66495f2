import ArrayPatch.Proofs.Grammar.Completion
import ArrayPatch.Proofs.Scan.Requests

/-!
# A scanner can be used again

Whatever a scanner has been asked before, it answers a request as a new scanner
does, and it keeps the sites that new scanners find for each request, one after
the other.  A request that fails counts as well.  Its sites are those of the
objects that close before the fault: what stands before the fault can be
completed to a value, and these are the first objects of its syntax tree.
-/

namespace ArrayPatch

open Grammar

/-- What a request reads as a value is right up to a fault, where it breaks off:
it is the start of blanks and a syntax tree, of which something is missing.  The
sites found are those reported for the objects of the tree that close before the
fault. -/
def Request.BreaksOff (settings : Settings) (text : Text) (request : Request) (fault : Fault)
    (found : List Site) : Prop :=
  ∃ (front : Text) (place : Cursor) (suffix blanks : Text) (tree : Tree),
    (Cursor.mk request.start (request.source text)).Passes front place ∧ fault.IsAt place ∧
    suffix ≠ [] ∧ front ++ suffix = blanks ++ tree.text ∧ AllBlank blanks ∧ tree.WellFormed ∧
    tree.depth ≤ settings.maxDepth ∧
    found = ((tree.objects (request.start + blanks.size)).filter
      (·.stop ≤ place.offset)).filterMap (Placed.reported? settings)

/-- A request that fails breaks off at its fault. -/
theorem Request.breaksOff_of_fails {settings : Settings} {text : Text} {request : Request}
    {fault : Fault} {found : List Site} (hfails : (request.scan settings text).Fails found fault) :
    request.BreaksOff settings text fault found := by
  have hvalue : (Scan.value settings settings.maxDepth
      ⟨request.start, request.source text⟩).Fails found fault := by
    rw [← Scan.fails_map_iff (f := (·.1)), ← Scan.fails_map_iff (f := Cursor.offset),
      ← request.map_scan, Scan.fails_map_iff]
    exact hfails
  obtain ⟨front, place, suffix, closed, opened, hpasses, hplace, hsuffix,
    ⟨blanks, tree, htext, hblanks, hwell, hdepth, hobjects⟩, hclosed, hopened, rfl⟩ :=
    Scan.closes_of_fails_value hvalue
  refine ⟨front, place, suffix, blanks, tree, hpasses, hplace, hsuffix, htext, hblanks, hwell,
    hdepth, ?_⟩
  have hkeep : closed.filter (·.stop ≤ place.offset) = closed :=
    List.filter_eq_self.mpr fun placed hplaced => decide_eq_true (hclosed placed hplaced)
  have hdrop : opened.filter (·.stop ≤ place.offset) = [] :=
    List.filter_eq_nil_iff.mpr fun placed hplaced => by
      simpa using hopened placed hplaced
  rw [← hobjects, List.filter_append, hkeep, hdrop, List.append_nil]

/-- With nothing open and nothing found, a value is read as it is scanned. -/
theorem Reader.valueAt_eq (settings : Settings) (text : Text) (start : Nat) :
    (valueAt settings text start : Run Nat) {} =
      ((Scan.valueAt settings text start).result,
        { found := (Scan.valueAt settings text start).found }) :=
  follows_valueAt (m := Run) settings text start 0 []

namespace Scanner

section Appending

variable {text : Text} {start : Nat}

theorem appendSites_of_error {fault : Fault} (sites : List Site)
    (hfault : ((new {} text).ask (.value start)).1 = .error fault) :
    Scan.appendSites text start sites = (.error fault, sites) := by
  rw [ask_eq _ rfl] at hfault
  dsimp only [Request.scan, new] at hfault
  rw [Scan.appendSites, Reader.valueAt_eq]
  generalize Scan.valueAt {} text start = scan at hfault ⊢
  rcases scan with ⟨found, other | stop⟩
  · cases hfault
    rfl
  · cases hfault

theorem appendSites_of_ok {answer : Answer} (sites : List Site)
    (hanswer : ((new {} text).ask (.value start)).1 = .ok answer) :
    Scan.appendSites text start sites =
      (.ok answer.offset, sites ++ ((new {} text).ask (.value start)).2.found) := by
  rw [ask_eq _ rfl] at hanswer ⊢
  dsimp only [Request.scan, new, List.nil_append] at hanswer ⊢
  rw [Scan.appendSites, Reader.valueAt_eq]
  generalize Scan.valueAt {} text start = scan at hanswer ⊢
  rcases scan with ⟨found, fault | stop⟩
  · cases hanswer
  · cases hanswer
    change (Except.ok stop, sites ++ found) = (Except.ok stop, sites ++ (found ++ []))
    rw [List.append_nil]

end Appending

/-- A scanner can be used again.  For every sequence of requests, whether they
succeed or fail, no array or object is open between two of them, every answer is
the one of a new scanner, and the sites kept are those of new scanners in the
order of the requests.  A request that fails leaves the sites of the objects that
close before the fault.  Appending the sites of a value to a list, in contrast,
leaves the list as it is if the value is malformed, and otherwise appends what a
new scanner with the default settings finds. -/
theorem reusable (settings : Settings) (text : Text) :
    (∀ (requests : List Request) (count : Nat),
      ((new settings text).askAll (requests.take count)).2.depth = 0) ∧
    (∀ requests, ((new settings text).askAll requests).1 =
      requests.map fun request => ((new settings text).ask request).1) ∧
    (∀ requests, ((new settings text).askAll requests).2.found =
      requests.flatMap fun request => ((new settings text).ask request).2.found) ∧
    (∀ request fault, ((new settings text).ask request).1 = .error fault →
      request.BreaksOff settings text fault ((new settings text).ask request).2.found) ∧
    (∀ start sites,
      (∀ fault, ((new {} text).ask (.value start)).1 = .error fault →
        Scan.appendSites text start sites = (.error fault, sites)) ∧
      (∀ answer, ((new {} text).ask (.value start)).1 = .ok answer →
        Scan.appendSites text start sites =
          (.ok answer.offset, sites ++ ((new {} text).ask (.value start)).2.found))) := by
  refine ⟨?_, ?_, ?_, ?_, ?_⟩
  · intro requests count
    rw [askAll_eq _ rfl]
    rfl
  · intro requests
    rw [askAll_eq _ rfl]
    refine List.map_congr_left fun request _ => ?_
    rw [ask_eq _ rfl]
  · intro requests
    rw [askAll_eq _ rfl]
    refine congrArg (List.flatMap · requests) (funext fun request => ?_)
    rw [ask_eq _ rfl]
    rfl
  · intro request fault hfault
    rw [ask_eq _ rfl] at hfault ⊢
    exact Request.breaksOff_of_fails (Scan.ext_iff.mpr ⟨rfl, hfault⟩)
  · intro start sites
    exact ⟨fun _ => appendSites_of_error sites, fun _ => appendSites_of_ok sites⟩

/-- An array that breaks off behind its first object.  Both requests for it find
the object, and as much may be nested afterwards as before. -/
theorem reusable_between_faults :
    ∃ (text : Text) (site : Site),
      text = "[\x7b\"id\":\"a\",\"tags\":[]\x7d x".toList ∧ site = ⟨['a'], 11, 18, 20⟩ ∧
      ((new { maxDepth := 3 } text).askAll [.value 0, .object 1, .value 0]).1 =
        [.error ⟨.expectedCommaOrBracket, 22⟩, .ok (.stop 21),
          .error ⟨.expectedCommaOrBracket, 22⟩] ∧
      ((new { maxDepth := 3 } text).askAll [.value 0, .object 1, .value 0]).2.found =
        [site, site, site] ∧
      (Request.value 0).BreaksOff { maxDepth := 3 } text ⟨.expectedCommaOrBracket, 22⟩ [site] := by
  obtain ⟨text, htext⟩ : ∃ text : Text, text = "[\x7b\"id\":\"a\",\"tags\":[]\x7d x".toList :=
    ⟨_, rfl⟩
  obtain ⟨-, hanswers, hfound, hfails, -⟩ := reusable { maxDepth := 3 } text
  have hfault : ((new { maxDepth := 3 } text).ask (.value 0)).1 =
      .error ⟨.expectedCommaOrBracket, 22⟩ := by
    rw [htext]
    decide +kernel
  have hinside : ((new { maxDepth := 3 } text).ask (.value 0)).2.found =
      [⟨['a'], 11, 18, 20⟩] := by
    rw [htext]
    decide +kernel
  refine ⟨text, _, htext, rfl, ?_, ?_, ?_⟩
  · rw [hanswers, htext]
    decide +kernel
  · rw [hfound, htext]
    decide +kernel
  · rw [← hinside]
    exact hfails (.value 0) _ hfault

end Scanner

end ArrayPatch
