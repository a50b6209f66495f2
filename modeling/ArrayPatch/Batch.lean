import ArrayPatch.Document

/-!
# Batches

A batch patches named texts independently of each other.  The outcomes stand in
the order of the jobs, and a text that cannot be patched affects no other.
-/

namespace ArrayPatch

/-- A named text and the desired state of its target arrays. -/
structure Job where
  name : Text
  text : Text
  desired : Desired

/-- What became of a job. -/
structure Outcome where
  name : Text
  result : Except Failure Patched

namespace Outcome

/-- Whether the text was patched and differs now. -/
def isChanged (outcome : Outcome) : Bool :=
  match outcome.result with
  | .ok patched => patched.changed
  | .error _ => false

/-- Whether the text was patched and is the same as before. -/
def isUnchanged (outcome : Outcome) : Bool :=
  match outcome.result with
  | .ok patched => !patched.changed
  | .error _ => false

/-- Whether the text was not patched. -/
def isFailed (outcome : Outcome) : Bool :=
  match outcome.result with
  | .ok _ => false
  | .error _ => true

/-- Every outcome is of exactly one of the three kinds. -/
theorem kinds (outcome : Outcome) :
    outcome.isChanged.toNat + outcome.isUnchanged.toNat + outcome.isFailed.toNat = 1 := by
  rcases outcome with ⟨name, failure | ⟨text, _ | _⟩⟩ <;> rfl

end Outcome

/-- The outcomes of a batch. -/
abbrev Report := List Outcome

namespace Report

/-- The number of texts that differ now. -/
def changed (report : Report) : Nat :=
  report.countP Outcome.isChanged

/-- The number of texts that are the same as before. -/
def unchanged (report : Report) : Nat :=
  report.countP Outcome.isUnchanged

/-- The number of texts that were not patched. -/
def failed (report : Report) : Nat :=
  report.countP Outcome.isFailed

/-- The failures with the names of their jobs. -/
def failures (report : Report) : List (Text × Failure) :=
  report.filterMap fun outcome =>
    match outcome.result with
    | .ok _ => none
    | .error failure => some (outcome.name, failure)

end Report

/-- Do one job. -/
def Job.run (settings : Settings) (job : Job) : Outcome :=
  ⟨job.name, patchAndCompare settings job.text job.desired⟩

/-- Do all jobs of a batch. -/
def patchAll (settings : Settings) (jobs : List Job) : Report :=
  jobs.map (Job.run settings)

end ArrayPatch
