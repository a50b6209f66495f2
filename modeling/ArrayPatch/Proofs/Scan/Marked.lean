import ArrayPatch.Proofs.Scan.Scanner

/-!
# Marked runs

The readers of a scanner can be run in such a way that they leave marks: one where a
turn of a loop over elements or members starts, and one where an array or object is
opened and where it is closed.  The marks stand in the order in which they are left,
and they are left by runs that fail as well.  Whatever is read or kept does not depend
on them: without its marks, a marked run is a run.

A turn starts behind the blanks in front of an element or member, if the array or
object is not closed there at once.  This is before it is known whether anything is
left of the text.
-/

namespace ArrayPatch

/-- What a marked run passes on its way. -/
inductive Mark where
  | opened
  | turn (offset : Nat)
  | closed
deriving DecidableEq, Repr

namespace Mark

/-- Where a turn starts. -/
def turn? : Mark → Option Nat
  | turn offset => some offset
  | opened | closed => none

/-- Where the turns among some marks start. -/
def turns (marks : List Mark) : List Nat :=
  marks.filterMap turn?

/-- How many arrays and objects are open behind a mark. -/
def step (depth : Nat) : Mark → Nat
  | opened => depth + 1
  | turn _ => depth
  | closed => depth - 1

/-- How many arrays and objects are open behind some marks. -/
def depthBehind (depth : Nat) (marks : List Mark) : Nat :=
  marks.foldl step depth

end Mark

/-- A step of a scanner that leaves marks. -/
def Marked (α : Type) :=
  ScanState → List Mark × Except Fault α × ScanState

namespace Marked

variable {α β : Type}

/-- A step that leaves no marks. -/
def ofRun (run : Run α) : Marked α := fun state =>
  ([], run state)

/-- Run a step and then the one that its result chooses. -/
protected def bind (marked : Marked α) (next : α → Marked β) : Marked β := fun state =>
  match marked state with
  | (marks, .ok a, state) =>
      let (more, outcome) := next a state
      (marks ++ more, outcome)
  | (marks, .error fault, state) => (marks, .error fault, state)

/-- Start a turn at an offset with a step. -/
def turn (offset : Nat) (marked : Marked α) : Marked α := fun state =>
  let (marks, outcome) := marked state
  (.turn offset :: marks, outcome)

/-- Run a step inside one more array or object, unless as many as the limit are
open. -/
def nested (limit offset : Nat) (marked : Marked α) : Marked α := fun state =>
  if limit ≤ state.depth then
    ([], .error ⟨.nestingTooDeep, offset⟩, state)
  else
    let (marks, result, state) := marked { state with depth := state.depth + 1 }
    (.opened :: marks ++ [.closed], result, { state with depth := state.depth - 1 })

instance : MonadScan Marked where
  pure a := ofRun (pure a)
  bind := Marked.bind
  ofExcept result := ofRun (MonadScan.ofExcept result)
  report site? := ofRun (MonadScan.report site?)
  turn := Marked.turn
  nested := Marked.nested

/-- Forget the marks. -/
def unmarked (marked : Marked α) : Run α := fun state =>
  (marked state).2

theorem unmarked_bind (marked : Marked α) (next : α → Marked β) :
    (marked.bind next).unmarked = marked.unmarked.bind fun a => (next a).unmarked := by
  funext state
  rw [unmarked, Marked.bind, Run.bind, unmarked]
  rcases marked state with ⟨marks, fault | a, later⟩ <;> rfl

theorem unmarked_nested (limit offset : Nat) (marked : Marked α) :
    (marked.nested limit offset).unmarked = marked.unmarked.nested limit offset := by
  funext state
  rw [unmarked, nested, Run.nested]
  by_cases hlimit : limit ≤ state.depth
  · rw [if_pos hlimit, if_pos hlimit]
  · rw [if_neg hlimit, if_neg hlimit]
    rfl

instance : MonadRun Marked where
  run := unmarked
  run_pure _ := rfl
  run_bind := unmarked_bind
  run_ofExcept _ := rfl
  run_report _ := rfl
  run_turn _ _ := rfl
  run_nested := unmarked_nested

end Marked

/-- Serve a request, and leave marks. -/
def Request.marked (settings : Settings) (text : Text) (request : Request) : Marked Answer :=
  request.read settings text

/-- A marked run does what a run does, and leaves marks besides. -/
theorem Request.exists_marks (settings : Settings) (text : Text) (request : Request)
    (state : ScanState) :
    ∃ marks, request.marked settings text state = (marks, request.run settings text state) := by
  have hrun := congrFun (request.run_read (m := Marked) settings text) state
  exact ⟨(request.marked settings text state).1, Prod.ext rfl hrun⟩

end ArrayPatch
