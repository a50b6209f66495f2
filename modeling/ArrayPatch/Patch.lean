import ArrayPatch.Error

/-!
# Patches

A patch puts a text in the place of a range of a document.  Patches are listed
in the order in which they were made and are applied from the end of the
document to its start, so that the offsets of the patches not yet applied stay
right.  Of two patches with the same start the earlier one is applied first.

Two patches overlap when the one with the smaller start ends behind the start
of the other.  It is enough to compare neighbours in the order of application.
-/

namespace ArrayPatch

/-- A text to be put in the place of a range. -/
structure Patch where
  identifier : Text
  start : Nat
  stop : Nat
  text : Text
deriving DecidableEq, Repr

namespace Patch

/-- Patches in the order in which they are applied. -/
def ordered (patches : List Patch) : List Patch :=
  patches.mergeSort fun left right => right.start ≤ left.start

/-- The first neighbours, in the order of application, that overlap: the lower
one and then the higher one. -/
def overlap? : List Patch → Option (Patch × Patch)
  | higher :: lower :: patches =>
      if higher.start < lower.stop then some (lower, higher)
      else overlap? (lower :: patches)
  | _ => none

/-- Apply patches one after the other. -/
def spliceAll (document : Text) : List Patch → Except Failure Text
  | [] => .ok document
  | patch :: patches =>
      match document.splice? patch.start patch.stop patch.text with
      | some document => spliceAll document patches
      | none => .error (.brokenRange patch.start patch.stop)

/-- Apply patches to a document, unless two of them overlap. -/
def applyAll (patches : List Patch) (document : Text) : Except Failure Text :=
  match overlap? (ordered patches) with
  | some (lower, higher) =>
      .error (.refused (.overlappingPatches lower.identifier higher.identifier))
  | none => spliceAll document (ordered patches)

end Patch

end ArrayPatch
