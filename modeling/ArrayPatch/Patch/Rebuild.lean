import ArrayPatch.Patch

/-!
# Rebuilding a document from left to right

Applying patches from the end of a document to its start must give what copying
the document from its start to its end gives, each patch being written when its
range is reached.  `rebuild?` is that copy.  It takes the patches in ascending
order and has no result if a range does not fit or lies before the position
reached so far.
-/

namespace ArrayPatch.Patch

/-- Patches in the order in which their ranges are met.  Patches with the same
start are met in the reverse order of their making. -/
def ascending (patches : List Patch) : List Patch :=
  patches.reverse.mergeSort fun left right => left.start ≤ right.start

/-- Copy a document from a position on and put patches in place. -/
def rebuild? (document : Text) (position : Nat) : List Patch → Option Text
  | [] => document.slice? position document.size
  | patch :: patches => do
      let copied ← document.slice? position patch.start
      let rest ← rebuild? document patch.stop patches
      if patch.start ≤ patch.stop then
        return copied ++ patch.text ++ rest
      else
        none

/-- A patch whose range fits a document. -/
def Fits (document : Text) (patch : Patch) : Prop :=
  (document.slice? patch.start patch.stop).isSome

/-- Two patches share a part of the document, or one of them stands strictly
inside the other. -/
def Overlap (left right : Patch) : Prop :=
  left.start < right.stop ∧ right.start < left.stop

end ArrayPatch.Patch
