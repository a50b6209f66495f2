import ArrayPatch.Patch
import ArrayPatch.Rendering
import ArrayPatch.Site

/-!
# Building patches

The desired state of a document is a catalog that gives lists of texts to
identifiers.  Every entry needs a site.  An entry whose rendering is already
there makes no patch, so the patches built are those that change something.
-/

namespace ArrayPatch

/-- The lists of texts that the target arrays are to hold. -/
abbrev Desired := Catalog (Prod.fst : Text × List Text → Text)

namespace Patch

/-- The rendering of a list of texts for a site of a document. -/
def renderAt (document : Text) (layout : Layout) (site : Site) (values : List Text) :
    Except Failure Text :=
  match document.indentationAt? site.keyStart with
  | some indentation => .ok (layout.render indentation values)
  | none => .error (.brokenRange 0 site.keyStart)

/-- The patch of one entry, if the site holds something else so far. -/
def build? (document : Text) (layout : Layout) (index : SiteIndex)
    (identifier : Text) (values : List Text) : Except Failure (Option Patch) := do
  let some site := index.find? identifier
    | .error (.refused (.unknownIdentifier identifier))
  let text ← renderAt document layout site values
  let some current := site.rawValue? document
    | .error (.brokenRange site.valueStart site.valueEnd)
  if text = current then
    return none
  else
    return some { identifier, start := site.valueStart, stop := site.valueEnd, text }

/-- The patches that lead from a document to its desired state, by identifier. -/
def buildAll (document : Text) (layout : Layout) (index : SiteIndex) (desired : Desired) :
    Except Failure (List Patch) := do
  let patches ← desired.entries.mapM fun (identifier, values) =>
    build? document layout index identifier values
  return patches.reduceOption

/-- Build patches and apply them. -/
def update (document : Text) (layout : Layout) (index : SiteIndex) (desired : Desired) :
    Except Failure Text := do
  let patches ← buildAll document layout index desired
  applyAll patches document

end Patch

end ArrayPatch
