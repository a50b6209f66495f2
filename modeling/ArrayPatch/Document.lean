import ArrayPatch.Patch.Build
import ArrayPatch.Settings.Json
import ArrayPatch.Site.Locate

/-!
# Documents

A document is a text that has been scanned under valid settings: its sites are
indexed and its layout is known.  A document is never changed; patching it
gives a new text.
-/

namespace ArrayPatch

/-- A scanned text. -/
structure Document where
  text : Text
  settings : Settings
  sites : SiteIndex
  layout : Layout

namespace Document

/-- Scan a text.  The settings are checked before the text. -/
def scan (settings : Settings) (text : Text) : Except Error Document := do
  settings.validate
  let sites ← SiteIndex.locate settings text
  return { text, settings, sites, layout := Layout.detect text }

/-- The strings that the target array of an identifier holds, or `none` if some
element is not a string. -/
def readValues (document : Document) (identifier : Text) :
    Except Error (Option (List Text)) :=
  match document.sites.find? identifier with
  | some site => site.readValues document.settings document.text
  | none => .error (.unknownIdentifier identifier)

/-- The text with the target arrays in their desired state. -/
def patch (document : Document) (desired : Desired) : Except Failure Text :=
  if desired.isEmpty then
    .ok document.text
  else
    Patch.update document.text document.layout document.sites desired

end Document

/-- Scan a text and bring its target arrays into their desired state. -/
def patchText (settings : Settings) (text : Text) (desired : Desired) : Except Failure Text := do
  let document ← (Document.scan settings text).mapError .refused
  document.patch desired

/-- A text after a patch, and whether it differs from the text before. -/
structure Patched where
  text : Text
  changed : Bool
deriving DecidableEq, Repr

/-- Patch a text and say whether it changed. -/
def patchAndCompare (settings : Settings) (text : Text) (desired : Desired) :
    Except Failure Patched :=
  (patchText settings text desired).map fun result => ⟨result, result ≠ text⟩

/-- The text of a session after a step.  A step that fails leaves it as it is. -/
def sessionStep (settings : Settings) (current : Text) (desired : Desired) : Text :=
  match patchText settings current desired with
  | .ok result => result
  | .error _ => current

/-- The text of a session after a list of steps. -/
def session (settings : Settings) (current : Text) (steps : List Desired) : Text :=
  steps.foldl (sessionStep settings) current

end ArrayPatch
