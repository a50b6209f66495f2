import ArrayPatch.Batch
import ArrayPatch.Scan.Scanner

/-!
# Trails

The trail of an operation is the list of events that it reports, in order.  The
trail is computed from what the operation is given, apart from its result: an
operation says what is the case, its trail what happened on the way.

A scan reports every site it finds, also if it fails later.  A batch reports
the trails of its jobs, in the order of the jobs, and a summary.
-/

namespace ArrayPatch

/-- How important an event is. -/
inductive Level where
  | trace
  | debug
  | info
  | warn
deriving DecidableEq, Repr

/-- Something worth reporting. -/
inductive Event where
  | found (targetField : Text) (site : Site)
  | located (count : Nat) (targetField identifierField : Text)
  | scanned (size count : Nat) (layout : Layout)
  | replacing (patch : Patch)
  | failed (name : Text) (position? : Option Position) (error : Error)
  | finished (total changed unchanged failures : Nat)

namespace Level

/-- The name of a level. -/
def label : Level → String
  | trace => "TRACE"
  | debug => "DEBUG"
  | info => "INFO"
  | warn => "WARN"

end Level

namespace Event

/-- The level of an event. -/
def level : Event → Level
  | found .. => .trace
  | located .. => .debug
  | scanned .. => .debug
  | replacing _ => .trace
  | failed .. => .warn
  | finished .. => .info

/-- An event in words. -/
def message : Event → String
  | found targetField site =>
      "Found " ++ targetField.quote ++ " for identifier " ++ site.identifier.quote ++
        s!" at {site.valueStart}..{site.valueEnd}"
  | located count targetField identifierField =>
      s!"Located {count} " ++ targetField.quote ++ " arrays keyed by " ++ identifierField.quote
  | scanned size count layout =>
      s!"Scanned document ({size} bytes, {count} locations, indent " ++ layout.indent.label ++
        ", " ++ layout.ending.label ++ " line endings)"
  | replacing patch =>
      s!"Replacing {patch.start}..{patch.stop} for " ++ patch.identifier.quote
  | failed name position? error =>
      "Failed to patch " ++ String.ofList name ++
        position?.elim "" (fun position => " at " ++ position.display) ++ ": " ++ error.message
  | finished total changed unchanged failures =>
      s!"Patched {total} documents " ++
        s!"({changed} changed, {unchanged} unchanged, {failures} failed)"

/-- An event as one line: its level and its words. -/
def line (event : Event) : String :=
  event.level.label ++ " " ++ event.message

end Event

namespace Trail

/-- The sites of a scan. -/
def ofScan {α : Type} (settings : Settings) (scan : Scan α) : List Event :=
  scan.found.map (.found settings.targetField)

/-- Locating the sites of a text. -/
def locate (settings : Settings) (text : Text) : List Event :=
  ofScan settings (Scan.document settings text) ++
    match SiteIndex.locate settings text with
    | .ok sites => [.located sites.size settings.targetField settings.identifierField]
    | .error _ => []

/-- Reading the strings at a site. -/
def readValues (settings : Settings) (text : Text) (site : Site) : List Event :=
  ofScan settings (site.scanValues settings text)

/-- Scanning a document. -/
def scan (settings : Settings) (text : Text) : List Event :=
  match settings.fault? with
  | some _ => []
  | none =>
      locate settings text ++
        match Document.scan settings text with
        | .ok document => [.scanned text.size document.sites.size document.layout]
        | .error _ => []

/-- Applying patches one after the other, the first broken range included. -/
def spliceAll (document : Text) : List Patch → List Event
  | [] => []
  | patch :: patches =>
      .replacing patch ::
        match document.splice? patch.start patch.stop patch.text with
        | some document => spliceAll document patches
        | none => []

/-- Applying patches, none of them if two overlap. -/
def applyAll (patches : List Patch) (document : Text) : List Event :=
  match Patch.overlap? (Patch.ordered patches) with
  | some _ => []
  | none => spliceAll document (Patch.ordered patches)

/-- Building patches and applying them. -/
def update (document : Text) (layout : Layout) (index : SiteIndex) (desired : Desired) :
    List Event :=
  match Patch.buildAll document layout index desired with
  | .ok patches => applyAll patches document
  | .error _ => []

/-- Patching a document. -/
def patch (document : Document) (desired : Desired) : List Event :=
  if desired.isEmpty then []
  else update document.text document.layout document.sites desired

/-- Scanning a text and patching it. -/
def patchText (settings : Settings) (text : Text) (desired : Desired) : List Event :=
  scan settings text ++
    match Document.scan settings text with
    | .ok document => patch document desired
    | .error _ => []

/-- Doing a job. -/
def job (settings : Settings) (job : Job) : List Event :=
  patchText settings job.text job.desired ++
    match (job.run settings).result with
    | .error (.refused error) => [.failed job.name (error.position? job.text) error]
    | _ => []

/-- Doing the jobs of a batch. -/
def batch (settings : Settings) (jobs : List Job) : List Event :=
  let report := patchAll settings jobs
  jobs.flatMap (job settings) ++
    [.finished report.length report.changed report.unchanged report.failed]

end Trail

end ArrayPatch
