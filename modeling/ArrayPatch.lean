import ArrayPatch.Grammar.Frame
import ArrayPatch.Grammar.Json
import ArrayPatch.Grammar.Sites
import ArrayPatch.Json.Decode
import ArrayPatch.Patch.Rebuild
import ArrayPatch.Proofs.Catalog
import ArrayPatch.Proofs.Document.Again
import ArrayPatch.Proofs.Document.Changed
import ArrayPatch.Proofs.Document.Contract
import ArrayPatch.Proofs.Document.Crlf
import ArrayPatch.Proofs.Document.Divided
import ArrayPatch.Proofs.Document.Endings
import ArrayPatch.Proofs.Document.Json
import ArrayPatch.Proofs.Document.Located
import ArrayPatch.Proofs.Document.Outcome
import ArrayPatch.Proofs.Document.Override
import ArrayPatch.Proofs.Document.Patching
import ArrayPatch.Proofs.Document.ReadBack
import ArrayPatch.Proofs.Document.Rebuild
import ArrayPatch.Proofs.Document.Rescan
import ArrayPatch.Proofs.Document.Segments
import ArrayPatch.Proofs.Document.Session
import ArrayPatch.Proofs.Grammar.Acceptance
import ArrayPatch.Proofs.Grammar.Completeness
import ArrayPatch.Proofs.Grammar.Completion
import ArrayPatch.Proofs.Grammar.Covered
import ArrayPatch.Proofs.Grammar.Crlf
import ArrayPatch.Proofs.Grammar.Document
import ArrayPatch.Proofs.Grammar.Entries
import ArrayPatch.Proofs.Grammar.Exchange
import ArrayPatch.Proofs.Grammar.Json
import ArrayPatch.Proofs.Grammar.Moved
import ArrayPatch.Proofs.Grammar.Nesting
import ArrayPatch.Proofs.Grammar.Objects
import ArrayPatch.Proofs.Grammar.Opening
import ArrayPatch.Proofs.Grammar.Relocated
import ArrayPatch.Proofs.Grammar.Replace
import ArrayPatch.Proofs.Grammar.Shift
import ArrayPatch.Proofs.Grammar.Size
import ArrayPatch.Proofs.Grammar.Slots
import ArrayPatch.Proofs.Grammar.Soundness
import ArrayPatch.Proofs.Json.Encode
import ArrayPatch.Proofs.Json.Natural
import ArrayPatch.Proofs.Json.Read
import ArrayPatch.Proofs.Json.Scanned
import ArrayPatch.Proofs.Json.Steps
import ArrayPatch.Proofs.Json.Strings
import ArrayPatch.Proofs.Json.Words
import ArrayPatch.Proofs.Layout.Crlf
import ArrayPatch.Proofs.Layout.Ending
import ArrayPatch.Proofs.Layout.Indent
import ArrayPatch.Proofs.Layout.Shown
import ArrayPatch.Proofs.Patch.Applied
import ArrayPatch.Proofs.Patch.Build
import ArrayPatch.Proofs.Patch.Crlf
import ArrayPatch.Proofs.Patch.Moves
import ArrayPatch.Proofs.Patch.Order
import ArrayPatch.Proofs.Patch.Overlap
import ArrayPatch.Proofs.Patch.Rebuild
import ArrayPatch.Proofs.Patch.Rewrites
import ArrayPatch.Proofs.Rendering
import ArrayPatch.Proofs.Scan.Agreement
import ArrayPatch.Proofs.Scan.Failures
import ArrayPatch.Proofs.Scan.Limit
import ArrayPatch.Proofs.Scan.Locality
import ArrayPatch.Proofs.Scan.Marked
import ArrayPatch.Proofs.Scan.Passing
import ArrayPatch.Proofs.Scan.Progress
import ArrayPatch.Proofs.Scan.Ranges
import ArrayPatch.Proofs.Scan.Reach
import ArrayPatch.Proofs.Scan.Refusal
import ArrayPatch.Proofs.Scan.Rendered
import ArrayPatch.Proofs.Scan.Requests
import ArrayPatch.Proofs.Scan.Reuse
import ArrayPatch.Proofs.Scan.Scanner
import ArrayPatch.Proofs.Scan.Spelling
import ArrayPatch.Proofs.Scan.Steps
import ArrayPatch.Proofs.Scan.StringToken
import ArrayPatch.Proofs.Scan.Strings
import ArrayPatch.Proofs.Scan.Tracks
import ArrayPatch.Proofs.Settings.Json
import ArrayPatch.Proofs.Site.Faults
import ArrayPatch.Proofs.Site.Indent
import ArrayPatch.Proofs.Site.Index
import ArrayPatch.Proofs.Site.Insertions
import ArrayPatch.Proofs.Site.Locate
import ArrayPatch.Proofs.Site.Offsets
import ArrayPatch.Proofs.Site.Spans
import ArrayPatch.Proofs.Site.Values
import ArrayPatch.Proofs.Text.Before
import ArrayPatch.Proofs.Text.Bytes
import ArrayPatch.Proofs.Text.Crlf
import ArrayPatch.Proofs.Text.Lines
import ArrayPatch.Proofs.Text.Order
import ArrayPatch.Proofs.Text.Part
import ArrayPatch.Proofs.Text.Position
import ArrayPatch.Trail
