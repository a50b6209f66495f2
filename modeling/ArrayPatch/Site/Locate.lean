import ArrayPatch.Scan.Anywhere

/-!
# Locating sites

A document is one value with nothing but blanks around it.  `locate` scans a
document and puts the sites found in it into an index, so its result lists the
sites by identifier and refuses an identifier that occurs twice.
-/

namespace ArrayPatch

/-- Scan a text that is to hold exactly one value. -/
def Scan.document (settings : Settings) (text : Text) : Scan Unit := do
  let next ← value settings settings.maxDepth (Cursor.start text)
  match next.1.skipBlanks with
  | ⟨_, []⟩ => return ()
  | ⟨offset, _ :: _⟩ => fail .trailingContent offset

namespace SiteIndex

/-- Offer a site to an index.  It is refused if its identifier already has one, and
the index stays as it is then. -/
def offer (index : SiteIndex) (site : Site) : Except Error Unit × SiteIndex :=
  match index.add? site with
  | some more => (.ok (), more)
  | none => (.error (.duplicateIdentifier site.identifier), index)

/-- Add a site, unless its identifier already has one. -/
def insert (index : SiteIndex) (site : Site) : Except Error SiteIndex :=
  let (result, index) := index.offer site
  result.map fun _ => index

/-- Index sites one after the other, up to the first repeated identifier. -/
def ofSites (sites : List Site) : Except Error SiteIndex :=
  sites.foldlM insert Catalog.empty

/-- The index of the sites of a document. -/
def locate (settings : Settings) (text : Text) : Except Error SiteIndex :=
  match Scan.document settings text with
  | ⟨found, .ok ()⟩ => ofSites found
  | ⟨_, .error fault⟩ => .error (.malformed fault)

end SiteIndex

namespace Site

/-- Scan the array at a site for its strings. -/
def scanValues (site : Site) (settings : Settings) (text : Text) :
    Scan (Option (List Text)) := do
  let (values, _) ← Scan.stringsAt settings text site.valueStart
  return values

/-- The strings of the array at a site, or `none` if some element is not a
string. -/
def readValues (site : Site) (settings : Settings) (text : Text) :
    Except Error (Option (List Text)) :=
  (site.scanValues settings text).result.mapError .malformed

end Site

end ArrayPatch
