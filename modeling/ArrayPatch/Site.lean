import ArrayPatch.Catalog

/-!
# Sites

A site is the place of one target array: the identifier of the object that the
array belongs to, the offset of its key's opening quote, and the two ends of
the array itself.  Sites are kept in a catalog by identifier.
-/

namespace ArrayPatch

/-- Where the target array of one identified object lies. -/
structure Site where
  identifier : Text
  keyStart : Nat
  valueStart : Nat
  valueEnd : Nat
deriving DecidableEq, Repr

namespace Site

/-- The text of the array at a site, if its ends are boundaries in order. -/
def rawValue? (site : Site) (text : Text) : Option Text :=
  text.slice? site.valueStart site.valueEnd

end Site

/-- Sites under distinct identifiers. -/
abbrev SiteIndex := Catalog Site.identifier

end ArrayPatch
