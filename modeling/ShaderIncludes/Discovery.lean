import ShaderIncludes.Lookup

/-!
# Finding the folders of the bundled files

The first marker file there is tells the folders. If there is none the catalog is refreshed, once,
and the markers are looked for again.
-/
namespace ShaderIncludes.Roots

/-- The first marker there is, if need be after a refresh. -/
def marker? (c : Catalog) (candidates : List String) (t : Trace) : Option String × Trace :=
  match Lookup.firstPresent? c candidates t with
  | (some marker, t) => (some marker, t)
  | (none, t) => Lookup.firstPresent? c candidates ((t.addNote .refreshing).addCall .refresh)

/-- The folders that the first marker there is stands for. -/
def discover (c : Catalog) (candidates : List String) (t : Trace) : Except Fault Roots × Trace :=
  match marker? c candidates t with
  | (some marker, t) =>
    let roots := ofMarker marker
    (.ok roots, t.addNote (.markerFound marker roots.primary))
  | (none, t) => (.error (.noMarker candidates), t)

/-- The folders of the bundled files of a project that keeps its marker where it is shipped. -/
def discoverStandard (c : Catalog) (t : Trace) : Except Fault Roots × Trace :=
  discover c [standardMarker] t

end ShaderIncludes.Roots
