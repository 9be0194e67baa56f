import ShaderIncludes.Catalog
import ShaderIncludes.Kind
import ShaderIncludes.Reference

/-!
# Looking references up

A reference is looked for in its folders, one after the other, and in each under the bare path and
then with the extension of every kind. The first file there is wins; nothing is probed after it.
-/
namespace ShaderIncludes.Lookup

/-- The paths tried for `path` in the folder `base`, in order. -/
def candidates (base path : String) : List String :=
  let place := Path.locate base path
  place :: Kind.all.map (·.extend place)

/-- The first of the paths at which there is a file. -/
def firstPresent? (c : Catalog) : List String → Trace → Option String × Trace
  | [], t => (none, t)
  | path :: rest, t =>
    match c.probe path t with
    | (true, t) => (some path, t)
    | (false, t) => firstPresent? c rest t

/-- The file that `path` means in the folder `base`. -/
def inFolder? (c : Catalog) (base path : String) (t : Trace) : Option String × Trace :=
  match firstPresent? c (candidates base path) t with
  | (some place, t) => (some place, t.addNote (.located path place))
  | (none, t) => (none, t)

/-- The file that `path` means in the first folder that has one. -/
def inFolders? (c : Catalog) (path : String) : List String → Trace → Option String × Trace
  | [], t => (none, t)
  | folder :: rest, t =>
    match inFolder? c folder path t with
    | (some place, t) => (some place, t)
    | (none, t) => inFolders? c path rest t

/-- The file that a reference means. That there is none is noted as a warning as well. -/
def find (c : Catalog) (roots : Roots) (base : String) (ref : Reference) (t : Trace) :
    Except Fault String × Trace :=
  let folders := ref.folders roots base
  match inFolders? c ref.path folders t with
  | (some place, t) => (.ok place, t)
  | (none, t) =>
    let fault := .missing ref.toString folders
    (.error fault, t.addNote (.warned fault))

theorem isMissing_of_find {c : Catalog} {roots : Roots} {base : String} {ref : Reference}
    {t t' : Trace} {fault : Fault} (h : find c roots base ref t = (.error fault, t')) :
    fault.isMissing = true := by
  unfold find at h
  dsimp only at h
  split at h
  · cases h
  · cases h
    rfl

def readLines (c : Catalog) (roots : Roots) (base text : String) (t : Trace) :
    Except Fault (List String) × Trace :=
  match find c roots base (.ofString text) t with
  | (.ok place, t) => c.read place t
  | (.error fault, t) => (.error fault, t)

theorem readLines_of_found {c : Catalog} {roots : Roots} {base text : String} {t u : Trace}
    {place : String} (h : find c roots base (.ofString text) t = (.ok place, u)) :
    readLines c roots base text t =
      ((c.lines u.calls place).mapError (.unreadable place), u.addCall (.read place)) := by
  unfold readLines
  rw [h]
  rfl

theorem readLines_of_missing {c : Catalog} {roots : Roots} {base text : String} {t u : Trace}
    {fault : Fault} (h : find c roots base (.ofString text) t = (.error fault, u)) :
    readLines c roots base text t = (.error fault, u) := by
  unfold readLines
  rw [h]

/-- The name of a bundled file without the `@` it may be marked with. -/
def bareName (name : String) : String := String.ofList (name.toList.filter (· ≠ '@'))

/-- Where the primary folder holds the bundled file of this kind. -/
def bundledPlace (roots : Roots) (name : String) (kind : Kind) : String :=
  String.ofList (Path.dropSlash (kind.extend (roots.primary ++ bareName name)).toList)

/-- The lines of the bundled file of this kind in the primary folder, the only one looked in. -/
def readBundled (c : Catalog) (roots : Roots) (name : String) (kind : Kind) (t : Trace) :
    Except Fault (List String) × Trace :=
  let place := bundledPlace roots name kind
  match c.probe place t with
  | (true, t) => c.read place t
  | (false, t) =>
    let fault := .missing (bareName name) [roots.primary]
    (.error fault, t.addNote (.warned fault))

end ShaderIncludes.Lookup
