import ShaderIncludes.Catalog

/-!
# Files in memory

A store of files that are held by their exact paths. Some files are late: they appear at the next
refresh. A path can be broken, so that there seems to be a file but reading it fails; a file that is
written to a broken path can be read only once the path is removed and written again.
-/
namespace ShaderIncludes.Store

def put {α : Type} (table : List (String × α)) (key : String) (value : α) : List (String × α) :=
  (key, value) :: table.filter (·.1 ≠ key)

def erase {α : Type} (table : List (String × α)) (key : String) : List (String × α) :=
  table.filter (·.1 ≠ key)

def get? {α : Type} (table : List (String × α)) (key : String) : Option α :=
  (table.find? (·.1 = key)).map (·.2)

theorem mem_of_get? {α : Type} {table : List (String × α)} {key : String} {value : α}
    (h : get? table key = some value) : (key, value) ∈ table := by
  obtain ⟨⟨k, v⟩, hf, rfl⟩ := Option.map_eq_some_iff.1 h
  have hk : k = key := by simpa using List.find?_some hf
  exact hk ▸ List.mem_of_find?_eq_some hf

structure Memory where
  /-- The files there are, by path. -/
  files : List (String × List String) := []
  /-- The files that the next refresh brings. -/
  late : List (String × List String) := []
  /-- The paths that cannot be read, with the cause. -/
  broken : List (String × String) := []
  deriving DecidableEq, Repr

namespace Memory

/-- There is a file at the path, or seems to be. -/
def has (m : Memory) (path : String) : Bool :=
  (get? m.files path).isSome || (get? m.broken path).isSome

def lines (m : Memory) (path : String) : Except String (List String) :=
  match get? m.broken path with
  | some cause => .error cause
  | none =>
    match get? m.files path with
    | some text => .ok text
    | none => .error "no such file"

def snapshot (m : Memory) : Snapshot where
  present := m.has
  lines := m.lines
  texts := m.files.map (·.2)
  mem_texts {path text} h := by
    unfold lines at h
    split at h
    · cases h
    · split at h
      · rename_i text' hg
        cases h
        exact List.mem_map.2 ⟨_, mem_of_get? hg, rfl⟩
      · cases h

/-- The late files have come. -/
def refreshed (m : Memory) : Memory :=
  { m with
    files := m.late.foldl (fun files (path, text) => put files path text) m.files
    late := [] }

/-- The store after these calls on its catalog, of which only a refresh changes it. -/
def after (m : Memory) (calls : List Call) : Memory :=
  if .refresh ∈ calls then m.refreshed else m

/-- The store as a catalog. -/
def catalog (m : Memory) : Catalog :=
  ⟨fun calls => (m.after calls).has, fun calls => (m.after calls).lines⟩

def write (m : Memory) (path : String) (text : List String) : Memory :=
  { m with files := put m.files path text }

/-- Removes a file, and what was broken about its path. -/
def remove (m : Memory) (path : String) : Memory :=
  { m with files := erase m.files path, broken := erase m.broken path }

/-- Makes reading the path fail. -/
def breakPath (m : Memory) (path cause : String) : Memory :=
  { m with broken := put m.broken path cause }

end Memory

end ShaderIncludes.Store
