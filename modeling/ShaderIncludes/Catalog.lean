import ShaderIncludes.Trace

/-!
# Catalogs of files

A catalog says whether there is a file at a path, and what its lines are. Its answers may depend on
all calls made on it so far, so that a refresh, or anything else that a caller's own catalog does
behind a call, can change them. To ask is to leave the call in the trace. `Snapshot` is the catalog
of finitely many files that stay as they are.
-/
namespace ShaderIncludes

/-- The answers of a catalog after the calls made on it so far. -/
structure Catalog where
  /-- There is a file at the path. -/
  present : List Call → String → Bool
  /-- The lines of the file at the path, or the cause that it cannot be read. -/
  lines : List Call → String → Except String (List String)

namespace Catalog

def probe (c : Catalog) (path : String) (t : Trace) : Bool × Trace :=
  (c.present t.calls path, t.addCall (.probe path))

/-- Reads the file at a path that is known to exist. -/
def read (c : Catalog) (path : String) (t : Trace) : Except Fault (List String) × Trace :=
  ((c.lines t.calls path).mapError (.unreadable path), t.addCall (.read path))

/-- The catalog whose answers never change. -/
def fixed (present : String → Bool) (lines : String → Except String (List String)) : Catalog :=
  ⟨fun _ => present, fun _ => lines⟩

end Catalog

/-- Finitely many files that stay as they are. `texts` holds what can be read from any of them. -/
structure Snapshot where
  present : String → Bool
  lines : String → Except String (List String)
  texts : List (List String)
  mem_texts : ∀ {path text}, lines path = .ok text → text ∈ texts

def Snapshot.catalog (s : Snapshot) : Catalog := .fixed s.present s.lines

end ShaderIncludes
