import ShaderIncludes.Store.Folder
import ShaderIncludes.Store.Memory

/-!
# Stores of files

A store holds its files in memory or in a project folder.
-/
namespace ShaderIncludes

inductive Store where
  | memory (m : Store.Memory)
  | folder (f : Store.Folder)

namespace Store

def snapshot : Store → Snapshot
  | .memory m => m.snapshot
  | .folder f => f.snapshot

/-- The store as a catalog. A project folder is always up to date, so a refresh does nothing. -/
def catalog : Store → Catalog
  | .memory m => m.catalog
  | .folder f => f.snapshot.catalog

/-- The store after these calls on its catalog. -/
def after (calls : List Call) : Store → Store
  | .memory m => .memory (m.after calls)
  | .folder f => .folder f

def remove (path : String) : Store → Store
  | .memory m => .memory (m.remove path)
  | .folder f => .folder (f.remove path)

end Store

end ShaderIncludes
