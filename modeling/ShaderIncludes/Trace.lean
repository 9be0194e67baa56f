import ShaderIncludes.Fault

/-!
# The record of a run

A run leaves two records: the calls it made on the catalog of files, which a build tool can keep as
the list of its inputs, and the notes it wrote for a reader. Both grow at the end only.
-/
namespace ShaderIncludes

/-- A call on a catalog. -/
inductive Call where
  /-- Is there a file at this path? -/
  | probe (path : String)
  /-- The lines of the file at this path. -/
  | read (path : String)
  /-- Look at the files anew. -/
  | refresh
  deriving DecidableEq, Repr

/-- A note written during a run. -/
inductive Note where
  /-- The path was looked for and found at this place. -/
  | located (path place : String)
  /-- No marker was found, so the catalog is about to be refreshed. -/
  | refreshing
  /-- The marker was found, and the bundled files are taken from this folder. -/
  | markerFound (marker primary : String)
  /-- Something went wrong, but perhaps not for the caller. -/
  | warned (fault : Fault)
  deriving DecidableEq, Repr

inductive Level where
  | debug
  | warning
  deriving DecidableEq, Repr

namespace Note

/-- Faults are warnings; all else is for the curious. -/
def level : Note → Level
  | .warned _ => .warning
  | _ => .debug

/-- The wording of a note. Paths are shown as they are. -/
def text : Note → String
  | .located path place => "resolved " ++ path ++ " to " ++ place
  | .refreshing => "source root marker not found; refreshing assets"
  | .markerFound marker primary =>
    "found source root marker " ++ marker ++ "; sources at " ++ primary
  | .warned fault => fault.message

end Note

/-- What a run has recorded so far, oldest first. -/
structure Trace where
  calls : List Call := []
  notes : List Note := []
  deriving DecidableEq, Repr

namespace Trace

def addCall (t : Trace) (call : Call) : Trace := { t with calls := t.calls ++ [call] }

def addNote (t : Trace) (note : Note) : Trace := { t with notes := t.notes ++ [note] }

/-- One record, and another one behind it. -/
def append (t more : Trace) : Trace := ⟨t.calls ++ more.calls, t.notes ++ more.notes⟩

@[simp] theorem calls_addCall (t : Trace) (call : Call) :
    (t.addCall call).calls = t.calls ++ [call] := rfl

@[simp] theorem notes_addCall (t : Trace) (call : Call) : (t.addCall call).notes = t.notes := rfl

@[simp] theorem calls_addNote (t : Trace) (note : Note) : (t.addNote note).calls = t.calls := rfl

@[simp] theorem notes_addNote (t : Trace) (note : Note) :
    (t.addNote note).notes = t.notes ++ [note] := rfl

theorem append_addCall (t more : Trace) (call : Call) :
    (t.append more).addCall call = t.append (more.addCall call) := by
  simp [append, addCall]

theorem append_addNote (t more : Trace) (note : Note) :
    (t.append more).addNote note = t.append (more.addNote note) := by
  simp [append, addNote]

theorem append_empty (t : Trace) : t.append {} = t := by
  simp [append]

theorem append_assoc (t more rest : Trace) :
    (t.append more).append rest = t.append (more.append rest) := by
  simp [append]

end Trace

end ShaderIncludes
