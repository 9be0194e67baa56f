import ShaderIncludes.Dependencies
import ShaderIncludes.Roots
import ShaderIncludes.Trace

/-!
# What a crawl is told and what it carries along
-/
namespace ShaderIncludes.Crawl

/-- What to do about a reference that no file is found for. -/
inductive MissingPolicy where
  /-- Warn, and leave the reference out. -/
  | omit
  /-- Warn, and take the reference for an empty file, which depends on nothing but itself. -/
  | leaf
  /-- Stop with the fault. -/
  | abort
  deriving DecidableEq, Repr

/-- The policy of a caller who names none. -/
instance : Inhabited MissingPolicy := ⟨.omit⟩

/-- What stays the same during a crawl. -/
structure Setup where
  roots : Roots
  /-- The folder that references which are not bundled are read from. -/
  base : String
  policy : MissingPolicy
  deriving DecidableEq, Repr

/-- What a crawl carries along. The warnings are those a caller can ask for afterwards; the trace
notes them too. -/
structure Progress where
  deps : Dependencies := []
  warnings : List Fault := []
  trace : Trace := {}
  deriving DecidableEq, Repr

namespace Progress

def insert (p : Progress) (ref : String) : Progress := { p with deps := p.deps.insert ref }

/-- Stores a warning that has been noted already. -/
def store (p : Progress) (fault : Fault) : Progress :=
  { p with warnings := p.warnings ++ [fault] }

/-- Notes a warning and stores it. -/
def warn (p : Progress) (fault : Fault) : Progress :=
  { p with trace := p.trace.addNote (.warned fault) }.store fault

end Progress

/-- How a crawl, or a part of it, has ended. -/
inductive Ending where
  | done
  | failed (fault : Fault)
  /-- More includes were under expansion at once than had been allowed for. -/
  | tooDeep
  deriving DecidableEq, Repr

/-- The outcome of a crawl that was allowed to go as deep as it had to. -/
def Ending.outcome : (ending : Ending) → ending ≠ .tooDeep → Except Fault Unit
  | .done, _ => .ok ()
  | .failed fault, _ => .error fault
  | .tooDeep, h => absurd rfl h

end ShaderIncludes.Crawl
