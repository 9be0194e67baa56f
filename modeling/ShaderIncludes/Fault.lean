import ShaderIncludes.Text.Quoted

/-!
# What can go wrong

Every fault names its cause by the texts that were given, and `message` words it for a reader.
-/
namespace ShaderIncludes

inductive Fault where
  /-- No file was found for the reference in any of the folders searched. -/
  | missing (reference : String) (searched : List String)
  /-- None of the marker files exists, even after a refresh. -/
  | noMarker (candidates : List String)
  /-- A file that exists could not be read. -/
  | unreadable (file cause : String)
  /-- The file is included by `origin`, which is itself being expanded on its behalf. -/
  | recursive (file origin : String)
  /-- The directive at this line, counted from 1, is not well formed. -/
  | malformed (file : String) (line : Nat)
  deriving DecidableEq, Repr

namespace Fault

open Text (quote quoteList)

def message : Fault → String
  | .missing reference searched =>
    "unable to find asset " ++ quote reference ++ "; make sure it exists in " ++ quoteList searched
  | .noMarker candidates => "source root marker not found; tried " ++ quoteList candidates
  | .unreadable file cause =>
    "asset provider error: \"" ++ quote cause ++ "\" when trying to read " ++ quote file
  | .recursive file origin =>
    "asset " ++ quote file ++ " is recursively included; triggered in " ++ quote origin
  | .malformed file line => "parse error: " ++ quote file ++ " (" ++ toString line ++ ")"

/-- The fault is the mere absence of a file, which a caller can go on after. -/
def isMissing : Fault → Bool
  | .missing .. => true
  | _ => false

end Fault

/-! ## Results of steps that can fail -/

theorem map_eq_ok {ε α β : Type} {g : α → β} {r : Except ε α} {b : β} :
    r.map g = .ok b ↔ ∃ a, r = .ok a ∧ g a = b := by
  cases r <;> simp [Except.map]

theorem map_eq_error {ε α β : Type} {g : α → β} {r : Except ε α} {e : ε} :
    r.map g = .error e ↔ r = .error e := by
  cases r <;> simp [Except.map]

theorem mapError_eq_error {ε ε' α : Type} {g : ε → ε'} {r : Except ε α} {e : ε'} :
    r.mapError g = .error e ↔ ∃ cause, r = .error cause ∧ g cause = e := by
  cases r with
  | error cause =>
    constructor
    · rintro ⟨⟩
      exact ⟨cause, rfl, rfl⟩
    · rintro ⟨_, ⟨⟩, rfl⟩
      rfl
  | ok a =>
    constructor
    · rintro ⟨⟩
    · rintro ⟨_, ⟨⟩, _⟩

theorem mapError_eq_ok {ε ε' α : Type} {g : ε → ε'} {r : Except ε α} {a : α} :
    r.mapError g = .ok a ↔ r = .ok a := by
  cases r with
  | error e => exact ⟨nofun, nofun⟩
  | ok a' =>
    constructor
    · rintro ⟨⟩
      rfl
    · rintro ⟨⟩
      rfl

theorem toOption_mapError {ε ε' α : Type} (g : ε → ε') (r : Except ε α) :
    (r.mapError g).toOption = r.toOption := by
  cases r <;> rfl

end ShaderIncludes
