import ShaderIncludes.Path
import ShaderIncludes.Text.Replace

/-!
# The folders that bundled files come from

Bundled files lie below one of two folders. The primary one is known from a marker file that is
shipped in a `Resources` folder beside it; the secondary one is the same everywhere.
-/
namespace ShaderIncludes

/-- The folders of the bundled files; the primary one is always tried first. -/
structure Roots where
  primary : String
  secondary : String
  deriving DecidableEq, Repr

namespace Roots

/-- Where the marker file lies unless told otherwise. -/
def standardMarker : String :=
  "Packages/sh.orels.shaders.generator/Runtime/Resources/ORLLocator.txt"

/-- The secondary folder that goes with every marker. -/
def sharedFolder : String := "/Packages/sh.orels.shaders/Runtime"

/-- The primary folder that a marker stands for: the folder it lies in, with `/Sources` wherever
`/Resources` is written. -/
def primaryOf (marker : List Char) : List Char :=
  Text.replace "/Resources".toList "/Sources".toList (Path.parent marker)

def ofMarker (marker : String) : Roots :=
  ⟨String.ofList (primaryOf marker.toList), sharedFolder⟩

@[simp] theorem toList_primary_ofMarker (marker : String) :
    (ofMarker marker).primary.toList = primaryOf marker.toList :=
  String.toList_ofList

end Roots

end ShaderIncludes
