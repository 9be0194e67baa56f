import ShaderIncludes.Roots

/-!
# References to shader files

A reference is written `@/Path` for a bundled file, `/Path` for one below the project folder, and in
any other way for one that is found from a base folder. Its first characters alone decide.
-/
namespace ShaderIncludes

/-- A reference, by the folder it is read from. -/
inductive Reference where
  /-- A bundled file; the path is held without the `@/` it is written with. -/
  | bundled (path : String)
  /-- A file below the project folder; the path is held with its leading slash. -/
  | absolute (path : String)
  /-- A file found from a base folder. -/
  | relative (path : String)
  deriving DecidableEq, Repr

namespace Reference

/-- How a bundled reference begins. -/
def bundledMark : String := "@/"

/-- The text behind the mark of a bundled reference, if it has the mark. -/
def afterMark? (text : String) : Option String :=
  match text.toList with
  | '@' :: '/' :: rest => some (String.ofList rest)
  | _ => none

/-- A path that is known not to be bundled. -/
def ofFree (text : String) : Reference :=
  match text.toList with
  | '/' :: _ => .absolute text
  | _ => .relative text

def ofString (text : String) : Reference :=
  match afterMark? text with
  | some path => .bundled path
  | none => ofFree text

/-- The reference that a path is to a caller who knows whether it is bundled. A bundled path may
come with its mark or without; elsewhere `@/` is no mark but part of the path. -/
def ofPath (path : String) (isBundled : Bool) : Reference :=
  if isBundled then .bundled ((afterMark? path).getD path) else ofFree path

def path : Reference → String
  | .bundled path | .absolute path | .relative path => path

protected def toString : Reference → String
  | .bundled path => bundledMark ++ path
  | .absolute path | .relative path => path

instance : ToString Reference := ⟨Reference.toString⟩

theorem eq_of_afterMark? {text path : String} (h : afterMark? text = some path) :
    text = bundledMark ++ path := by
  unfold afterMark? at h
  split at h
  · rename_i rest hrest
    cases h
    apply String.toList_inj.1
    simp [hrest, bundledMark]
  · cases h

@[simp] theorem toString_ofFree (text : String) : (ofFree text).toString = text := by
  unfold ofFree
  split <;> rfl

/-- A reference is written as it was read. -/
@[simp] theorem toString_ofString (text : String) : (ofString text).toString = text := by
  unfold ofString
  cases h : afterMark? text with
  | some path => exact (eq_of_afterMark? h).symm
  | none => exact toString_ofFree text

theorem ofString_of_mark {text : String} {rest : List Char} (h : text.toList = '@' :: '/' :: rest) :
    ofString text = .bundled (String.ofList rest) := by
  simp [ofString, afterMark?, h]

theorem ofString_of_slash {text : String} {rest : List Char} (h : text.toList = '/' :: rest) :
    ofString text = .absolute text := by
  simp [ofString, afterMark?, ofFree, h]

theorem afterMark?_eq_none {text : String} (h : ¬ ['@', '/'] <+: text.toList) :
    afterMark? text = none := by
  unfold afterMark?
  split
  · rename_i rest hrest
    exact absurd ⟨rest, hrest.symm⟩ h
  · rfl

theorem ofString_eq_relative {text : String} (hmark : ¬ ['@', '/'] <+: text.toList)
    (hslash : ¬ ['/'] <+: text.toList) : ofString text = .relative text := by
  unfold ofString ofFree
  rw [afterMark?_eq_none hmark]
  dsimp only
  split
  · rename_i rest hrest
    exact absurd ⟨rest, hrest.symm⟩ hslash
  · rfl

/-- The folders a reference is looked for in, in order. -/
def folders (roots : Roots) (base : String) : Reference → List String
  | .bundled _ => [roots.primary, roots.secondary]
  | .absolute _ | .relative _ => [base]

end Reference

end ShaderIncludes
