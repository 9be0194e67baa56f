import ShaderIncludes.Catalog
import ShaderIncludes.Text.Lines
import ShaderIncludes.Text.Utf8

/-!
# Files in a project folder

A project folder is part of a tree of folders and files, and a path is walked through it piece by
piece, as an operating system does: every piece but the last must name a folder that exists, and
`..` leads up, even out of the project, whose own name leads back. What else lies outside is not
known, apart from what has been written there. To write a file makes the folders that its path
walks through, also those that it leaves again by `..`. Slashes in front of a path mean nothing.
Files hold bytes, which are read as UTF-8 and cut into lines.
-/
namespace ShaderIncludes.Store

/-- A place in the tree, by the way to it from the project folder: first so many folders up, then
down through the names. -/
structure Place where
  up : Nat := 0
  names : List String := []
  deriving DecidableEq, Repr

/-- A project folder. -/
structure Folder where
  /-- The folder's own name, which leads back into it from its parent. -/
  name : String
  files : List (Place × List UInt8) := []
  /-- The folders other than the project folder and those that it lies in. -/
  folders : List Place := []
  deriving DecidableEq, Repr

/-- Why a path leads to no file. -/
inductive Obstacle where
  /-- A piece of the path names nothing. -/
  | notFound
  /-- The path goes on behind a file. -/
  | notAFolder
  /-- The path leads to a folder. -/
  | isFolder
  /-- The path, or a piece of it that is come to, is longer than any there can be. -/
  | tooLong
  /-- The text has a NUL in it, as no path has. -/
  | notAPath
  deriving DecidableEq, Repr

def Obstacle.text : Obstacle → String
  | .notFound => "no such file or folder"
  | .notAFolder => "not a folder"
  | .isFolder => "is a folder"
  | .tooLong => "path too long"
  | .notAPath => "not a path"

def Place.parent (place : Place) : Place :=
  if place.names = [] then { place with up := place.up + 1 }
  else { place with names := place.names.dropLast }

namespace Folder

/-- The place of this name in a folder. -/
def child (f : Folder) (place : Place) (name : String) : Place :=
  if place = ⟨1, []⟩ ∧ name = f.name then {}
  else { place with names := place.names ++ [name] }

def bytes? (f : Folder) (place : Place) : Option (List UInt8) :=
  (f.files.find? (·.1 = place)).map (·.2)

def hasFolder (f : Folder) (place : Place) : Bool :=
  place.names = [] || f.folders.contains place

/-- The greatest number of bytes in a name. -/
def longestName : Nat := 255

/-- One piece further along a path. -/
def step (f : Folder) (place : Place) (piece : String) : Except Obstacle Place :=
  if (f.bytes? place).isSome then .error .notAFolder
  else if piece = "" ∨ piece = "." then .ok place
  else if piece = ".." then .ok place.parent
  else if longestName < piece.utf8ByteSize then .error .tooLong
  else
    let next := f.child place piece
    if (f.bytes? next).isSome || f.hasFolder next then .ok next else .error .notFound

/-- The greatest number of bytes in a path, slashes in front aside. -/
def longestPath : Nat := 4093

/-- The pieces of a path, without the slashes in front of it. -/
def pieces (path : String) : Except Obstacle (List String) :=
  let path := path.toList.dropWhile (· = '/')
  if Char.ofNat 0 ∈ path then .error .notAPath
  else if longestPath < (String.ofList path).utf8ByteSize then .error .tooLong
  else .ok ((path.splitOn '/').map String.ofList)

def place (f : Folder) (path : String) : Except Obstacle Place := do
  (← pieces path).foldlM f.step {}

/-- The bytes of the file that a path leads to. -/
def open? (f : Folder) (path : String) : Except Obstacle (List UInt8) := do
  match f.bytes? (← f.place path) with
  | some bytes => return bytes
  | none => throw .isFolder

def linesOf (bytes : List UInt8) : List String := (Text.lines (Text.decode bytes)).map String.ofList

def has (f : Folder) (path : String) : Bool := (f.open? path).isOk

def lines (f : Folder) (path : String) : Except Obstacle (List String) :=
  (f.open? path).map linesOf

theorem mem_files_of_open? {f : Folder} {path : String} {bytes : List UInt8}
    (h : f.open? path = .ok bytes) : bytes ∈ f.files.map (·.2) := by
  unfold open? at h
  cases hp : f.place path with
  | error e => rw [hp] at h; cases h
  | ok place =>
    rw [hp] at h
    cases hb : f.bytes? place with
    | none => simp [bind, Except.bind, hb] at h
    | some found =>
      simp only [bind, Except.bind, hb, pure, Except.pure, Except.ok.injEq] at h
      obtain ⟨entry, hf, he⟩ := Option.map_eq_some_iff.1 hb
      exact List.mem_map.2 ⟨entry, List.mem_of_find?_eq_some hf, he.trans h⟩

def snapshot (f : Folder) : Snapshot where
  present := f.has
  lines path := (f.lines path).mapError (·.text)
  texts := f.files.map fun file => linesOf file.2
  mem_texts {path text} h := by
    obtain ⟨bytes, ho, hlines⟩ := map_eq_ok.1 (mapError_eq_ok.1 h)
    obtain ⟨file, hf, rfl⟩ := List.mem_map.1 (mem_files_of_open? ho)
    exact List.mem_map.2 ⟨file, hf, hlines⟩

/-- One piece further along a path, into a folder that is made if nothing is there. -/
def enter (state : Folder × Place) (piece : String) : Except Obstacle (Folder × Place) :=
  let (f, place) := state
  match f.step place piece with
  | .ok next => .ok (f, next)
  | .error .notFound =>
    let next := f.child place piece
    .ok ({ f with folders := next :: f.folders }, next)
  | .error obstacle => .error obstacle

/-- Makes the folders that a path walks through. -/
def makeFolder (f : Folder) (path : String) : Except Obstacle Folder := do
  let (f, place) ← (← pieces path).foldlM enter (f, {})
  if (f.bytes? place).isSome then throw .notAFolder
  return f

/-- Writes a file, and makes the folders that the path to it walks through. -/
def write (f : Folder) (path : String) (bytes : List UInt8) : Except Obstacle Folder := do
  let pieces ← pieces path
  let (f, folder) ← pieces.dropLast.foldlM enter (f, {})
  let name := pieces.getLastD ""
  if (f.bytes? folder).isSome then throw .notAFolder
  if name = "" ∨ name = "." ∨ name = ".." then throw .isFolder
  if longestName < name.utf8ByteSize then throw .tooLong
  let place := f.child folder name
  if f.hasFolder place then throw .isFolder
  return { f with files := (place, bytes) :: f.files.filter (·.1 ≠ place) }

/-- Removes the file that a path leads to; a path that leads to none changes nothing. -/
def remove (f : Folder) (path : String) : Folder :=
  match f.place path with
  | .ok place => { f with files := f.files.filter (·.1 ≠ place) }
  | .error _ => f

end Folder

end ShaderIncludes.Store
