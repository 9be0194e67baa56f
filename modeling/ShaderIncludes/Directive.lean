import ShaderIncludes.Directive.Body
import ShaderIncludes.Directive.Header
import ShaderIncludes.Fault

/-!
# Directives of a shader file

A shader file is read for its directives, `%Name(params)` with a body in braces; all other lines are
left to other tools. The brace may stand on the header's line or, after blank lines only, at the
beginning of a later one; without a brace the body is empty. Whatever stands in a body is text of
that body, even if it looks like a header.
-/
namespace ShaderIncludes

structure Directive where
  /-- The name, with its percent sign. -/
  name : String
  /-- The text between the parentheses, if there are any. -/
  params : Option String
  /-- The lines between the braces. -/
  body : List String
  /-- The line of the header, counted from 1. -/
  line : Nat
  deriving DecidableEq, Repr

namespace Directive

def isBlankLine (line : String) : Bool := Text.allBlank line.toList

/-- The text behind an opening brace that the first line with any text on it begins with, and the
number of lines up to and with it. -/
def opening? (lines : List String) : Option (String × Nat) :=
  match lines.dropWhile isBlankLine with
  | [] => none
  | line :: _ =>
    match Text.trimStart line.toList with
    | '{' :: rest => some (String.ofList rest, (lines.takeWhile isBlankLine).length + 1)
    | _ => none

/-- The body that belongs to a header with these lines behind it, and the number of lines that it
reaches over. There is none if it is opened and not closed. -/
def bodyOf? (header : Header) (lines : List String) : Option (List String × Nat) :=
  match header.rest with
  | some rest => Body.read? rest lines
  | none =>
    match opening? lines with
    | none => some ([], 0)
    | some (rest, used) =>
      (Body.read? rest (lines.drop used)).map fun (body, more) => (body, used + more)

/-- The directive that begins on line `number` with the trimmed text `head`, and the number of the
lines behind it that belong to it. -/
def begin? (number : Nat) (head : List Char) (behind : List String) : Option (Directive × Nat) := do
  let header ← Header.parse? head
  let (body, used) ← bodyOf? header behind
  return (⟨header.name, header.params, body, number⟩, used)

/-- The directives of the lines, of which the first has the given number and the first `skip` belong
to a directive that has been read; or the number of the line with the first that is not well
formed. -/
def parseFrom (number : Nat) : (skip : Nat) → List String → Except Nat (List Directive)
  | _, [] => .ok []
  | skip + 1, _ :: rest => parseFrom (number + 1) skip rest
  | 0, line :: rest =>
    let head := Text.trim line.toList
    if Header.isMarked head then
      match begin? number head rest with
      | none => .error number
      | some (directive, used) => (parseFrom (number + 1) used rest).map (directive :: ·)
    else parseFrom (number + 1) 0 rest

/-- The directives of the lines of a file. The file's name serves to report a fault. -/
def parse (file : String) (lines : List String) : Except Fault (List Directive) :=
  (parseFrom 1 0 lines).mapError (.malformed file)

theorem exists_line_of_parse {file : String} {lines : List String} {fault : Fault}
    (h : parse file lines = .error fault) : ∃ line, fault = .malformed file line := by
  obtain ⟨line, -, rfl⟩ := mapError_eq_error.1 h
  exact ⟨line, rfl⟩

end Directive

end ShaderIncludes
