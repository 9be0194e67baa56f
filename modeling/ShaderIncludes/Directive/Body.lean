import ShaderIncludes.Text.Blank

/-!
# Bodies of directives

A body goes from its opening brace to the first closing brace that closes more than the body itself
has opened, over as many lines as that takes. It keeps the lines in between as they are; of the two
outer pieces, behind the opening and before the closing brace, it keeps those that are not blank.
What follows the closing brace on its line is lost.
-/
namespace ShaderIncludes.Body

/-- What a piece of text does to a body that has `depth` braces open within it. -/
inductive Scan where
  /-- It closes the body, behind this text. -/
  | closes (before : List Char)
  /-- The body goes on with so many braces open within it. -/
  | leaves (depth : Nat)
  deriving DecidableEq, Repr

/-- One character more in front of the closing brace. -/
def Scan.cons (c : Char) : Scan → Scan
  | .closes before => .closes (c :: before)
  | .leaves depth => .leaves depth

/-- Follows the braces of a piece of text. -/
def scan : (depth : Nat) → List Char → Scan
  | depth, [] => .leaves depth
  | depth, '{' :: cs => (scan (depth + 1) cs).cons '{'
  | 0, '}' :: _ => .closes []
  | depth + 1, '}' :: cs => (scan depth cs).cons '}'
  | depth, c :: cs => (scan depth cs).cons c

/-- An outer piece of a body, which counts as a line only if it is not blank. -/
def keep (piece : List Char) : List String :=
  if Text.allBlank piece then [] else [String.ofList piece]

/-- What a body that has `depth` braces open within it takes from the lines: the lines it keeps, and
the number of lines up to its closing brace. -/
def readFrom? (depth : Nat) : List String → Option (List String × Nat)
  | [] => none
  | line :: rest =>
    match scan depth line.toList with
    | .closes before => some (keep before, 1)
    | .leaves depth => (readFrom? depth rest).map fun (kept, used) => (line :: kept, used + 1)

/-- The body whose opening brace is followed by `rest` on its line and then by the lines: the lines
it keeps, and the number of lines that it reaches over. There is none if no brace closes it. -/
def read? (rest : String) (lines : List String) : Option (List String × Nat) :=
  match scan 0 rest.toList with
  | .closes before => some (keep before, 0)
  | .leaves depth =>
    (readFrom? depth lines).map fun (kept, used) => (keep rest.toList ++ kept, used)

end ShaderIncludes.Body
