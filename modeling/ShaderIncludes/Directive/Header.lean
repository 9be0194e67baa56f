import ShaderIncludes.Text.Blank

/-!
# Headers of directives

A header is a line that reads, blanks at its ends aside, `%Name`, then perhaps `(params)`, then
perhaps an opening brace and the first text of the body. The name is an identifier; the parameters
end at the last `)` before the brace, with only blanks in between; what follows the brace holds no
line feed.
-/
namespace ShaderIncludes

structure Header where
  /-- The name, with its percent sign. -/
  name : String
  /-- The text between the parentheses, if there are any. -/
  params : Option String
  /-- The text behind the opening brace, if the brace stands on the header's line. -/
  rest : Option String
  deriving DecidableEq, Repr

namespace Header

def isNameStart (c : Char) : Bool := c.isAlpha || c = '_'

def isNameRest (c : Char) : Bool := c.isAlphanum || c = '_'

/-- The text, blanks at its ends aside, begins with a percent sign: a header is meant. -/
def isMarked (trimmed : List Char) : Bool := trimmed.head? = some '%'

/-- The name that a text begins with, and the text behind it. -/
def name? : List Char → Option (List Char × List Char)
  | '%' :: c :: cs =>
    if isNameStart c then
      some ('%' :: c :: cs.takeWhile isNameRest, cs.dropWhile isNameRest)
    else none
  | _ => none

/-- The parameters that the text behind a name is: none if it is blank, else the text between a `(`
that it begins with and a `)` that it ends with, blanks at the ends of each aside. The result is
`none` if it is neither. -/
def params? (text : List Char) : Option (Option (List Char)) :=
  match Text.trim text with
  | [] => some none
  | '(' :: inner =>
    if inner.getLast? = some ')' then some (some (Text.trim inner.dropLast)) else none
  | _ => none

/-- The text behind the first opening brace, if there is one. The result is `none` if that text
holds a line feed. -/
def rest? (trimmed : List Char) : Option (Option (List Char)) :=
  match trimmed.dropWhile (· ≠ '{') with
  | [] => some none
  | _ :: rest => if '\n' ∈ rest then none else some (some rest)

/-- The header that a text, blanks at its ends aside, is. -/
def parse? (trimmed : List Char) : Option Header := do
  let (name, behind) ← name? (trimmed.takeWhile (· ≠ '{'))
  let params ← params? behind
  let rest ← rest? trimmed
  return ⟨String.ofList name, params.map String.ofList, rest.map String.ofList⟩

end Header

end ShaderIncludes
