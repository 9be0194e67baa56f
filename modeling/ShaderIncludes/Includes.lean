import ShaderIncludes.Directive

/-!
# Include lists

The first directive `%Includes` of a file lists what the file includes, one reference a line. Quotes
and commas mean nothing wherever they stand; blank lines and lines that begin with `//` are left
out. The entry `self` stands for the file that holds the list.
-/
namespace ShaderIncludes.Includes

/-- The name of the directive that holds an include list. -/
def directiveName : String := "%Includes"

/-- The entry that stands for the file itself. -/
def selfEntry : String := "self"

def isSignificant (c : Char) : Bool := c ≠ '"' && c ≠ ','

/-- A line of the list without what means nothing in it. -/
def clean (line : List Char) : List Char := Text.trim (line.filter isSignificant)

/-- A cleaned line is an entry: it is neither empty nor a comment. -/
def isEntry (cleaned : List Char) : Bool := !cleaned.isEmpty && !(['/', '/'].isPrefixOf cleaned)

def entries (body : List String) : List String :=
  ((body.map fun line => clean line.toList).filter isEntry).map String.ofList

/-- The first include list among the directives. -/
def find? (directives : List Directive) : Option Directive :=
  directives.find? (·.name = directiveName)

/-- The include list of a file, if it has one: its entries in order. -/
def ofLines (file : String) (lines : List String) : Except Fault (Option (List String)) :=
  (Directive.parse file lines).map fun directives => (find? directives).map (entries ·.body)

theorem ofLines_eq_error {file : String} {lines : List String} {fault : Fault} :
    ofLines file lines = .error fault ↔ Directive.parse file lines = .error fault :=
  map_eq_error

/-- A file's name matters to its include list only where that is not well formed. -/
theorem ofLines_congr {file : String} (other : String) {text : List String}
    {list : Option (List String)} (h : ofLines file text = .ok list) :
    ofLines other text = .ok list := by
  obtain ⟨directives, hp, hlist⟩ := map_eq_ok.1 h
  have hparse : Directive.parse other text = .ok directives :=
    mapError_eq_ok.2 (mapError_eq_ok.1 hp)
  exact map_eq_ok.2 ⟨directives, hparse, hlist⟩

end ShaderIncludes.Includes
