import ShaderIncludes.Crawl.Progress
import ShaderIncludes.Includes
import ShaderIncludes.Lookup

/-!
# Expanding references

A reference to a file without an include list depends on itself alone. With a list it depends on
what its entries depend on, from the first to the last; the file itself comes where the list says
`self`, and not at all if it never says so. An entry that the list has already brought in is passed
over. An entry whose expansion is under way further up is passed over with a warning, so cycles are
harmless. References are told apart by their text: two spellings of one file are two references.

Every entry is expanded on its own, from an empty set, and what it brings in is added behind what
there is. So a fault below an entry loses what was found below that entry, and nothing else.
-/
namespace ShaderIncludes.Crawl

/-- The lines of the file that a reference means; `none` if it is to be left out. -/
def fetch (s : Setup) (c : Catalog) (source : String) (p : Progress) :
    Except Fault (Option (List String)) × Progress :=
  match Lookup.find c s.roots s.base (.ofString source) p.trace with
  | (.ok place, trace) =>
    let (text, trace) := c.read place trace
    (text.map some, { p with trace })
  | (.error fault, trace) =>
    let p := { p with trace }
    match s.policy with
    | .abort => (.error fault, p)
    | .omit => (.ok none, p.store fault)
    | .leaf => (.ok (some []), p.store fault)

/-- Goes through the entries of the include list of `source`. The references under expansion, with
`source` among them, are `stack`; `visit` expands one that is not. -/
def follow (visit : String → Progress → Ending × Progress) (source : String)
    (stack : List String) : List String → Progress → Ending × Progress
  | [], p => (.done, p)
  | entry :: rest, p =>
    if entry = Includes.selfEntry then follow visit source stack rest (p.insert source)
    else if entry ∈ p.deps then follow visit source stack rest p
    else if entry ∈ stack then
      follow visit source stack rest (p.warn (.recursive entry source))
    else
      match visit entry { p with deps := [] } with
      | (.done, q) => follow visit source stack rest { q with deps := p.deps.union q.deps }
      | (ending, q) => (ending, { q with deps := p.deps })

/-- Expands a reference while the expansion of those on the stack is under way, at most `depth` of
them at once with it. -/
def expand (s : Setup) (c : Catalog) : (depth : Nat) → (stack : List String) → String →
    Progress → Ending × Progress
  | 0, _, _, p => (.tooDeep, p)
  | depth + 1, stack, source, p =>
    match fetch s c source p with
    | (.error fault, p) => (.failed fault, p)
    | (.ok none, p) => (.done, p)
    | (.ok (some text), p) =>
      match Includes.ofLines source text with
      | .error fault => (.failed fault, p)
      | .ok none => (.done, p.insert source)
      | .ok (some entries) =>
        follow (expand s c depth (source :: stack)) source (source :: stack) entries p

/-- Visits the sources one after the other, up to the first that fails. -/
def visitAll (visit : String → Progress → Ending × Progress) : List String → Progress →
    Ending × Progress
  | [], p => (.done, p)
  | source :: rest, p =>
    match visit source p with
    | (.done, q) => visitAll visit rest q
    | (ending, q) => (ending, q)

/-- Expands the sources one after the other, with at most `depth` references under expansion at
once. -/
def gatherWithin (depth : Nat) (s : Setup) (c : Catalog) (sources : List String) (p : Progress) :
    Ending × Progress :=
  visitAll (expand s c depth []) sources p

end ShaderIncludes.Crawl
