import ShaderIncludes.Crawl.Depth

/-!
# Crawling include lists

The whole crawl of some sources over finitely many files. It always comes to an end: with the
references that the sources depend on, or with the first fault.
-/
namespace ShaderIncludes

/-- Adds what the sources depend on to the dependencies there are. -/
def Crawl.gather (s : Crawl.Setup) (files : Snapshot) (sources : List String)
    (p : Crawl.Progress) : Except Fault Unit × Crawl.Progress :=
  let result := Crawl.gatherWithin (Crawl.depthBound files.texts) s files.catalog sources p
  (result.1.outcome (Crawl.gatherWithin_ne_tooDeep s files sources p), result.2)

/-- All that the sources depend on, in order. References that no file is found for are left out. -/
def dependencies (roots : Roots) (base : String) (files : Snapshot) (sources : List String) :
    Except Fault Dependencies × Trace :=
  let (outcome, p) := Crawl.gather ⟨roots, base, default⟩ files sources {}
  (outcome.map fun _ => p.deps, p.trace)

/-- A crawler keeps the warnings of all its crawls until they are taken from it. -/
structure Crawler where
  roots : Roots
  policy : Crawl.MissingPolicy := default
  warnings : List Fault := []
  deriving DecidableEq, Repr

/-- What one crawl of a crawler gives back. The dependencies found before a fault are there too. -/
structure Gathered where
  outcome : Except Fault Unit
  deps : Dependencies
  trace : Trace

namespace Crawler

/-- Adds what the sources depend on, read from the folder `base`, to `deps`. -/
def gather (crawler : Crawler) (files : Snapshot) (base : String) (sources : List String)
    (deps : Dependencies) : Gathered × Crawler :=
  let (outcome, p) := Crawl.gather ⟨crawler.roots, base, crawler.policy⟩ files sources
    ⟨deps, crawler.warnings, {}⟩
  (⟨outcome, p.deps, p.trace⟩, { crawler with warnings := p.warnings })

/-- The warnings, which the crawler then has no longer. -/
def takeWarnings (crawler : Crawler) : List Fault × Crawler :=
  (crawler.warnings, { crawler with warnings := [] })

end Crawler

end ShaderIncludes
