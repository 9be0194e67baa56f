import ShaderIncludes.Proofs.Ends
import ShaderIncludes.Proofs.FixedCatalog
import ShaderIncludes.Proofs.SideBySide
import ShaderIncludes.Store.Memory

/-!
# References that need no base

A bundled file is read from the roots and an absolute one from the project folder; the base has no part
in either. Main statement: so where nothing else is reached from the sources, a crawl is the same from
every base, except that its faults name the base for an absolute file that is missing
(`endsAlike_of_anchored`). That a reference is bundled or absolute is told from its text, that a path
is absolute from the path, and both have to come to the same (`Reference.Anchored.samePlaces`).
-/
namespace ShaderIncludes

/-- The reference is written as one of a bundled or of an absolute file. -/
def Reference.Anchored (text : String) : Prop := ['@', '/'] <+: text.toList ∨ ['/'] <+: text.toList

instance (text : String) : Decidable (Reference.Anchored text) :=
  inferInstanceAs (Decidable (_ ∨ _))

/-- The fault without the folders that a missing file was searched for in, where that is absolute. -/
def Fault.unbased : Fault → Fault
  | .missing reference searched =>
    match Reference.ofString reference with
    | .absolute _ => .missing reference []
    | _ => .missing reference searched
  | fault => fault

/-- An absolute path is the same place from every base. -/
theorem Path.locate_of_slash {path : String} {rest : List Char} (h : path.toList = '/' :: rest)
    (base base' : String) : locate base path = locate base' path := by
  unfold locate
  rw [h]
  rfl

namespace Reference

variable {text : String}

/-- The base is of no account to where the file is looked for. -/
theorem Anchored.samePlaces (h : Anchored text) (s : Crawl.Setup) (base : String) :
    Lookup.SamePlaces Fault.unbased s { s with base } (.ofString text) := by
  rcases h with ⟨rest, hrest⟩ | ⟨rest, hrest⟩
  · rw [ofString_of_mark hrest.symm]
    exact ⟨rfl, rfl⟩
  · have habsolute := ofString_of_slash hrest.symm
    have hplace := Path.locate_of_slash hrest.symm s.base base
    rw [habsolute]
    refine ⟨congrArg (fun place => [place]) hplace, ?_⟩
    simp only [Fault.unbased, Reference.toString, habsolute]

end Reference

namespace IncludeGraph

open Crawl

variable {g : IncludeGraph} {sources : List String}

theorem parallel_of_anchored (g : IncludeGraph) (base : String) :
    Parallel g.setup { g.setup with base } g.catalog Fault.unbased
      (fun a => ∀ b, g.Reaches a b → Reference.Anchored b) (Progress.Alike Fault.unbased) := by
  refine parallel_of_samePlaces rfl ?_ ?_
  · intro source hsource
    exact (hsource source .refl).samePlaces g.setup base
  · intro source p entries hsource hlist entry hentry hself b hb
    rw [look_fst] at hlist
    exact hsource b (.head ((edge_iff_mem hlist).2 ⟨hentry, hself⟩) hb)

/-- Where all that is reached from the sources is bundled or absolute, the base makes no difference: a
crawl makes the same calls and comes to the same dependencies, to the same outcome and to the same
warnings but for the folders searched for an absolute file. -/
theorem endsAlike_of_anchored
    (h : ∀ source ∈ sources, ∀ a, g.Reaches source a → Reference.Anchored a) (base : String)
    (p : Progress) :
    EndsAlike Fault.unbased g.setup { g.setup with base } g.catalog sources p :=
  (parallel_of_anchored g base).endsAlike h p

def mooredFiles : Snapshot :=
  Store.Memory.snapshot
    { files :=
        [("Packages/gen/Runtime/Sources/Main", listing ["/Shared/Noise", "@/Light", "/Gone", "self"]),
         ("Shared/Noise", listing ["@/Main", "@/Shade", "self"]),
         ("Packages/shaders/Runtime/Light", ["float3 light;"])] }

/-- Bundled and absolute files only: two that include each other, a third, and two missing ones. -/
def moored : IncludeGraph :=
  .ofSnapshot ⟨⟨"Packages/gen/Runtime/Sources", "/Packages/shaders/Runtime"⟩, "Assets", .omit⟩
    mooredFiles

theorem anchored_of_moored :
    ∀ source ∈ ["@/Main"], ∀ a, moored.Reaches source a → Reference.Anchored a := by
  intro source hsource a ha
  rcases Relation.ReflTransGen.cases_tail ha with rfl | ⟨b, -, hb⟩
  · have hsources : ∀ source ∈ ["@/Main"], Reference.Anchored source := by decide
    exact hsources a hsource
  · have hentries : ∀ a ∈ allEntries mooredFiles.texts, Reference.Anchored a := by decide
    exact hentries a (mem_allEntries_of_edge hb)

theorem endsAlike_of_anchored_moored :
    (∀ source ∈ ["@/Main"], ∀ a, moored.Reaches source a → Reference.Anchored a) ∧
      (gather { moored.setup with base := "" } mooredFiles ["@/Main"] {}).2.warnings =
        [.recursive "@/Main" "/Shared/Noise",
          .missing "@/Shade" [moored.setup.roots.primary, moored.setup.roots.secondary],
          .missing "/Gone" [""]] ∧
      EndsAlike Fault.unbased moored.setup { moored.setup with base := "" } moored.catalog ["@/Main"]
        {} :=
  ⟨anchored_of_moored, by decide, endsAlike_of_anchored anchored_of_moored "" {}⟩

end IncludeGraph

end ShaderIncludes
