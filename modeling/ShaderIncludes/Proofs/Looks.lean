import ShaderIncludes.Proofs.FixedCatalog

/-!
# Looks at references

What a look at a reference leaves in the progress of a crawl, over files that never change: the calls
it makes, and the warning it may store. What is to be done about missing files makes a difference
where a file is missing, and nowhere else (`look_of_found`, `look_of_missing`).
-/
namespace ShaderIncludes

open Crawl

namespace Lookup

variable (present : String → Bool) (lines : String → Except String (List String))

/-- The paths up to and with the first at which there is a file; all of them if there is none. -/
def upToFirst (paths : List String) : List String := paths.take (paths.findIdx present + 1)

theorem upToFirst_cons (path : String) (rest : List String) :
    upToFirst present (path :: rest) =
      path :: if present path then [] else upToFirst present rest := by
  unfold upToFirst
  cases h : present path <;> simp [List.findIdx_cons, h]

theorem upToFirst_append (paths more : List String) :
    upToFirst present (paths ++ more) =
      upToFirst present paths ++
        if (paths.find? present).isSome then [] else upToFirst present more := by
  induction paths with
  | nil => simp [upToFirst]
  | cons path rest ih =>
    rw [List.cons_append, upToFirst_cons, upToFirst_cons, ih]
    cases h : present path <;> simp [h]

theorem calls_firstPresent? (paths : List String) (t : Trace) :
    (firstPresent? (.fixed present lines) paths t).2.calls =
      t.calls ++ (upToFirst present paths).map .probe := by
  induction paths generalizing t with
  | nil => simp [firstPresent?, upToFirst]
  | cons path rest ih =>
    rw [upToFirst_cons]
    cases h : present path with
    | true => simp [firstPresent?, Catalog.probe, Catalog.fixed, h]
    | false =>
      have hrest := ih (t.addCall (.probe path))
      simp only [Catalog.fixed] at hrest
      simp [firstPresent?, Catalog.probe, Catalog.fixed, h, hrest]

theorem calls_inFolder? (base path : String) (t : Trace) :
    (inFolder? (.fixed present lines) base path t).2.calls =
      t.calls ++ (upToFirst present (candidates base path)).map .probe := by
  rw [← calls_firstPresent? present lines]
  unfold inFolder?
  rcases firstPresent? (.fixed present lines) (candidates base path) t with ⟨_ | place, t'⟩
  · rfl
  · rfl

theorem calls_inFolders? (path : String) (folders : List String) (t : Trace) :
    (inFolders? (.fixed present lines) path folders t).2.calls =
      t.calls ++ (upToFirst present (folders.flatMap (candidates · path))).map .probe := by
  induction folders generalizing t with
  | nil => simp [inFolders?, upToFirst]
  | cons folder rest ih =>
    have hfound := inFolder?_fixed present lines folder path t
    have hcalls := calls_inFolder? present lines folder path t
    rw [List.flatMap_cons, upToFirst_append, ← hfound]
    unfold inFolders?
    rcases hf : inFolder? (.fixed present lines) folder path t with ⟨_ | place, t'⟩
    · rw [hf] at hcalls
      dsimp only at hcalls
      simp [ih, hcalls]
    · rw [hf] at hcalls
      dsimp only at hcalls
      simp [hcalls]

end Lookup

namespace IncludeGraph

/-- There is a file for the reference. -/
def isFound (g : IncludeGraph) (a : String) : Bool := (g.place? a).isSome

/-- The same files, crawled with another policy. -/
def withPolicy (g : IncludeGraph) (policy : MissingPolicy) : IncludeGraph :=
  { g with setup := { g.setup with policy } }

/-- The paths that are probed for the file of a reference. -/
def probed (g : IncludeGraph) (source : String) : List String :=
  Lookup.upToFirst g.present (g.candidates (.ofString source))

/-- The calls of one whole look at a reference: the probes for its file, which is read if there is
one. -/
def lookCalls (g : IncludeGraph) (source : String) : List Call :=
  (g.probed source).map .probe ++ ((g.place? source).map Call.read).toList

/-- The progress after the file of a reference has been looked for. -/
def sought (g : IncludeGraph) (source : String) (p : Progress) : Progress :=
  { p with
    trace := (Lookup.find g.catalog g.setup.roots g.setup.base (.ofString source) p.trace).2 }

variable {g : IncludeGraph} {source : String} {policy : MissingPolicy} {node : Node}
  {p q : Progress}

theorem calls_sought (g : IncludeGraph) (source : String) (p : Progress) :
    (g.sought source p).trace.calls = p.trace.calls ++ (g.probed source).map .probe := by
  let reference := Reference.ofString source
  let folders := reference.folders g.setup.roots g.setup.base
  have hcalls : (Lookup.inFolders? g.catalog reference.path folders p.trace).2.calls =
      p.trace.calls ++ (g.probed source).map .probe := Lookup.calls_inFolders? g.present g.lines _ _ _
  rw [← hcalls]
  unfold sought Lookup.find
  dsimp only [reference, folders]
  rcases Lookup.inFolders? g.catalog (Reference.ofString source).path
    ((Reference.ofString source).folders g.setup.roots g.setup.base) p.trace with ⟨_ | place, t⟩
  · rfl
  · rfl

theorem find_of_found {place : String} (h : g.place? source = some place) (p : Progress) :
    Lookup.find g.catalog g.setup.roots g.setup.base (.ofString source) p.trace =
      (.ok place, (g.sought source p).trace) := by
  have hfst := find_fst g source p.trace
  rw [h] at hfst
  exact Prod.ext hfst rfl

theorem find_of_missing (h : g.isFound source = false) (p : Progress) :
    Lookup.find g.catalog g.setup.roots g.setup.base (.ofString source) p.trace =
      (.error (g.missing source), (g.sought source p).trace) := by
  have hfst := find_fst g source p.trace
  rw [Option.isNone_iff_eq_none.1 (Option.isSome_eq_false_iff.1 h)] at hfst
  exact Prod.ext hfst rfl

theorem fetch_of_found {place : String} (h : g.place? source = some place) (p : Progress) :
    fetch g.setup g.catalog source p =
      (((g.lines place).mapError (.unreadable place)).map some,
        { p with trace := (g.sought source p).trace.addCall (.read place) }) := by
  unfold fetch
  rw [find_of_found h]
  rfl

theorem fetch_of_missing (h : g.isFound source = false) (p : Progress) :
    fetch g.setup g.catalog source p =
      match g.setup.policy with
      | .abort => (.error (g.missing source), g.sought source p)
      | .omit => (.ok none, (g.sought source p).store (g.missing source))
      | .leaf => (.ok (some []), (g.sought source p).store (g.missing source)) := by
  unfold fetch
  rw [find_of_missing h]
  rfl

theorem exists_place_of_found (h : g.isFound source = true) :
    ∃ place, g.place? source = some place := Option.isSome_iff_exists.1 h

/-- The policy is of no account where there is a file. -/
theorem look_of_found (h : g.isFound source = true) (policy : MissingPolicy) (p : Progress) :
    look (g.withPolicy policy).setup g.catalog source p = look g.setup g.catalog source p := by
  obtain ⟨place, hplace⟩ := exists_place_of_found h
  have hfetch : fetch (g.withPolicy policy).setup g.catalog source p =
      fetch g.setup g.catalog source p := by
    rw [fetch_of_found hplace]
    exact fetch_of_found (g := g.withPolicy policy) hplace p
  rw [look_eq_fetch, look_eq_fetch, hfetch]

theorem look_of_missing (h : g.isFound source = false) (policy : MissingPolicy) (p : Progress) :
    look (g.withPolicy policy).setup g.catalog source p =
      match policy with
      | .abort => (.broken (g.missing source), g.sought source p)
      | .omit => (.absent, (g.sought source p).store (g.missing source))
      | .leaf => (.leaf, (g.sought source p).store (g.missing source)) := by
  have hfetch := fetch_of_missing (g := g.withPolicy policy) h p
  rw [look_eq_fetch]
  change (nodeOf source (fetch _ (g.withPolicy policy).catalog source p).1,
    (fetch _ (g.withPolicy policy).catalog source p).2) = _
  rw [hfetch]
  cases policy <;> rfl

theorem warnings_look_of_found (h : g.isFound source = true)
    (hlook : look g.setup g.catalog source p = (node, q)) : q.warnings = p.warnings := by
  obtain ⟨place, hplace⟩ := exists_place_of_found h
  rw [look_eq_fetch, fetch_of_found hplace] at hlook
  rw [← (Prod.mk.inj hlook).2]

theorem calls_look (hlook : look g.setup g.catalog source p = (node, q)) :
    q.trace.calls = p.trace.calls ++ g.lookCalls source := by
  have hsought := calls_sought g source p
  rw [look_eq_fetch] at hlook
  rw [← (Prod.mk.inj hlook).2]
  unfold lookCalls
  cases hplace : g.place? source with
  | some place =>
    rw [fetch_of_found hplace]
    simp [hsought]
  | none =>
    have hmissing : g.isFound source = false := by simp [isFound, hplace]
    rw [fetch_of_missing hmissing]
    cases g.setup.policy <;> simp [hsought, Progress.store]

end IncludeGraph

end ShaderIncludes
