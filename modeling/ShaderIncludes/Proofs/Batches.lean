import ShaderIncludes.Proofs.FixedCatalog
import ShaderIncludes.Proofs.SharedSet
import ShaderIncludes.Proofs.SideBySide

/-!
# Batches of sources

A crawl of two batches of sources at once is a crawl of the first batch and, if it succeeds, one of the
second that the same crawler makes from where the first has come to (`gather_append`). Nothing but the
dependencies and the stored warnings passes from the one to the other: what has been under expansion is
so no longer when the next source is begun, whatever cycles and missing files there have been, and files
that never change answer the same after any calls.
-/
namespace ShaderIncludes

/-! ## Records from before -/

namespace Lookup

variable (present : String → Bool) (lines : String → Except String (List String))

theorem firstPresent?_append (paths : List String) (t more : Trace) :
    firstPresent? (.fixed present lines) paths (t.append more) =
      ((firstPresent? (.fixed present lines) paths more).1,
        t.append (firstPresent? (.fixed present lines) paths more).2) := by
  induction paths generalizing more with
  | nil => rfl
  | cons path rest ih =>
    have hrest := ih (more.addCall (.probe path))
    simp only [Catalog.fixed] at hrest
    cases h : present path <;>
      simp [firstPresent?, Catalog.probe, Catalog.fixed, h, Trace.append_addCall, hrest]

theorem inFolder?_append (base path : String) (t more : Trace) :
    inFolder? (.fixed present lines) base path (t.append more) =
      ((inFolder? (.fixed present lines) base path more).1,
        t.append (inFolder? (.fixed present lines) base path more).2) := by
  unfold inFolder?
  rw [firstPresent?_append]
  rcases firstPresent? (.fixed present lines) (candidates base path) more with ⟨_ | place, u⟩
  · rfl
  · exact Prod.ext rfl (Trace.append_addNote t u _)

theorem inFolders?_append (path : String) (folders : List String) (t more : Trace) :
    inFolders? (.fixed present lines) path folders (t.append more) =
      ((inFolders? (.fixed present lines) path folders more).1,
        t.append (inFolders? (.fixed present lines) path folders more).2) := by
  induction folders generalizing more with
  | nil => rfl
  | cons folder rest ih =>
    unfold inFolders?
    rw [inFolder?_append]
    rcases inFolder? (.fixed present lines) folder path more with ⟨_ | place, u⟩
    · exact ih u
    · rfl

theorem find_append (roots : Roots) (base : String) (ref : Reference) (t more : Trace) :
    find (.fixed present lines) roots base ref (t.append more) =
      ((find (.fixed present lines) roots base ref more).1,
        t.append (find (.fixed present lines) roots base ref more).2) := by
  unfold find
  dsimp only
  rw [inFolders?_append]
  rcases inFolders? (.fixed present lines) ref.path (ref.folders roots base) more with ⟨_ | place, u⟩
  · exact Prod.ext rfl (Trace.append_addNote t u _)
  · rfl

end Lookup

namespace Crawl

/-- The same progress, with this record in front of its own. -/
def Progress.after (t : Trace) (p : Progress) : Progress := { p with trace := t.append p.trace }

variable {g : IncludeGraph} {s : Setup} {c : Catalog} {depth : Nat} {xs ys sources : List String}
  {outcome : Except Fault Unit} {p q : Progress}

theorem Progress.after_empty (p : Progress) : { p with trace := {} }.after p.trace = p := by
  simp [Progress.after, Trace.append_empty]

theorem fetch_after (t : Trace) (source : String) (p : Progress) :
    fetch g.setup g.catalog source (p.after t) =
      ((fetch g.setup g.catalog source p).1, (fetch g.setup g.catalog source p).2.after t) := by
  have hfind := Lookup.find_append g.present g.lines g.setup.roots g.setup.base (.ofString source)
    t p.trace
  have htrace : (p.after t).trace = t.append p.trace := rfl
  unfold fetch IncludeGraph.catalog
  rw [htrace, hfind]
  rcases Lookup.find (.fixed g.present g.lines) g.setup.roots g.setup.base (.ofString source) p.trace
    with ⟨fault | place, u⟩
  · cases g.setup.policy <;> rfl
  · have hread := Trace.append_addCall t u (.read place)
    simp [Catalog.read, Catalog.fixed, Progress.after, hread]

theorem parallel_after (g : IncludeGraph) (t : Trace) :
    Parallel g.setup g.setup g.catalog id (fun _ => True) fun p p' => p' = p.after t where
  deps_eq {p p'} hp := hp ▸ rfl
  setDeps {p p'} deps hp := hp ▸ rfl
  warn {p p'} file origin hp := by
    subst hp
    simp [Progress.warn, Progress.store, Progress.after, Trace.append_addNote]
  alike_look {source p p'} _ hp := by
    rw [hp, look_eq_fetch, look_eq_fetch, fetch_after]
    exact ⟨.refl id _, rfl⟩
  due_of_list _ _ _ _ _ _ := trivial

theorem mapError_id (outcome : Except Fault Unit) : outcome.mapError id = outcome := by
  cases outcome <;> rfl

/-- What has been recorded before does not matter where files never change. -/
theorem Ends.after (h : Ends g.setup g.catalog sources p outcome q) (t : Trace) :
    Ends g.setup g.catalog sources (p.after t) outcome (q.after t) := by
  obtain ⟨outcome', q', hends, houtcome, rfl⟩ :=
    (parallel_after g t).exists_ends h (fun _ _ => trivial) rfl
  rw [mapError_id, mapError_id] at houtcome
  exact houtcome ▸ hends

theorem gather_after (s : Setup) (files : Snapshot) (sources : List String) (p : Progress)
    (t : Trace) :
    gather s files sources (p.after t) =
      ((gather s files sources p).1, (gather s files sources p).2.after t) :=
  gather_eq_iff.2 (Ends.after (g := .ofSnapshot s files) (ends_gather s files sources p) t)

/-! ## One batch behind another -/

theorem ends_append_iff : Ends s c (xs ++ ys) p outcome q ↔
    (∃ r, Ends s c xs p (.ok ()) r ∧ Ends s c ys r outcome q) ∨
      ∃ fault, outcome = .error fault ∧ Ends s c xs p (.error fault) q := by
  induction xs generalizing p with
  | nil => simp [ends_nil_iff]
  | cons source rest ih =>
    rw [List.cons_append, ends_cons_iff]
    constructor
    · rintro (⟨r, hsource, hothers⟩ | ⟨fault, rfl, hsource⟩)
      · rcases ih.1 hothers with ⟨r', hrest, hys⟩ | ⟨fault, rfl, hrest⟩
        · exact .inl ⟨r', ends_cons_iff.2 (.inl ⟨r, hsource, hrest⟩), hys⟩
        · exact .inr ⟨fault, rfl, ends_cons_iff.2 (.inl ⟨r, hsource, hrest⟩)⟩
      · exact .inr ⟨fault, rfl, ends_cons_iff.2 (.inr ⟨fault, rfl, hsource⟩)⟩
    · rintro (⟨r', hxs, hys⟩ | ⟨fault, rfl, hxs⟩)
      · rcases ends_cons_iff.1 hxs with ⟨r, hsource, hrest⟩ | ⟨fault, hfault, -⟩
        · exact .inl ⟨r, hsource, ih.2 (.inl ⟨r', hrest, hys⟩)⟩
        · cases hfault
      · rcases ends_cons_iff.1 hxs with ⟨r, hsource, hrest⟩ | ⟨fault', hfault, hsource⟩
        · exact .inl ⟨r, hsource, ih.2 (.inr ⟨fault, rfl, hrest⟩)⟩
        · exact .inr ⟨fault', hfault, hfault ▸ hsource⟩

theorem gather_append_eq (s : Setup) (files : Snapshot) (xs ys : List String) (p : Progress) :
    gather s files (xs ++ ys) p =
      match gather s files xs p with
      | (.ok (), r) => gather s files ys r
      | (.error fault, r) => (.error fault, r) := by
  rcases hgather : gather s files xs p with ⟨fault | ⟨⟩, r⟩ <;>
    have hxs := gather_eq_iff.1 hgather
  · exact gather_eq_iff.2 (ends_append_iff.2 (.inr ⟨fault, rfl, hxs⟩))
  · exact gather_eq_iff.2 (ends_append_iff.2 (.inl ⟨r, hxs, ends_gather s files ys r⟩))

theorem visitAllShared_append
    (visit : String → Finset String → Progress → Ending × Finset String × Progress)
    (xs ys : List String) (active : Finset String) (p : Progress) :
    visitAllShared visit (xs ++ ys) active p =
      match visitAllShared visit xs active p with
      | (.done, active, q) => visitAllShared visit ys active q
      | (ending, active, q) => (ending, active, q) := by
  induction xs generalizing active p with
  | nil => rfl
  | cons source rest ih =>
    rcases h : visit source active p with ⟨_ | fault | _, active', q⟩
    · simp [visitAllShared, h, ih]
    · simp [visitAllShared, h]
    · simp [visitAllShared, h]

/-- Between two sources nothing is under expansion. -/
theorem active_eq_empty {active : Finset String} {r : Progress}
    (h : visitAllShared (expandShared s c depth) xs ∅ p = (.done, active, r)) : active = ∅ := by
  have hrestores := visitAllShared_expandShared_restores s c depth xs p
  rw [h] at hrestores
  generalize gatherWithin depth s c xs p = result at hrestores
  cases hrestores
  rfl

theorem gatherShared_append (xs ys : List String) (p : Progress) :
    gatherShared depth s c (xs ++ ys) p =
      match gatherShared depth s c xs p with
      | (.done, r) => gatherShared depth s c ys r
      | (ending, r) => (ending, r) := by
  unfold gatherShared
  rw [visitAllShared_append]
  rcases hxs : visitAllShared (expandShared s c depth) xs ∅ p with ⟨_ | fault | _, active, r⟩
  · obtain rfl := active_eq_empty hxs
    rfl
  · rfl
  · rfl

end Crawl

namespace Crawler

/-- A crawl of one batch of sources and, if it succeeds, a crawl of another one by the same crawler,
which adds to what the first has come to. -/
def gatherBoth (crawler : Crawler) (files : Snapshot) (base : String) (xs ys : List String)
    (deps : Dependencies) : Gathered × Crawler :=
  let (first, next) := crawler.gather files base xs deps
  match first.outcome with
  | .error _ => (first, next)
  | .ok () =>
    let (second, last) := next.gather files base ys first.deps
    (⟨second.outcome, second.deps, first.trace.append second.trace⟩, last)

theorem gather_eq_gatherBoth (crawler : Crawler) (files : Snapshot) (base : String)
    (xs ys : List String) (deps : Dependencies) :
    crawler.gather files base (xs ++ ys) deps = crawler.gatherBoth files base xs ys deps := by
  unfold gatherBoth gather
  rw [Crawl.gather_append_eq]
  dsimp only
  rcases Crawl.gather ⟨crawler.roots, base, crawler.policy⟩ files xs ⟨deps, crawler.warnings, {}⟩
    with ⟨fault | ⟨⟩, r⟩
  · rfl
  · -- the second crawl starts a record of its own
    have hsecond := Crawl.gather_after ⟨crawler.roots, base, crawler.policy⟩ files ys
      { r with trace := {} } r.trace
    rw [Crawl.Progress.after_empty] at hsecond
    dsimp only
    rw [hsecond]
    rfl

end Crawler

open Crawl in
/-- Two batches at once come to the same as the one and then the other: for a crawler, with its
outcome, dependencies, stored warnings, calls and notes; over any files, finitely many or not; and with
one set for all that is under expansion, which is new for each crawl and empty again when the next
source is begun. -/
theorem gather_append (xs ys : List String) :
    (∀ (crawler : Crawler) (files : Snapshot) (base : String) (deps : Dependencies),
      crawler.gather files base (xs ++ ys) deps = crawler.gatherBoth files base xs ys deps) ∧
    (∀ (s : Setup) (c : Catalog) (p q : Progress) (outcome : Except Fault Unit),
      Ends s c (xs ++ ys) p outcome q ↔
        (∃ r, Ends s c xs p (.ok ()) r ∧ Ends s c ys r outcome q) ∨
          ∃ fault, outcome = .error fault ∧ Ends s c xs p (.error fault) q) ∧
    ∀ (s : Setup) (c : Catalog) (depth : Nat) (p : Progress),
      (gatherShared depth s c (xs ++ ys) p =
        match gatherShared depth s c xs p with
        | (.done, r) => gatherShared depth s c ys r
        | (ending, r) => (ending, r)) ∧
      ∀ active r, visitAllShared (expandShared s c depth) xs ∅ p = (.done, active, r) →
        active = ∅ := by
  refine ⟨?_, ?_, ?_⟩
  · intro crawler files base deps
    exact crawler.gather_eq_gatherBoth files base xs ys deps
  · intro s c p q outcome
    exact ends_append_iff
  · intro s c depth p
    exact ⟨gatherShared_append xs ys p, fun active r => active_eq_empty⟩

end ShaderIncludes
