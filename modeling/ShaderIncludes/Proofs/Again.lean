import ShaderIncludes.Proofs.Remains
import ShaderIncludes.Proofs.SideBySide

/-!
# Crawling again

Over files that never change, what an expansion from an empty set comes to depends on nothing that has
been crawled before (`exists_runs_of_deps_eq`). So whatever a crawl expands a second time adds only what
it has added the first time. Main statement: a crawl adds to its set at the end only and nothing
twice, and the same crawl of what it has come to adds nothing more (`settled_of_ends`). The set that
the first crawl starts from may hold anything; the second one passes over other entries than the
first, but over none that has anything to add.
-/
namespace ShaderIncludes

namespace Crawl

variable {s : Setup} {c : Catalog} {stack sources : List String} {task : Task}
  {outcome : Except Fault Unit} {p q : Progress}

theorem Runs.nodup_deps (h : Runs s c stack task p outcome q) (hp : p.deps.Nodup) :
    q.deps.Nodup := by
  induction h with
  | broken hlook | absent hlook => rwa [deps_look hlook]
  | leaf hlook =>
    rw [← deps_look hlook] at hp
    exact Dependencies.nodup_insert hp _
  | list hlook _ ih => exact ih (deps_look hlook ▸ hp)
  | nil | failed => exact hp
  | self _ ih => exact ih (Dependencies.nodup_insert hp _)
  | collected _ _ _ ih | recursive _ _ _ _ ih => exact ih hp
  | expanded _ _ _ _ _ _ ih => exact ih (Dependencies.nodup_union hp _)

theorem Ends.nodup_deps (h : Ends s c sources p outcome q) (hp : p.deps.Nodup) :
    q.deps.Nodup := by
  induction h using Ends.induction with
  | nil => exact hp
  | next hsource _ ih => exact ih (hsource.nodup_deps hp)
  | failed hsource => exact hsource.nodup_deps hp

end Crawl

namespace IncludeGraph

open Crawl

variable {g : IncludeGraph} {stack sources : List String} {entry source : String} {task : Task}
  {outcome : Except Fault Unit} {node : Node} {p p' q r : Progress}

theorem exists_look (h : look g.setup g.catalog source p = (node, q)) (p' : Progress) :
    ∃ q', look g.setup g.catalog source p' = (node, q') ∧ q'.deps = p'.deps := by
  have hnode : (look g.setup g.catalog source p').1 = node := by
    rw [look_fst, node_of_look h]
  exact ⟨_, Prod.ext hnode rfl, deps_look rfl⟩

/-- Only the set matters to what comes next, whatever has been crawled and warned of before. -/
theorem parallel_of_deps_eq (g : IncludeGraph) :
    Parallel g.setup g.setup g.catalog id (fun _ => True) fun p p' => p.deps = p'.deps where
  deps_eq hp := hp
  setDeps _ _ := rfl
  warn _ _ hp := hp
  alike_look {source p p'} _ hp := by
    have hdeps : ∀ p, (look g.setup g.catalog source p).2.deps = p.deps := fun p => deps_look rfl
    refine ⟨?_, ?_⟩
    · rw [look_fst, look_fst]
      exact .refl id _
    · rw [hdeps, hdeps, hp]
  due_of_list _ _ _ _ _ _ := trivial

theorem exists_runs_of_deps_eq (h : Runs g.setup g.catalog stack task p (.ok ()) q)
    (hp : p.deps = p'.deps) :
    ∃ q', Runs g.setup g.catalog stack task p' (.ok ()) q' ∧ q.deps = q'.deps := by
  have hdue : task.Due fun _ => True := by
    cases task with
    | reference => trivial
    | entries => exact fun _ _ _ => trivial
  obtain ⟨outcome', q', hruns, houtcome, hq⟩ := (parallel_of_deps_eq g).exists_runs h hdue hp
  cases mapError_eq_ok.1 houtcome.symm
  exact ⟨q', hruns, hq⟩

/-- The run succeeds from there and leaves the set as it is. -/
def AddsNothing (g : IncludeGraph) (stack : List String) (task : Task) (p : Progress) : Prop :=
  ∃ q, Runs g.setup g.catalog stack task p (.ok ()) q ∧ q.deps = p.deps

theorem AddsNothing.passOver {rest : List String} (hself : entry ≠ Includes.selfEntry)
    (hdeps : entry ∈ p.deps) (h : g.AddsNothing stack (.entries source rest) p) :
    g.AddsNothing stack (.entries source (entry :: rest)) p := by
  obtain ⟨q, hrest, hq⟩ := h
  exact ⟨q, .collected hself hdeps hrest, hq⟩

theorem AddsNothing.expand {rest : List String} (hself : entry ≠ Includes.selfEntry)
    (hdeps : entry ∉ p.deps) (hstack : entry ∉ stack)
    (hentry : Runs g.setup g.catalog stack (.reference entry) { p with deps := [] } (.ok ()) r)
    (hparts : r.deps ⊆ p.deps)
    (h : g.AddsNothing stack (.entries source rest) { r with deps := p.deps.union r.deps }) :
    g.AddsNothing stack (.entries source (entry :: rest)) p := by
  obtain ⟨q, hrest, hq⟩ := h
  exact ⟨q, .expanded hself hdeps hstack hentry hrest,
    hq.trans (Dependencies.union_eq_self hparts)⟩

/-- With all in the set that a run has come to, the same run adds nothing. -/
theorem addsNothing_of_subset (h : Runs g.setup g.catalog stack task p outcome q)
    (hdone : outcome = .ok ()) (hsub : q.deps ⊆ p'.deps) : g.AddsNothing stack task p' := by
  induction h generalizing p' with
  | broken | failed => cases hdone
  | absent hlook =>
    obtain ⟨q', hlook', hq'⟩ := exists_look hlook p'
    exact ⟨q', .absent hlook', hq'⟩
  | leaf hlook =>
    obtain ⟨q', hlook', hq'⟩ := exists_look hlook p'
    have hmem : _ ∈ q'.deps := hq' ▸ hsub (Dependencies.mem_insert.2 (.inr rfl))
    exact ⟨_, .leaf hlook', (Dependencies.insert_eq_self hmem).trans hq'⟩
  | list hlook _ ih =>
    obtain ⟨q', hlook', hq'⟩ := exists_look hlook p'
    obtain ⟨r', hlist, hr'⟩ := ih hdone (hq' ▸ hsub)
    exact ⟨r', .list hlook' hlist, hr'.trans hq'⟩
  | nil => exact ⟨p', .nil, rfl⟩
  | @self _ source _ _ _ _ hrest ih =>
    have hmem : source ∈ p'.deps :=
      hsub (hrest.prefix_deps.subset (Dependencies.mem_insert.2 (.inr rfl)))
    have hinsert : (p'.insert source).deps = p'.deps := Dependencies.insert_eq_self hmem
    obtain ⟨q', hrest', hq'⟩ := ih hdone (hinsert ▸ hsub)
    exact ⟨q', .self hrest', hq'.trans hinsert⟩
  | collected hself hdeps hrest ih =>
    exact (ih hdone hsub).passOver hself (hsub (hrest.prefix_deps.subset hdeps))
  | @recursive _ source entry _ _ _ _ hself _ hstack _ ih =>
    by_cases hdeps' : entry ∈ p'.deps
    · exact (ih hdone hsub).passOver hself hdeps'
    · have hwarned : _ ⊆ (p'.warn (.recursive entry source)).deps := hsub
      obtain ⟨q', hrest', hq'⟩ := ih hdone hwarned
      exact ⟨q', .recursive hself hdeps' hstack hrest', hq'⟩
  | @expanded _ _ entry _ p _ r _ hself _ hstack hentry hrest _ ih =>
    by_cases hdeps' : entry ∈ p'.deps
    · exact (ih hdone hsub).passOver hself hdeps'
    -- an entry that does not depend on itself is expanded anew, and the set has all that it brings in
    have hfresh : ({ p with deps := [] } : Progress).deps =
      ({ p' with deps := [] } : Progress).deps := rfl
    obtain ⟨r', hentry', hr'⟩ := exists_runs_of_deps_eq hentry hfresh
    have hparts : r'.deps ⊆ p'.deps := by
      intro a ha
      rw [← hr'] at ha
      exact hsub (hrest.prefix_deps.subset (Dependencies.mem_union.2 (.inr ha)))
    have hjoined : _ ⊆ ({ r' with deps := p'.deps.union r'.deps } : Progress).deps :=
      fun a ha => Dependencies.mem_union.2 (.inl (hsub ha))
    exact .expand hself hdeps' hstack hentry' hparts (ih hdone hjoined)

theorem exists_ends_again (h : Ends g.setup g.catalog sources p outcome q)
    (hdone : outcome = .ok ()) (hsub : q.deps ⊆ p'.deps) :
    ∃ q', Ends g.setup g.catalog sources p' (.ok ()) q' ∧ q'.deps = p'.deps := by
  induction h using Ends.induction generalizing p' with
  | nil => exact ⟨p', ends_nil_iff.2 ⟨rfl, rfl⟩, rfl⟩
  | next hsource hrest ih =>
    have hfirst := List.Subset.trans hrest.prefix_deps.subset hsub
    obtain ⟨r', hsource', hr'⟩ := addsNothing_of_subset hsource rfl hfirst
    obtain ⟨q', hrest', hq'⟩ := ih hdone (hr' ▸ hsub)
    exact ⟨q', ends_cons_iff.2 (.inl ⟨r', hsource', hrest'⟩), hq'.trans hr'⟩
  | failed => cases hdone

/-- A crawl adds to the end of its set and nothing twice, however it ends; and if it succeeds, the same
crawl of what it has come to succeeds as well and leaves that as it is. -/
theorem settled_of_ends (h : Ends g.setup g.catalog sources p outcome q) (hp : p.deps.Nodup) :
    q.deps.Nodup ∧ p.deps <+: q.deps ∧
      (outcome = .ok () → ∀ p', p'.deps = q.deps →
        ∃ q', Ends g.setup g.catalog sources p' (.ok ()) q' ∧ q'.deps = q.deps) := by
  refine ⟨h.nodup_deps hp, h.prefix_deps, ?_⟩
  intro hdone p' hp'
  have hsub : q.deps ⊆ p'.deps := hp' ▸ List.Subset.refl _
  obtain ⟨q', hagain, hq'⟩ := exists_ends_again h hdone hsub
  exact ⟨q', hagain, hq'.trans hp'⟩

theorem ends_crossed_of_B : Ends crossed.setup crossed.catalog ["A", "B"] { deps := ["B"] } (.ok ())
    (gather crossed.setup crossedFiles ["A", "B"] { deps := ["B"] }).2 :=
  gather_eq_iff.1 (Prod.ext (by decide) rfl)

/-- The first crawl passes over `B` where `A` includes it, the second one over all entries. -/
theorem settled_of_ends_crossed :
    ∃ q, Ends crossed.setup crossed.catalog ["A", "B"] { deps := ["B"] } (.ok ()) q ∧
      ["B"].Nodup ∧ q.deps = ["B", "C", "A"] ∧ q.deps.Nodup ∧ ["B"] <+: q.deps ∧
      ((.ok () : Except Fault Unit) = .ok () → ∀ p', p'.deps = q.deps →
        ∃ q', Ends crossed.setup crossed.catalog ["A", "B"] p' (.ok ()) q' ∧ q'.deps = q.deps) :=
  ⟨_, ends_crossed_of_B, by decide, by decide, settled_of_ends ends_crossed_of_B (by decide)⟩

end IncludeGraph

end ShaderIncludes
