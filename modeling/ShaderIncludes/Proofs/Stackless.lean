import ShaderIncludes.Proofs.LoadOrder
import ShaderIncludes.Proofs.SharedSet

/-!
# Crawls without a stack

The crawl as it would be if nothing recorded what is under expansion: an entry is passed over if the
set holds it, and on no other ground. Around a cycle it has no end. Main statement: where the sources
lead to finitely many references and into no cycle, it has one, and comes to it exactly as the crawls
do that keep such a record, as a stack or as a set (`gather_eq_stackless`). In particular nothing is
passed over because an earlier source or entry has been under expansion, however that has ended.
-/
namespace ShaderIncludes

open Relation (TransGen)

namespace Crawl

def followStackless (visit : String → Progress → Ending × Progress) (source : String) :
    List String → Progress → Ending × Progress
  | [], p => (.done, p)
  | entry :: rest, p =>
    if entry = Includes.selfEntry then followStackless visit source rest (p.insert source)
    else if entry ∈ p.deps then followStackless visit source rest p
    else
      match visit entry { p with deps := [] } with
      | (.done, q) => followStackless visit source rest { q with deps := p.deps.union q.deps }
      | (ending, q) => (ending, { q with deps := p.deps })

def expandStackless (s : Setup) (c : Catalog) : (depth : Nat) → String → Progress →
    Ending × Progress
  | 0, _, p => (.tooDeep, p)
  | depth + 1, source, p =>
    match look s c source p with
    | (.broken fault, q) => (.failed fault, q)
    | (.absent, q) => (.done, q)
    | (.leaf, q) => (.done, q.insert source)
    | (.list entries, q) => followStackless (expandStackless s c depth) source entries q

/-- As `gatherWithin`, with nothing recorded of what is under expansion. -/
def gatherStackless (depth : Nat) (s : Setup) (c : Catalog) (sources : List String)
    (p : Progress) : Ending × Progress :=
  visitAll (expandStackless s c depth) sources p

variable {visit visit' : String → Progress → Ending × Progress} {source : String}
  {stack entries sources : List String}

theorem follow_eq_stackless
    (hstack : ∀ a ∈ entries, a ≠ Includes.selfEntry → a ∉ stack)
    (hvisit : ∀ a ∈ entries, a ≠ Includes.selfEntry → ∀ p, visit a p = visit' a p)
    (p : Progress) :
    follow visit source stack entries p = followStackless visit' source entries p := by
  induction entries generalizing p with
  | nil => rfl
  | cons entry rest ih =>
    have hrest : ∀ p, follow visit source stack rest p = followStackless visit' source rest p := by
      intro p
      apply ih
      · intro a ha
        exact hstack a (List.mem_cons_of_mem entry ha)
      · intro a ha
        exact hvisit a (List.mem_cons_of_mem entry ha)
    unfold follow followStackless
    by_cases hself : entry = Includes.selfEntry
    · rw [if_pos hself, if_pos hself]
      exact hrest _
    rw [if_neg hself, if_neg hself]
    by_cases hdeps : entry ∈ p.deps
    · rw [if_pos hdeps, if_pos hdeps]
      exact hrest _
    rw [if_neg hdeps, if_neg hdeps, if_neg (hstack entry List.mem_cons_self hself),
      hvisit entry List.mem_cons_self hself]
    rcases visit' entry { p with deps := [] } with ⟨ending, q⟩
    cases ending with
    | done => exact hrest _
    | failed fault => rfl
    | tooDeep => rfl

theorem visitAll_eq_of_mem (h : ∀ a ∈ sources, ∀ p, visit a p = visit' a p) (p : Progress) :
    visitAll visit sources p = visitAll visit' sources p := by
  induction sources generalizing p with
  | nil => rfl
  | cons source rest ih =>
    unfold visitAll
    rw [h source List.mem_cons_self]
    rcases visit' source p with ⟨ending, q⟩
    cases ending with
    | done => exact ih (fun a ha => h a (List.mem_cons_of_mem source ha)) q
    | failed fault => rfl
    | tooDeep => rfl

end Crawl

open Crawl

namespace IncludeGraph

variable {g : IncludeGraph} {source : String} {stack sources : List String} {depth : Nat}

theorem expand_eq_stackless (hstack : ∀ a ∈ stack, TransGen g.Edge a source)
    (hacyclic : ∀ a, g.Reaches source a → ¬ TransGen g.Edge a a) (p : Progress) :
    expand g.setup g.catalog depth stack source p =
      expandStackless g.setup g.catalog depth source p := by
  induction depth generalizing stack source p with
  | zero => rfl
  | succ depth ih =>
    rw [expand_eq_look]
    unfold expandStackless
    rcases hlook : look g.setup g.catalog source p with ⟨fault | _ | _ | entries, q⟩
    · rfl
    · rfl
    · rfl
    have hedge : ∀ a ∈ entries, a ≠ Includes.selfEntry → g.Edge source a := by
      intro a ha hself
      exact (edge_iff_mem (node_of_look hlook)).2 ⟨ha, hself⟩
    -- whatever is under expansion leads to the source, so an entry among it would close a cycle
    apply follow_eq_stackless
    · intro a ha hself hmem
      have he := hedge a ha hself
      exact not_mem_of_acyclic hstack he (hacyclic a (.single he)) hmem
    · intro a ha hself p
      have he := hedge a ha hself
      apply ih (transGen_of_edge hstack he)
      intro b hb
      exact hacyclic b (.head he hb)

theorem gatherWithin_eq_stackless
    (hacyclic : ∀ source ∈ sources, ∀ a, g.Reaches source a → ¬ TransGen g.Edge a a)
    (p : Progress) :
    gatherWithin depth g.setup g.catalog sources p =
      gatherStackless depth g.setup g.catalog sources p := by
  apply visitAll_eq_of_mem
  intro source hs p
  apply expand_eq_stackless
  · intro a ha
    exact absurd ha List.not_mem_nil
  · exact hacyclic source hs

/-! ## Finitely many references -/

/-- With `all` holding all that can be met, depth for those not on the stack suffices. -/
theorem expand_ne_tooDeep_of_subset (all : List String)
    (hall : ∀ a, g.Avoids stack source a → a ∈ all) (hs : source ∉ stack)
    (hd : unvisited all stack < depth) (p : Progress) :
    (expand g.setup g.catalog depth stack source p).1 ≠ .tooDeep := by
  induction depth generalizing stack source p with
  | zero => exact absurd hd (Nat.not_lt_zero _)
  | succ depth ih =>
    rw [expand_eq_look]
    rcases hlook : look g.setup g.catalog source p with ⟨fault | _ | _ | entries, q⟩
    · exact Ending.noConfusion
    · exact Ending.noConfusion
    · exact Ending.noConfusion
    have hlt : unvisited all (source :: stack) < unvisited all stack :=
      unvisited_cons_lt (hall source (.refl hs)) hs
    apply follow_ne_tooDeep
    intro a ha hself hstack r
    apply ih _ hstack
    · omega
    · intro b hb
      apply hall
      exact (avoids_list_iff (node_of_look hlook) hs).2 (.inr ⟨a, ha, hself, hb⟩)

theorem exists_depth_of_finite (hfinite : {a | ∃ source ∈ sources, g.Reaches source a}.Finite) :
    ∃ enough, ∀ depth, enough ≤ depth → ∀ p,
      (gatherWithin depth g.setup g.catalog sources p).1 ≠ .tooDeep := by
  refine ⟨unvisited hfinite.toFinset.toList [] + 1, ?_⟩
  intro depth hle p
  apply visitAll_ne_tooDeep
  intro source hs p
  apply expand_ne_tooDeep_of_subset hfinite.toFinset.toList _ List.not_mem_nil (by omega)
  intro a ha
  have hreach : ∃ source ∈ sources, g.Reaches source a := ⟨source, hs, avoids_nil.1 ha⟩
  simpa using hreach

theorem finite_reaches (s : Setup) (files : Snapshot) (sources : List String) :
    {a | ∃ source ∈ sources, (ofSnapshot s files).Reaches source a}.Finite := by
  apply (sources ++ allEntries files.texts).finite_toSet.subset
  rintro a ⟨source, hs, hreach⟩
  apply List.mem_append.2
  rcases Relation.ReflTransGen.cases_tail hreach with rfl | ⟨b, -, hedge⟩
  · exact .inl hs
  · exact .inr (mem_allEntries_of_edge hedge)

/-- Where the sources lead to finitely many references and into no cycle, a crawl comes to the same
end with a stack handed down, with one set of what is under expansion, and with neither: with the same
outcome and, also after a fault, the same dependencies, warnings and calls. The dependencies that it
starts from may be any. -/
theorem gather_eq_stackless (hfinite : {a | ∃ source ∈ sources, g.Reaches source a}.Finite)
    (hacyclic : ∀ source ∈ sources, ∀ a, g.Reaches source a → ¬ TransGen g.Edge a a)
    (p : Progress) :
    ∃ outcome q enough, ∀ depth, enough ≤ depth →
      gatherWithin depth g.setup g.catalog sources p = (.ofOutcome outcome, q) ∧
      gatherShared depth g.setup g.catalog sources p = (.ofOutcome outcome, q) ∧
      gatherStackless depth g.setup g.catalog sources p = (.ofOutcome outcome, q) := by
  obtain ⟨enough, hdepth⟩ := exists_depth_of_finite hfinite
  have hne := hdepth enough (Nat.le_refl enough) p
  rcases hend : gatherWithin enough g.setup g.catalog sources p with ⟨ending, q⟩
  rw [hend] at hne
  refine ⟨ending.outcome hne, q, enough, ?_⟩
  intro depth hle
  have hgather : gatherWithin depth g.setup g.catalog sources p =
      (.ofOutcome (ending.outcome hne), q) := by
    rw [gatherWithin_mono hle sources p (by rwa [hend]), hend,
      ← (Ending.outcome_eq_iff hne).1 rfl]
  refine ⟨hgather, ?_, ?_⟩
  · rw [gatherShared_eq, hgather]
  · rw [← gatherWithin_eq_stackless hacyclic, hgather]

/-- A set that is not empty at first, and a missing reference. -/
theorem gather_eq_stackless_diamond :
    {a | ∃ source ∈ ["A", "Gone"], diamond.Reaches source a}.Finite ∧ diamond.Acyclic ∧
      ∃ q enough, q.deps = ["C", "D", "B", "A", "Gone"] ∧ ∀ depth, enough ≤ depth →
        gatherWithin depth diamond.setup diamond.catalog ["A", "Gone"] { deps := ["C"] } =
          (.done, q) ∧
        gatherShared depth diamond.setup diamond.catalog ["A", "Gone"] { deps := ["C"] } =
          (.done, q) ∧
        gatherStackless depth diamond.setup diamond.catalog ["A", "Gone"] { deps := ["C"] } =
          (.done, q) := by
  have hfinite := finite_reaches diamond.setup diamondFiles ["A", "Gone"]
  obtain ⟨outcome, q, enough, hends⟩ := gather_eq_stackless (g := diamond) hfinite
    (fun _ _ a _ => acyclic_diamond a) { deps := ["C"] }
  have hgather : gather diamond.setup diamondFiles ["A", "Gone"] { deps := ["C"] } = (outcome, q) :=
    gather_eq_iff.2 ⟨enough, (hends enough (Nat.le_refl enough)).1⟩
  have houtcome : outcome = .ok () := (congrArg Prod.fst hgather).symm.trans (by decide)
  have hdeps : q.deps = ["C", "D", "B", "A", "Gone"] :=
    (congrArg (fun result => result.2.deps) hgather).symm.trans (by decide)
  rw [houtcome] at hends
  exact ⟨hfinite, acyclic_diamond, q, enough, hdeps, hends⟩

end IncludeGraph

end ShaderIncludes
