import ShaderIncludes.Proofs.Ends
import ShaderIncludes.Proofs.FixedCatalog
import ShaderIncludes.Proofs.PlainExpansion
import ShaderIncludes.Store.Memory

/-!
# What a crawl collects

A crawl passes over the entries that its set holds already, and those under expansion. That changes
nothing: what it collects is the plain expansion with the repetitions left out, and so all that the
sources reach. The invariant is that every set it adds to is closed, that is to say, holds with a
reference all of the reference's plain expansion.
-/
namespace ShaderIncludes

open Crawl

namespace IncludeGraph

/-- The set holds the plain expansions of its members. -/
def Closed (g : IncludeGraph) (stack : List String) (deps : Dependencies) : Prop :=
  ∀ a ∈ deps, a ∉ stack → ∃ depth part, g.plain depth stack a = some part ∧ part ⊆ deps

variable {g : IncludeGraph} {stack entries sources refs : List String} {a source : String}
  {deps : Dependencies} {p q : Progress}

theorem closed_nil : g.Closed stack [] := fun _ ha => absurd ha List.not_mem_nil

theorem Closed.mono {smaller : List String} (hs : smaller ⊆ stack)
    (h : g.Closed smaller deps) : g.Closed stack deps := by
  intro a ha hstack
  have hsmall : a ∉ smaller := fun hm => hstack (hs hm)
  obtain ⟨depth, part, hpart, hdeps⟩ := h a ha hsmall
  obtain ⟨more, less, hless, hsub⟩ :=
    exists_plain_sub hsmall hpart hstack fun b hb => hb.mono hs
  exact ⟨more, less, hless, List.Subset.trans hsub hdeps⟩

theorem Closed.insert (h : g.Closed stack deps) (ha : a ∈ stack) :
    g.Closed stack (deps.insert a) := by
  intro b hb hstack
  rcases Dependencies.mem_insert.1 hb with hb | rfl
  · obtain ⟨depth, part, hpart, hdeps⟩ := h b hb hstack
    exact ⟨depth, part, hpart, fun c hc => Dependencies.mem_insert.2 (.inl (hdeps hc))⟩
  · exact absurd ha hstack

theorem Closed.union {depth : Nat} (h : g.Closed stack deps) (ha : a ∉ stack)
    (hr : g.plain depth stack a = some refs) : g.Closed stack (deps.union refs) := by
  intro b hb hstack
  rcases Dependencies.mem_union.1 hb with hb | hb
  · obtain ⟨depth, part, hpart, hdeps⟩ := h b hb hstack
    exact ⟨depth, part, hpart, fun c hc => Dependencies.mem_union.2 (.inl (hdeps hc))⟩
  · have hab := ((mem_plain ha hr).1 hb).1
    obtain ⟨more, part, hpart, hsub⟩ :=
      exists_plain_sub ha hr hstack fun c hbc => hab.trans hbc
    exact ⟨more, part, hpart, fun c hc => Dependencies.mem_union.2 (.inr (hsub hc))⟩

/-- Going through a list adds its plain expansion to a closed set. -/
theorem follow_done {visit : String → Progress → Ending × Progress} (hsource : source ∈ stack)
    (hvisit : ∀ a ∉ stack, ∀ p q, p.deps = [] → visit a p = (.done, q) →
      ∃ depth refs, g.plain depth stack a = some refs ∧ q.deps = .ofList refs)
    (hclosed : g.Closed stack p.deps) (h : follow visit source stack entries p = (.done, q)) :
    ∃ depth refs, concat (branch (g.plain depth stack) source stack) entries = some refs ∧
      q.deps = p.deps.union refs := by
  induction entries generalizing p with
  | nil =>
    cases h
    exact ⟨0, [], rfl, rfl⟩
  | cons entry rest ih =>
    unfold follow at h
    -- in each case: what the entry stands for is what the set gains before the rest
    suffices hfront : ∃ depth front p', branch (g.plain depth stack) source stack entry = some front ∧
        p'.deps = p.deps.union front ∧ g.Closed stack p'.deps ∧
        follow visit source stack rest p' = (.done, q) by
      obtain ⟨less, front, p', hf, hp', hclosed', h'⟩ := hfront
      obtain ⟨more, back, hb, hq⟩ := ih hclosed' h'
      obtain ⟨depth, hd⟩ :=
        exists_concat_cons (fun depth => branch (g.plain depth stack) source stack)
          (fun hle => branch_mono fun _ _ => plain_mono hle) hf hb
      exact ⟨depth, _, hd, by rw [hq, hp', Dependencies.union_append]⟩
    by_cases hself : entry = Includes.selfEntry
    · rw [if_pos hself] at h
      exact ⟨0, [source], p.insert source, hself ▸ branch_self, rfl, hclosed.insert hsource, h⟩
    rw [if_neg hself] at h
    by_cases hdeps : entry ∈ p.deps
    · rw [if_pos hdeps] at h
      by_cases hstack : entry ∈ stack
      · exact ⟨0, [], p, branch_of_mem hself hstack, rfl, hclosed, h⟩
      obtain ⟨depth, front, hf, hsub⟩ := hclosed entry hdeps hstack
      exact ⟨depth, front, p, (branch_of_not_mem hself hstack).trans hf,
        (Dependencies.union_eq_self hsub).symm, hclosed, h⟩
    rw [if_neg hdeps] at h
    by_cases hstack : entry ∈ stack
    · rw [if_pos hstack] at h
      exact ⟨0, [], p.warn (.recursive entry source), branch_of_mem hself hstack, rfl, hclosed, h⟩
    rw [if_neg hstack] at h
    rcases hv : visit entry { p with deps := [] } with ⟨ending, r⟩
    rw [hv] at h
    cases ending with
    | failed fault => cases h
    | tooDeep => cases h
    | done =>
      obtain ⟨depth, front, hf, hr⟩ := hvisit entry hstack _ r rfl hv
      have hdeps' : p.deps.union r.deps = p.deps.union front := by
        rw [hr, Dependencies.ofList, Dependencies.union_union]
        rfl
      refine ⟨depth, front, _, (branch_of_not_mem hself hstack).trans hf, hdeps', ?_, h⟩
      exact hdeps' ▸ hclosed.union hstack hf

/-- What an expansion adds to a closed set is the plain expansion. -/
theorem expand_done {depth : Nat} (hs : source ∉ stack)
    (hclosed : g.Closed (source :: stack) p.deps)
    (h : expand g.setup g.catalog depth stack source p = (.done, q)) :
    ∃ depth refs, g.plain depth stack source = some refs ∧ q.deps = p.deps.union refs := by
  induction depth generalizing stack source p q with
  | zero => cases h
  | succ depth ih =>
    rw [expand_succ] at h
    have hfetch := deps_fetch (s := g.setup) (c := g.catalog) source p
    cases hn : g.node source with
    | broken fault => simp [hn] at h
    | absent =>
      simp only [hn, Prod.mk.injEq, true_and] at h
      have hplain : g.plain 1 stack source = some [] := by simp [plain, hn]
      have hq : q.deps = p.deps.union [] := by
        rw [← h, hfetch]
        rfl
      exact ⟨1, [], hplain, hq⟩
    | leaf =>
      simp only [hn, Prod.mk.injEq, true_and] at h
      have hplain : g.plain 1 stack source = some [source] := by simp [plain, hn]
      have hq : q.deps = p.deps.union [source] := by
        rw [← h, Progress.insert, hfetch]
        rfl
      exact ⟨1, [source], hplain, hq⟩
    | list entries =>
      simp only [hn] at h
      have hvisit : ∀ a ∉ source :: stack, ∀ p q, p.deps = [] →
          expand g.setup g.catalog depth (source :: stack) a p = (.done, q) →
          ∃ depth refs, g.plain depth (source :: stack) a = some refs ∧ q.deps = .ofList refs := by
        intro a ha p q hp hv
        have hnil : g.Closed (a :: source :: stack) p.deps := by
          rw [hp]
          exact closed_nil
        obtain ⟨depth, refs, hr, hq⟩ := ih ha hnil hv
        refine ⟨depth, refs, hr, ?_⟩
        rw [hq, hp]
        rfl
      rw [← hfetch] at hclosed
      obtain ⟨more, refs, hr, hq⟩ := follow_done List.mem_cons_self hvisit hclosed h
      have hplain : g.plain (more + 1) stack source = some refs := by simp only [plain, hn, hr]
      exact ⟨more + 1, refs, hplain, by rw [hq, hfetch]⟩

theorem exists_plain_of_runs (hs : source ∉ stack)
    (h : Runs g.setup g.catalog stack (.reference source) { p with deps := [] } (.ok ()) q) :
    ∃ depth refs, g.plain depth stack source = some refs ∧ q.deps = .ofList refs := by
  obtain ⟨depth, hd⟩ := h.exists_depth
  exact expand_done hs closed_nil hd

theorem avoids_of_mem_deps (hs : source ∉ stack)
    (h : Runs g.setup g.catalog stack (.reference source) { p with deps := [] } (.ok ()) q)
    (ha : a ∈ q.deps) : g.Avoids stack source a := by
  obtain ⟨depth, refs, hr, hq⟩ := exists_plain_of_runs hs h
  rw [hq, Dependencies.mem_ofList] at ha
  exact ((mem_plain hs hr).1 ha).1

theorem visitAll_done {depth : Nat} (hclosed : g.Closed [] p.deps)
    (h : visitAll (expand g.setup g.catalog depth []) sources p = (.done, q)) :
    ∃ depth refs, concat (g.plain depth []) sources = some refs ∧ q.deps = p.deps.union refs := by
  induction sources generalizing p with
  | nil =>
    cases h
    exact ⟨0, [], rfl, rfl⟩
  | cons source rest ih =>
    unfold visitAll at h
    rcases hv : expand g.setup g.catalog depth [] source p with ⟨ending, r⟩
    rw [hv] at h
    cases ending with
    | failed fault => cases h
    | tooDeep => cases h
    | done =>
      have hsource : source ∉ [] := List.not_mem_nil
      obtain ⟨less, front, hf, hr⟩ :=
        expand_done hsource (hclosed.mono (List.nil_subset _)) hv
      obtain ⟨more, back, hb, hq⟩ := ih (hr ▸ hclosed.union hsource hf) h
      obtain ⟨depth, hd⟩ :=
        exists_concat_cons (fun depth => g.plain depth []) (fun hle _ _ => plain_mono hle) hf hb
      exact ⟨depth, _, hd, by rw [hq, hr, Dependencies.union_append]⟩

/-- A crawl from nothing collects the plain expansion of its sources. -/
theorem exists_plain_of_ends (hp : p.deps = [])
    (h : Ends g.setup g.catalog sources p (.ok ()) q) :
    ∃ depth refs, concat (g.plain depth []) sources = some refs ∧ q.deps = .ofList refs := by
  obtain ⟨depth, h⟩ := h
  have hclosed : g.Closed [] p.deps := by
    rw [hp]
    exact closed_nil
  obtain ⟨more, refs, hr, hq⟩ := visitAll_done hclosed h
  refine ⟨more, refs, hr, ?_⟩
  rw [hq, hp]
  rfl

theorem mem_concat_plain {depth : Nat} (h : concat (g.plain depth []) sources = some refs) :
    a ∈ refs ↔ g.Emits a ∧ ∃ source ∈ sources, g.Reaches source a := by
  rw [mem_concat h]
  constructor
  · rintro ⟨source, hs, part, hpart, ha⟩
    obtain ⟨hav, hem⟩ := (mem_plain List.not_mem_nil hpart).1 ha
    exact ⟨hem, source, hs, hav.reaches⟩
  · rintro ⟨hem, source, hs, hreach⟩
    obtain ⟨part, hpart⟩ := exists_of_concat h hs
    exact ⟨source, hs, part, hpart,
      (mem_plain List.not_mem_nil hpart).2 ⟨avoids_nil.2 hreach, hem⟩⟩

theorem reached_of_mem_deps (hp : p.deps = [])
    (h : Ends g.setup g.catalog sources p (.ok ()) q) (ha : a ∈ q.deps) :
    g.Emits a ∧ a ∈ g.Reached sources := by
  obtain ⟨depth, refs, hr, hq⟩ := exists_plain_of_ends hp h
  rw [hq, Dependencies.mem_ofList] at ha
  exact (mem_concat_plain hr).1 ha

def crossedFiles : Snapshot :=
  Store.Memory.snapshot
    { files :=
        [("Assets/A", listing ["B", "C", "self"]),
         ("Assets/B.orlsource", listing ["C", "self", "A", "Gone"]),
         ("Assets/C", ["float c;"])] }

/-- Two files that include each other, a file that both include, and a missing one. -/
def crossed : IncludeGraph :=
  .ofSnapshot ⟨⟨"Packages/gen/Runtime/Sources", "/Packages/shaders/Runtime"⟩, "Assets", .omit⟩
    crossedFiles

theorem ends_crossed : Ends crossed.setup crossed.catalog ["A", "B"] {} (.ok ())
    (gather crossed.setup crossedFiles ["A", "B"] {}).2 :=
  gather_eq_iff.1 (Prod.ext (by decide) rfl)

/-- The dependencies are the emitters that the sources reach, around all cycles: neither an entry
that has been collected nor one under expansion is ever passed over to a dependency's loss. -/
theorem collected_iff_reaches (hp : p.deps = [])
    (h : Ends g.setup g.catalog sources p (.ok ()) q) (a : String) :
    a ∈ q.deps ↔ g.Emits a ∧ ∃ source ∈ sources, g.Reaches source a := by
  obtain ⟨depth, refs, hr, hq⟩ := exists_plain_of_ends hp h
  rw [hq, Dependencies.mem_ofList]
  exact mem_concat_plain hr

theorem collected_iff_reaches_crossed :
    ∃ q, Ends crossed.setup crossed.catalog ["A", "B"] {} (.ok ()) q ∧ q.deps = ["C", "B", "A"] ∧
      ∀ a, a ∈ q.deps ↔ crossed.Emits a ∧ ∃ source ∈ ["A", "B"], crossed.Reaches source a :=
  ⟨_, ends_crossed, by decide, collected_iff_reaches rfl ends_crossed⟩

/-- To pass over what has been collected changes neither the dependencies nor their order: they are
those of the plain expansion, each where it occurs first. -/
theorem collected_eq_plain (hp : p.deps = [])
    (h : Ends g.setup g.catalog sources p (.ok ()) q) :
    ∃ enough, ∀ depth, enough ≤ depth →
      (concat (g.plain depth []) sources).map Dependencies.ofList = some q.deps := by
  obtain ⟨enough, refs, hr, hq⟩ := exists_plain_of_ends hp h
  refine ⟨enough, fun depth hle => ?_⟩
  rw [concat_mono (fun _ _ => plain_mono hle) hr, hq]
  rfl

theorem collected_eq_plain_crossed :
    ∃ q, Ends crossed.setup crossed.catalog ["A", "B"] {} (.ok ()) q ∧ q.deps = ["C", "B", "A"] ∧
      ∃ enough, ∀ depth, enough ≤ depth →
        (concat (crossed.plain depth []) ["A", "B"]).map Dependencies.ofList = some q.deps :=
  ⟨_, ends_crossed, by decide, collected_eq_plain rfl ends_crossed⟩

end IncludeGraph

end ShaderIncludes
