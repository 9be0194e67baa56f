import ShaderIncludes.Proofs.Failure

/-!
# What a failed crawl leaves behind

A crawl that fails has added to its set what comes before the fault: the sources before, and of the
source it fails in the entries before the one that it fails below. Of that entry nothing is added,
however much was found below it (`remains_of_failure`). The set that the crawl starts from may hold
anything.
-/
namespace ShaderIncludes

open Crawl

/-- No crawl takes anything out of its set, or puts anything in front. -/
theorem Crawl.Runs.prefix_deps {s : Setup} {c : Catalog} {stack : List String} {task : Task}
    {p q : Progress} {outcome : Except Fault Unit} (h : Runs s c stack task p outcome q) :
    p.deps <+: q.deps := by
  induction h with
  | broken hlook | absent hlook => rw [deps_look hlook]
  | leaf hlook =>
    rw [← deps_look hlook]
    exact Dependencies.prefix_union _ [_]
  | list hlook _ ih => rwa [← deps_look hlook]
  | nil | failed => exact List.prefix_refl _
  | self _ ih => exact (Dependencies.prefix_union _ [_]).trans ih
  | collected _ _ _ ih | recursive _ _ _ _ ih => exact ih
  | expanded _ _ _ _ _ _ ih => exact (Dependencies.prefix_union _ _).trans ih

theorem Crawl.Ends.prefix_deps {s : Setup} {c : Catalog} {sources : List String}
    {p q : Progress} {outcome : Except Fault Unit} (h : Ends s c sources p outcome q) :
    p.deps <+: q.deps := by
  induction sources generalizing p with
  | nil => rw [(ends_nil_iff.1 h).2]
  | cons source rest ih =>
    rcases ends_cons_iff.1 h with ⟨r, hsource, hrest⟩ | ⟨fault, -, hsource⟩
    · exact hsource.prefix_deps.trans (ih hrest)
    · exact hsource.prefix_deps

namespace IncludeGraph

/-- What an entry of the list of `source` brings to a set: the source for `self`, nothing if the set
holds the entry or the entry is the source, else all that the entry stands for. -/
inductive Brings (g : IncludeGraph) (source : String) (deps : Dependencies) :
    String → List String → Prop where
  | self : Brings g source deps Includes.selfEntry [source]
  | skipped {entry} (hself : entry ≠ Includes.selfEntry) (hskip : entry ∈ deps ∨ entry = source) :
      Brings g source deps entry []
  | expanded {entry depth refs} (hself : entry ≠ Includes.selfEntry) (hdeps : entry ∉ deps)
      (hsource : entry ≠ source) (hplain : g.plain depth [source] entry = some refs) :
      Brings g source deps entry refs

/-- What the set comes to hold by what the entries bring, one after the other. -/
inductive BringsAll (g : IncludeGraph) (source : String) :
    Dependencies → List String → Dependencies → Prop where
  | nil {deps} : BringsAll g source deps [] deps
  | cons {deps entry rest part final} (hentry : g.Brings source deps entry part)
      (hrest : BringsAll g source (deps.union part) rest final) :
      BringsAll g source deps (entry :: rest) final

variable {g : IncludeGraph} {entries sources : List String} {entry source : String}
  {fault : Fault} {p q : Progress}

/-- The entry is to be expanded, and leads to the fault. -/
structure FailsBelow (g : IncludeGraph) (source : String) (deps : Dependencies) (entry : String)
    (fault : Fault) : Prop where
  ne_self : entry ≠ Includes.selfEntry
  not_mem : entry ∉ deps
  ne_source : entry ≠ source
  reaches : ∃ a, g.Reaches entry a ∧ g.Fails a fault

/-- An entry at the top either brings what it should or fails and brings nothing. -/
theorem brings_or_fails {rest : List String} {outcome : Except Fault Unit}
    (h : Runs g.setup g.catalog [source] (.entries source (entry :: rest)) p outcome q) :
    (∃ part r, g.Brings source p.deps entry part ∧ r.deps = p.deps.union part ∧
        Runs g.setup g.catalog [source] (.entries source rest) r outcome q) ∨
      ∃ fault, outcome = .error fault ∧ q.deps = p.deps ∧
        g.FailsBelow source p.deps entry fault := by
  cases h with
  | self hrest => exact .inl ⟨[source], _, .self, rfl, hrest⟩
  | collected hself hdeps hrest => exact .inl ⟨[], p, .skipped hself (.inl hdeps), rfl, hrest⟩
  | recursive hself _ hstack hrest =>
    have hsource : entry = source := List.mem_singleton.1 hstack
    exact .inl ⟨[], p.warn (.recursive entry source), .skipped hself (.inr hsource), rfl, hrest⟩
  | @expanded _ _ _ _ _ _ r _ hself hdeps hstack hentry hrest =>
    obtain ⟨depth, refs, hplain, hr⟩ := exists_plain_of_runs hstack hentry
    -- the set of the entry holds no reference twice, what the entry stands for may
    have hunion : p.deps.union r.deps = p.deps.union refs := by
      rw [hr, Dependencies.ofList, Dependencies.union_union]
      rfl
    have hsource : entry ≠ source := fun he => hstack (List.mem_singleton.2 he)
    exact .inl ⟨refs, _, .expanded hself hdeps hsource hplain, hunion, hrest⟩
  | failed hself hdeps hstack hentry =>
    have hsource : entry ≠ source := fun he => hstack (List.mem_singleton.2 he)
    exact .inr ⟨_, rfl, rfl, hself, hdeps, hsource, exists_fails_of_runs hentry rfl⟩

theorem exists_failing_entry
    (h : Runs g.setup g.catalog [source] (.entries source entries) p (.error fault) q) :
    ∃ taken entry rest, entries = taken ++ entry :: rest ∧
      g.BringsAll source p.deps taken q.deps ∧ g.FailsBelow source q.deps entry fault := by
  induction entries generalizing p with
  | nil => cases h
  | cons entry rest ih =>
    rcases brings_or_fails h with ⟨part, r, hpart, hr, hrest⟩ | ⟨fault', hfault, hq, hfails⟩
    · obtain ⟨taken, failing, more, rfl, htaken, hfails⟩ := ih hrest
      exact ⟨entry :: taken, failing, more, rfl, .cons hpart (hr ▸ htaken), hfails⟩
    · cases hfault
      exact ⟨[], entry, rest, rfl, hq ▸ .nil, hq ▸ hfails⟩

theorem exists_failing_source (h : Ends g.setup g.catalog sources p (.error fault) q) :
    ∃ before source after r, sources = before ++ source :: after ∧
      Ends g.setup g.catalog before p (.ok ()) r ∧
      Runs g.setup g.catalog [] (.reference source) r (.error fault) q := by
  induction sources generalizing p with
  | nil => cases (ends_nil_iff.1 h).1
  | cons first rest ih =>
    rcases ends_cons_iff.1 h with ⟨r, hfirst, hrest⟩ | ⟨fault', hfault, hfirst⟩
    · obtain ⟨before, source, after, r', rfl, hbefore, hsource⟩ := ih hrest
      exact ⟨first :: before, source, after, r', rfl, ends_cons_iff.2 (.inl ⟨r, hfirst, hbefore⟩),
        hsource⟩
    · cases hfault
      exact ⟨[], first, rest, p, rfl, ends_nil_iff.2 ⟨rfl, rfl⟩, hfirst⟩

/-- After a fault the set holds what it held before, then what the sources before the failing one
add, then what the entries before the failing one bring, and nothing else. -/
theorem remains_of_failure (h : Ends g.setup g.catalog sources p (.error fault) q) :
    p.deps <+: q.deps ∧ ∃ before source after r, sources = before ++ source :: after ∧
      Ends g.setup g.catalog before p (.ok ()) r ∧
      (g.Fails source fault ∧ q.deps = r.deps ∨
        ∃ taken entry rest, g.node source = .list (taken ++ entry :: rest) ∧
          g.BringsAll source r.deps taken q.deps ∧ g.FailsBelow source q.deps entry fault) := by
  obtain ⟨before, source, after, r, hsources, hbefore, hsource⟩ := exists_failing_source h
  refine ⟨h.prefix_deps, before, source, after, r, hsources, hbefore, ?_⟩
  cases hsource with
  | broken hlook => exact .inl ⟨node_eq_broken_iff.1 (node_of_look hlook), deps_look hlook⟩
  | list hlook hlist =>
    obtain ⟨taken, entry, rest, rfl, htaken, hfails⟩ := exists_failing_entry hlist
    rw [deps_look hlook] at htaken
    exact .inr ⟨taken, entry, rest, node_of_look hlook, htaken, hfails⟩

theorem ends_brittle : Ends brittle.setup brittle.catalog ["D", "A", "B"] { deps := ["Z"] }
    (.error (.missing "Gone" ["Assets"]))
    (gather brittle.setup brittleFiles ["D", "A", "B"] { deps := ["Z"] }).2 :=
  gather_eq_iff.1 (Prod.ext (by decide) rfl)

theorem remains_of_failure_brittle :
    ∃ q, Ends brittle.setup brittle.catalog ["D", "A", "B"] { deps := ["Z"] }
        (.error (.missing "Gone" ["Assets"])) q ∧ q.deps = ["Z", "D", "B", "A"] ∧
      ["Z"] <+: q.deps ∧ ∃ before source after r, ["D", "A", "B"] = before ++ source :: after ∧
        Ends brittle.setup brittle.catalog before { deps := ["Z"] } (.ok ()) r ∧
        (brittle.Fails source (.missing "Gone" ["Assets"]) ∧ q.deps = r.deps ∨
          ∃ taken entry rest, brittle.node source = .list (taken ++ entry :: rest) ∧
            brittle.BringsAll source r.deps taken q.deps ∧
            brittle.FailsBelow source q.deps entry (.missing "Gone" ["Assets"])) :=
  ⟨_, ends_brittle, by decide, remains_of_failure ends_brittle⟩

end IncludeGraph

end ShaderIncludes
