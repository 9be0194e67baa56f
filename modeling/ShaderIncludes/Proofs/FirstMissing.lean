import ShaderIncludes.Proofs.Looks
import ShaderIncludes.Proofs.Recursion

/-!
# The first missing reference

A crawl that stops at missing references does what one that leaves them out does, up to the end of
the first lookup that fails, and has that as its fault; where none fails the two are the same
(`abort_stops_at_first_missing`). A fault of another kind ends both of them, unless a missing
reference has come before it.
-/
namespace ShaderIncludes

open Crawl

namespace IncludeGraph

/-- From `p` to `q` the references of `looked` have been looked at, and the warnings of `new` have
been stored. -/
def Passed (g : IncludeGraph) (looked : List String) (new : List Fault) (p q : Progress) : Prop :=
  q.warnings = p.warnings ++ new ∧
    q.trace.calls = p.trace.calls ++ looked.flatMap g.lookCalls

/-- No reference was missing from `p` to `q`. -/
def Unhindered (g : IncludeGraph) (p q : Progress) : Prop :=
  ∃ looked new, g.Passed looked new p q ∧ (∀ a ∈ looked, g.isFound a = true) ∧
    ∀ fault ∈ new, fault.isMissing = false

/-- From `p` to `q` the first missing reference was `ref`, which was known to be missing at `stop`. -/
structure Hindered (g : IncludeGraph) (ref : String) (p stop q : Progress) : Prop where
  missing : g.isFound ref = false
  before : ∃ r, g.Unhindered p r ∧ g.Passed [ref] [] r stop
  after : ∃ looked new, g.Passed looked (g.missing ref :: new) stop q

/-- Where one crawl goes from `p` to `q` and leaves missing references out, a crawl that stops at them
ends the same way, or at the first of them. -/
inductive Strict (g : IncludeGraph) (p : Progress) (outcome : Except Fault Unit) (q : Progress) :
    Except Fault Unit → Progress → Prop where
  | same (h : g.Unhindered p q) : Strict g p outcome q outcome q
  | stopped {ref stop} (h : g.Hindered ref p stop q) :
      Strict g p outcome q (.error (g.missing ref)) stop

variable {g : IncludeGraph} {looked more : List String} {new added : List Fault} {ref source : String}
  {stack sources : List String} {task : Task} {outcome outcome' : Except Fault Unit} {node : Node}
  {policy : MissingPolicy} {p q q' r stop : Progress}

theorem Passed.refl (p : Progress) : g.Passed [] [] p p :=
  ⟨(List.append_nil _).symm, (List.append_nil _).symm⟩

theorem Passed.trans (h : g.Passed looked new p r) (h' : g.Passed more added r q) :
    g.Passed (looked ++ more) (new ++ added) p q := by
  constructor
  · rw [h'.1, h.1, List.append_assoc]
  · rw [h'.2, h.2, List.flatMap_append, List.append_assoc]

theorem Unhindered.refl (p : Progress) : g.Unhindered p p :=
  ⟨[], [], .refl p, List.forall_mem_nil _, List.forall_mem_nil _⟩

theorem Unhindered.trans (h : g.Unhindered p r) (h' : g.Unhindered r q) : g.Unhindered p q := by
  obtain ⟨looked, new, hpassed, hfound, hnew⟩ := h
  obtain ⟨more, added, hpassed', hfound', hadded⟩ := h'
  refine ⟨looked ++ more, new ++ added, hpassed.trans hpassed', ?_, ?_⟩
  · exact List.forall_mem_append.2 ⟨hfound, hfound'⟩
  · exact List.forall_mem_append.2 ⟨hnew, hadded⟩

theorem unhindered_warn (file origin : String) (p : Progress) :
    g.Unhindered p (p.warn (.recursive file origin)) :=
  ⟨[], [.recursive file origin], ⟨rfl, (List.append_nil _).symm⟩, List.forall_mem_nil _,
    List.forall_mem_singleton.2 rfl⟩

theorem Hindered.of_unhindered (h : g.Unhindered p r) (h' : g.Hindered ref r stop q) :
    g.Hindered ref p stop q := by
  obtain ⟨r', hr, hstop⟩ := h'.before
  exact ⟨h'.missing, ⟨r', h.trans hr, hstop⟩, h'.after⟩

theorem Hindered.go_on (h : g.Hindered ref p stop r) (h' : g.Passed more added r q) :
    g.Hindered ref p stop q := by
  obtain ⟨looked, new, hr⟩ := h.after
  exact ⟨h.missing, h.before, looked ++ more, new ++ added, hr.trans h'⟩

theorem Hindered.of_fresh (h : g.Hindered ref { p with deps := [] } stop q)
    (deps deps' : Dependencies) :
    g.Hindered ref p { stop with deps } { q with deps := deps' } :=
  ⟨h.missing, h.before, h.after⟩

theorem Strict.of_unhindered (h : g.Unhindered p r) (h' : g.Strict r outcome q outcome' q') :
    g.Strict p outcome q outcome' q' := by
  cases h' with
  | same h' => exact .same (h.trans h')
  | stopped h' => exact .stopped (h'.of_unhindered h)

theorem exists_passed_of_look
    (hlook : look (g.withPolicy policy).setup g.catalog source p = (node, q)) :
    ∃ new, g.Passed [source] new p q := by
  obtain ⟨new, hnew, -⟩ := warns_look hlook
  refine ⟨new, hnew, ?_⟩
  rw [List.flatMap_singleton]
  exact calls_look (g := g.withPolicy policy) hlook

theorem exists_passed (h : Runs (g.withPolicy policy).setup g.catalog stack task p outcome q) :
    ∃ looked new, g.Passed looked new p q := by
  induction h with
  | broken hlook | absent hlook | leaf hlook =>
    obtain ⟨new, hnew⟩ := exists_passed_of_look hlook
    exact ⟨_, new, hnew⟩
  | list hlook _ ih =>
    obtain ⟨new, hnew⟩ := exists_passed_of_look hlook
    obtain ⟨more, added, hlist⟩ := ih
    exact ⟨_, _, hnew.trans hlist⟩
  | nil => exact ⟨[], [], .refl _⟩
  | self _ ih | collected _ _ _ ih | failed _ _ _ _ ih => exact ih
  | recursive _ _ _ _ ih =>
    obtain ⟨looked, new, hwarned, -⟩ := unhindered_warn (g := g) _ _ _
    obtain ⟨more, added, hrest⟩ := ih
    exact ⟨_, _, hwarned.trans hrest⟩
  | expanded _ _ _ _ _ ihentry ihrest =>
    obtain ⟨looked, new, hentry⟩ := ihentry
    obtain ⟨more, added, hrest⟩ := ihrest
    exact ⟨_, _, Passed.trans ⟨hentry.1, hentry.2⟩ hrest⟩

theorem exists_passed_of_ends
    (h : Ends (g.withPolicy policy).setup g.catalog sources p outcome q) :
    ∃ looked new, g.Passed looked new p q := by
  induction h using Ends.induction with
  | nil p => exact ⟨[], [], .refl p⟩
  | next hsource _ ih =>
    obtain ⟨looked, new, hr⟩ := exists_passed hsource
    obtain ⟨more, added, hq⟩ := ih
    exact ⟨_, _, hr.trans hq⟩
  | failed hsource => exact exists_passed hsource

/-- Where there is a file the two crawls find the same, and where there is none only one goes on. -/
theorem look_strict (hlook : look (g.withPolicy .omit).setup g.catalog source p = (node, q)) :
    (g.Unhindered p q ∧ look (g.withPolicy .abort).setup g.catalog source p = (node, q)) ∨
    (node = .absent ∧ ∃ stop, g.Hindered source p stop q ∧
      look (g.withPolicy .abort).setup g.catalog source p = (.broken (g.missing source), stop)) := by
  cases hfound : g.isFound source with
  | true =>
    rw [look_of_found hfound] at hlook ⊢
    refine .inl ⟨⟨[source], [], ⟨?_, ?_⟩, ?_, List.forall_mem_nil _⟩, hlook⟩
    · rw [warnings_look_of_found hfound hlook, List.append_nil]
    · rw [calls_look hlook, List.flatMap_singleton]
    · exact List.forall_mem_singleton.2 hfound
  | false =>
    rw [look_of_missing hfound] at hlook
    obtain ⟨rfl, rfl⟩ := Prod.mk.inj hlook
    have hstop := look_of_missing hfound .abort p
    have hcalls := calls_look (g := g.withPolicy .abort) hstop
    refine .inr ⟨rfl, g.sought source p, ⟨hfound, ⟨p, .refl p, ?_, ?_⟩, [], [], ?_, ?_⟩, hstop⟩
    · exact (List.append_nil _).symm
    · rw [hcalls, List.flatMap_singleton]
      rfl
    · rfl
    · exact (List.append_nil _).symm

theorem exists_runs_strict (h : Runs (g.withPolicy .omit).setup g.catalog stack task p outcome q) :
    ∃ outcome' q', Runs (g.withPolicy .abort).setup g.catalog stack task p outcome' q' ∧
      g.Strict p outcome q outcome' q' := by
  induction h with
  | broken hlook =>
    rcases look_strict hlook with ⟨hq, hlook'⟩ | ⟨habsent, -⟩
    · exact ⟨_, _, .broken hlook', .same hq⟩
    · cases habsent
  | absent hlook =>
    rcases look_strict hlook with ⟨hq, hlook'⟩ | ⟨-, stop, hq, hlook'⟩
    · exact ⟨_, _, .absent hlook', .same hq⟩
    · exact ⟨_, _, .broken hlook', .stopped hq⟩
  | leaf hlook =>
    rcases look_strict hlook with ⟨hq, hlook'⟩ | ⟨habsent, -⟩
    · exact ⟨_, _, .leaf hlook', .same hq⟩
    · cases habsent
  | list hlook _ ih =>
    rcases look_strict hlook with ⟨hq, hlook'⟩ | ⟨habsent, -⟩
    · obtain ⟨outcome', r', hlist, hr⟩ := ih
      exact ⟨_, _, .list hlook' hlist, hr.of_unhindered hq⟩
    · cases habsent
  | nil => exact ⟨_, _, .nil, .same (.refl _)⟩
  | @self _ source _ p _ _ _ ih =>
    obtain ⟨outcome', q', hrest, hq⟩ := ih
    have hinsert : g.Unhindered p (p.insert source) := .refl p
    exact ⟨_, _, .self hrest, hq.of_unhindered hinsert⟩
  | collected hself hdeps _ ih =>
    obtain ⟨outcome', q', hrest, hq⟩ := ih
    exact ⟨_, _, .collected hself hdeps hrest, hq⟩
  | recursive hself hdeps hstack _ ih =>
    obtain ⟨outcome', q', hrest, hq⟩ := ih
    exact ⟨_, _, .recursive hself hdeps hstack hrest, hq.of_unhindered (unhindered_warn _ _ _)⟩
  | @expanded _ _ _ _ p _ r _ hself hdeps hstack _ hrest ihentry ihrest =>
    obtain ⟨_, _, hentry', hr⟩ := ihentry
    cases hr with
    | same hr =>
      have hjoin : g.Unhindered p { r with deps := p.deps.union r.deps } := hr
      obtain ⟨outcome', q', hrest', hq⟩ := ihrest
      exact ⟨_, _, .expanded hself hdeps hstack hentry' hrest', hq.of_unhindered hjoin⟩
    | stopped hr =>
      -- the other crawl goes on with the entries that are left
      obtain ⟨more, added, hpassed⟩ := exists_passed hrest
      have hjoin := hr.of_fresh p.deps (p.deps.union r.deps)
      exact ⟨_, _, .failed hself hdeps hstack hentry', .stopped (hjoin.go_on hpassed)⟩
  | @failed _ _ _ _ p r _ hself hdeps hstack _ ih =>
    obtain ⟨_, _, hentry', hr⟩ := ih
    cases hr with
    | same hr =>
      have hdiscard : g.Unhindered p { r with deps := p.deps } := hr
      exact ⟨_, _, .failed hself hdeps hstack hentry', .same hdiscard⟩
    | stopped hr =>
      have hdiscard := hr.of_fresh p.deps p.deps
      exact ⟨_, _, .failed hself hdeps hstack hentry', .stopped hdiscard⟩

theorem exists_ends_strict (h : Ends (g.withPolicy .omit).setup g.catalog sources p outcome q) :
    ∃ outcome' q', Ends (g.withPolicy .abort).setup g.catalog sources p outcome' q' ∧
      g.Strict p outcome q outcome' q' := by
  induction h using Ends.induction with
  | nil p => exact ⟨_, _, ends_nil_iff.2 ⟨rfl, rfl⟩, .same (.refl p)⟩
  | next hsource hrest ih =>
    obtain ⟨_, _, hsource', hr⟩ := exists_runs_strict hsource
    cases hr with
    | same hr =>
      obtain ⟨outcome', q', hrest', hq⟩ := ih
      exact ⟨_, _, ends_cons_iff.2 (.inl ⟨_, hsource', hrest'⟩), hq.of_unhindered hr⟩
    | stopped hr =>
      obtain ⟨more, added, hpassed⟩ := exists_passed_of_ends hrest
      exact ⟨_, _, ends_cons_iff.2 (.inr ⟨_, rfl, hsource'⟩), .stopped (hr.go_on hpassed)⟩
  | failed hsource =>
    obtain ⟨_, _, hsource', hr⟩ := exists_runs_strict hsource
    cases hr with
    | same hr => exact ⟨_, _, ends_cons_iff.2 (.inr ⟨_, rfl, hsource'⟩), .same hr⟩
    | stopped hr => exact ⟨_, _, ends_cons_iff.2 (.inr ⟨_, rfl, hsource'⟩), .stopped hr⟩

/-- A crawl that stops at missing references, and one that leaves them out. If the second one warns of
none, the two have the same outcome and leave the same dependencies, warnings and trace. Else the
first one fails with the second one's first warning of a missing reference, with the warnings from
before it, and with the calls up to the end of the lookup that it is about. -/
theorem abort_stops_at_first_missing (s : Setup) (files : Snapshot) (sources : List String)
    (p : Progress) :
    let g := ofSnapshot s files
    let lenient := gather { s with policy := .omit } files sources p
    let strict := gather { s with policy := .abort } files sources p
    ∃ looked new, lenient.2.warnings = p.warnings ++ new ∧
      lenient.2.trace.calls = p.trace.calls ++ looked.flatMap g.lookCalls ∧
      ((∀ fault ∈ new, fault.isMissing = false) ∧ strict = lenient ∨
        ∃ before ref after found rest,
          new = before ++ g.missing ref :: after ∧ (∀ fault ∈ before, fault.isMissing = false) ∧
          looked = found ++ ref :: rest ∧ (∀ a ∈ found, g.isFound a = true) ∧
          g.isFound ref = false ∧ strict.1 = .error (g.missing ref) ∧
          strict.2.warnings = p.warnings ++ before ∧
          strict.2.trace.calls = p.trace.calls ++ (found ++ [ref]).flatMap g.lookCalls) := by
  intro g lenient strict
  have hlenient : Ends (g.withPolicy .omit).setup g.catalog sources p lenient.1 lenient.2 :=
    ends_gather _ files sources p
  obtain ⟨outcome', q', hends, hstrict⟩ := exists_ends_strict hlenient
  have hgather : strict = (outcome', q') := gather_eq_iff.2 hends
  rw [hgather]
  cases hstrict with
  | same h =>
    obtain ⟨looked, new, hpassed, -, hnew⟩ := h
    exact ⟨looked, new, hpassed.1, hpassed.2, .inl ⟨hnew, rfl⟩⟩
  | @stopped ref stop h =>
    obtain ⟨r, ⟨found, before, hpassed, hfound, hbefore⟩, hstop⟩ := h.before
    obtain ⟨rest, after, hgoes⟩ := h.after
    have hlast := hpassed.trans hstop
    rw [List.append_nil] at hlast
    have hall := hlast.trans hgoes
    rw [List.append_assoc] at hall
    exact ⟨_, _, hall.1, hall.2, .inr ⟨before, ref, after, found, rest, rfl, hbefore, rfl, hfound,
      h.missing, rfl, hlast.1, hlast.2⟩⟩

end IncludeGraph

end ShaderIncludes
