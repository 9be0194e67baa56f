import ShaderIncludes.Proofs.Looks
import ShaderIncludes.Proofs.Recursion
import ShaderIncludes.Proofs.WarningLog

/-!
# Missing references left out or kept

A missing reference that is kept enters the sets of a crawl, so it is passed over where it comes up
again; one that is left out is looked for and warned of every time. The two crawls make different
calls, and agree in all else: one set is the other without the missing references, they warn of the
same recursive includes, and they fail alike (`kept_agrees_with_omitted`). What carries the agreement
is that only references with a file are ever under expansion or stand for `self`.
-/
namespace ShaderIncludes

open Crawl

def Fault.isRecursive : Fault → Bool
  | .recursive .. => true
  | _ => false

/-- The warnings of a crawl that leaves missing references out, and of one that keeps them. -/
structure WarningsAgree (omitted kept : List Fault) : Prop where
  recursive : omitted.filter Fault.isRecursive = kept.filter Fault.isRecursive
  sublist : kept.Sublist omitted
  subset : omitted ⊆ kept

namespace WarningsAgree

variable {omitted kept : List Fault}

theorem nil : WarningsAgree [] [] := ⟨rfl, .refl [], List.Subset.refl []⟩

theorem append (h : WarningsAgree omitted kept) (fault : Fault) :
    WarningsAgree (omitted ++ [fault]) (kept ++ [fault]) := by
  refine ⟨?_, h.sublist.append_right [fault], ?_⟩
  · rw [List.filter_append, List.filter_append, h.recursive]
  · intro other ho
    rcases List.mem_append.1 ho with ho | ho
    · exact List.mem_append_left _ (h.subset ho)
    · exact List.mem_append_right _ ho

theorem append_left (h : WarningsAgree omitted kept) {fault : Fault} (hmem : fault ∈ kept)
    (hfault : fault.isRecursive = false) : WarningsAgree (omitted ++ [fault]) kept := by
  refine ⟨?_, h.sublist.trans (List.sublist_append_left omitted [fault]), ?_⟩
  · rw [List.filter_append, h.recursive]
    simp [hfault]
  · intro other ho
    rcases List.mem_append.1 ho with ho | ho
    · exact h.subset ho
    · rwa [List.mem_singleton.1 ho]

end WarningsAgree

namespace IncludeGraph

/-- Two sets that have both begun as `base`, and of which one has been given all references and the
other those with a file. Of the references without one there is a warning. -/
inductive SetsAgree (g : IncludeGraph) (base : Dependencies) (warnings : List Fault) :
    Dependencies → Dependencies → Prop where
  | start : SetsAgree g base warnings base base
  | found {omitted kept a} (h : SetsAgree g base warnings omitted kept) (hnew : a ∉ kept)
      (hfound : g.isFound a = true) :
      SetsAgree g base warnings (omitted ++ [a]) (kept ++ [a])
  | missing {omitted kept a} (h : SetsAgree g base warnings omitted kept) (hnew : a ∉ kept)
      (hfound : g.isFound a = false) (hwarned : g.missing a ∈ warnings) :
      SetsAgree g base warnings omitted (kept ++ [a])

namespace SetsAgree

variable {g : IncludeGraph} {base omitted kept omitted' kept' : Dependencies}
  {warnings more : List Fault} {a : String}

theorem mono (hsub : warnings ⊆ more) (h : SetsAgree g base warnings omitted kept) :
    SetsAgree g base more omitted kept := by
  induction h with
  | start => exact .start
  | found _ hnew hfound ih => exact .found ih hnew hfound
  | missing _ hnew hfound hwarned ih => exact .missing ih hnew hfound (hsub hwarned)

theorem subset (h : SetsAgree g base warnings omitted kept) : omitted ⊆ kept := by
  induction h with
  | start => exact List.Subset.refl base
  | found _ _ _ ih =>
    intro b hb
    rcases List.mem_append.1 hb with hb | hb
    · exact List.mem_append_left _ (ih hb)
    · exact List.mem_append_right _ hb
  | missing _ _ _ _ ih =>
    intro b hb
    exact List.mem_append_left _ (ih hb)

/-- What only one of the sets holds is missing, and there is a warning of it. -/
theorem missing_of_mem (h : SetsAgree g base warnings omitted kept) (hmem : a ∈ kept)
    (hnot : a ∉ omitted) : g.isFound a = false ∧ g.missing a ∈ warnings := by
  induction h with
  | start => exact absurd hmem hnot
  | found _ _ _ ih =>
    rcases List.mem_append.1 hmem with hmem | hmem
    · exact ih hmem fun hb => hnot (List.mem_append_left _ hb)
    · exact absurd (List.mem_append_right _ hmem) hnot
  | missing _ _ hfound hwarned ih =>
    rcases List.mem_append.1 hmem with hmem | hmem
    · exact ih hmem hnot
    · rw [List.mem_singleton.1 hmem]
      exact ⟨hfound, hwarned⟩

theorem mem_iff (h : SetsAgree g base warnings omitted kept) (hfound : g.isFound a = true) :
    a ∈ omitted ↔ a ∈ kept := by
  constructor
  · intro hmem
    exact h.subset hmem
  · intro hmem
    by_contra hnot
    have hmissing := (h.missing_of_mem hmem hnot).1
    rw [hfound] at hmissing
    cases hmissing

theorem insert (h : SetsAgree g base warnings omitted kept) (hfound : g.isFound a = true) :
    SetsAgree g base warnings (omitted.insert a) (kept.insert a) := by
  by_cases hmem : a ∈ kept
  · rw [Dependencies.insert_eq_self hmem, Dependencies.insert_eq_self ((h.mem_iff hfound).2 hmem)]
    exact h
  · have hnot : a ∉ omitted := fun ha => hmem (h.subset ha)
    rw [Dependencies.insert_eq_append hmem, Dependencies.insert_eq_append hnot]
    exact .found h hmem hfound

theorem insert_right (h : SetsAgree g base warnings omitted kept) (hfound : g.isFound a = false)
    (hwarned : g.missing a ∈ warnings) : SetsAgree g base warnings omitted (kept.insert a) := by
  by_cases hmem : a ∈ kept
  · rwa [Dependencies.insert_eq_self hmem]
  · rw [Dependencies.insert_eq_append hmem]
    exact .missing h hmem hfound hwarned

theorem union (h : SetsAgree g base warnings omitted kept)
    (h' : SetsAgree g [] warnings omitted' kept') :
    SetsAgree g base warnings (omitted.union omitted') (kept.union kept') := by
  induction h' with
  | start => exact h
  | found _ _ hfound ih =>
    rw [Dependencies.union_append, Dependencies.union_append]
    exact ih.insert hfound
  | missing _ _ hfound hwarned ih =>
    rw [Dependencies.union_append]
    exact ih.insert_right hfound hwarned

theorem exists_added (h : SetsAgree g base warnings omitted kept) :
    ∃ added, kept = base ++ added ∧ omitted = base ++ added.filter g.isFound ∧
      ∀ a ∈ added, a ∉ base := by
  have hsnoc : ∀ {added a}, (∀ b ∈ added, b ∉ base) → a ∉ base ++ added →
      ∀ b ∈ added ++ [a], b ∉ base := by
    intro added a hadded hnew
    apply List.forall_mem_append.2 ⟨hadded, List.forall_mem_singleton.2 _⟩
    intro ha
    exact hnew (List.mem_append_left added ha)
  induction h with
  | start => exact ⟨[], by simp⟩
  | found _ hnew hfound ih =>
    obtain ⟨added, rfl, rfl, hadded⟩ := ih
    exact ⟨_, List.append_assoc _ _ _, by simp [hfound], hsnoc hadded hnew⟩
  | missing _ hnew hfound _ ih =>
    obtain ⟨added, rfl, rfl, hadded⟩ := ih
    exact ⟨_, List.append_assoc _ _ _, by simp [hfound], hsnoc hadded hnew⟩

end SetsAgree

/-- A crawl that leaves missing references out and one that keeps them have come to the same point,
with sets that have begun as `base`. -/
structure Agrees (g : IncludeGraph) (base : Dependencies) (p p' : Progress) : Prop where
  sets : SetsAgree g base p'.warnings p.deps p'.deps
  warnings : WarningsAgree p.warnings p'.warnings

/-- Only references with a file are under expansion. -/
def Underway (g : IncludeGraph) (stack : List String) : Task → Prop
  | .reference _ => ∀ a ∈ stack, g.isFound a = true
  | .entries source _ => g.isFound source = true ∧ ∀ a ∈ stack, g.isFound a = true

variable {g : IncludeGraph} {base : Dependencies} {stack sources : List String} {source : String}
  {task : Task} {outcome : Except Fault Unit} {node : Node} {p p' q q' r r' : Progress}

theorem Agrees.fresh (h : g.Agrees base p p') :
    g.Agrees [] { p with deps := [] } { p' with deps := [] } := ⟨.start, h.warnings⟩

theorem Agrees.join (h : g.Agrees base p p') (hr : g.Agrees [] r r')
    (hgrows : p'.warnings ⊆ r'.warnings) :
    g.Agrees base { r with deps := p.deps.union r.deps }
      { r' with deps := p'.deps.union r'.deps } :=
  ⟨(h.sets.mono hgrows).union hr.sets, hr.warnings⟩

theorem Agrees.discard (h : g.Agrees base p p') (hr : g.Agrees [] r r')
    (hgrows : p'.warnings ⊆ r'.warnings) :
    g.Agrees base { r with deps := p.deps } { r' with deps := p'.deps } :=
  ⟨h.sets.mono hgrows, hr.warnings⟩

theorem Agrees.look (h : g.Agrees base p p') (hdeps : q.deps = p.deps) (hdeps' : q'.deps = p'.deps)
    (hwarnings : q.warnings = p.warnings) (hwarnings' : q'.warnings = p'.warnings) :
    g.Agrees base q q' := by
  refine ⟨?_, ?_⟩
  · rw [hdeps, hdeps', hwarnings']
    exact h.sets
  · rw [hwarnings, hwarnings']
    exact h.warnings

/-- A look that finds a file finds the same whether missing references are kept or not. Without a file
one crawl goes on with nothing, and the other with a leaf. -/
theorem look_kept (h : g.Agrees base p p')
    (hlook : look (g.withPolicy .omit).setup g.catalog source p = (node, q)) :
    (g.isFound source = true ∧
      ∃ q', look (g.withPolicy .leaf).setup g.catalog source p' = (node, q') ∧
        g.Agrees base q q') ∨
    (node = .absent ∧
      ∃ q', look (g.withPolicy .leaf).setup g.catalog source p' = (.leaf, q') ∧
        g.Agrees base q (q'.insert source)) := by
  cases hfound : g.isFound source with
  | true =>
    rw [look_of_found hfound] at hlook ⊢
    rcases hlook' : look g.setup g.catalog source p' with ⟨node', q'⟩
    obtain rfl : node' = node := (node_of_look hlook').symm.trans (node_of_look hlook)
    refine .inl ⟨rfl, q', rfl, h.look (deps_look hlook) (deps_look hlook') ?_ ?_⟩
    · exact warnings_look_of_found hfound hlook
    · exact warnings_look_of_found hfound hlook'
  | false =>
    rw [look_of_missing hfound] at hlook
    obtain ⟨rfl, rfl⟩ := Prod.mk.inj hlook
    refine .inr ⟨rfl, _, look_of_missing hfound .leaf p', ?_, h.warnings.append (g.missing source)⟩
    have hsets := h.sets.mono (List.subset_append_left _ [g.missing source])
    exact hsets.insert_right hfound (List.mem_append_right _ List.mem_cons_self)

theorem runs_of_missing (hmissing : g.isFound source = false)
    (h : Runs (g.withPolicy .omit).setup g.catalog stack (.reference source) p outcome q) :
    outcome = .ok () ∧ q.deps = p.deps ∧ q.warnings = p.warnings ++ [g.missing source] := by
  cases h with
  | broken hlook | leaf hlook | list hlook =>
    rw [look_of_missing hmissing] at hlook
    cases (Prod.mk.inj hlook).1
  | absent hlook =>
    rw [look_of_missing hmissing] at hlook
    obtain ⟨-, rfl⟩ := Prod.mk.inj hlook
    exact ⟨rfl, rfl, rfl⟩

/-- A crawl that leaves missing references out is followed, at every point of it, by one that keeps
them. -/
theorem exists_runs_kept (h : Runs (g.withPolicy .omit).setup g.catalog stack task p outcome q)
    (hstack : g.Underway stack task) (hp : g.Agrees base p p') :
    ∃ q', Runs (g.withPolicy .leaf).setup g.catalog stack task p' outcome q' ∧
      g.Agrees base q q' := by
  induction h generalizing base p' with
  | broken hlook =>
    rcases look_kept hp hlook with ⟨-, q', hlook', hq⟩ | ⟨habsent, -⟩
    · exact ⟨q', .broken hlook', hq⟩
    · cases habsent
  | absent hlook =>
    rcases look_kept hp hlook with ⟨-, q', hlook', hq⟩ | ⟨-, q', hlook', hq⟩
    · exact ⟨q', .absent hlook', hq⟩
    · exact ⟨_, .leaf hlook', hq⟩
  | leaf hlook =>
    rcases look_kept hp hlook with ⟨hfound, q', hlook', hq⟩ | ⟨habsent, -⟩
    · exact ⟨_, .leaf hlook', hq.sets.insert hfound, hq.warnings⟩
    · cases habsent
  | list hlook _ ih =>
    rcases look_kept hp hlook with ⟨hfound, q', hlook', hq⟩ | ⟨habsent, -⟩
    · obtain ⟨r', hlist, hr⟩ := ih ⟨hfound, List.forall_mem_cons.2 ⟨hfound, hstack⟩⟩ hq
      exact ⟨r', .list hlook' hlist, hr⟩
    · cases habsent
  | nil => exact ⟨p', .nil, hp⟩
  | @self _ source _ p _ _ _ ih =>
    have hinsert : g.Agrees base (p.insert source) (p'.insert source) :=
      ⟨hp.sets.insert hstack.1, hp.warnings⟩
    obtain ⟨q', hrest, hq⟩ := ih hstack hinsert
    exact ⟨q', .self hrest, hq⟩
  | collected hself hdeps _ ih =>
    obtain ⟨q', hrest, hq⟩ := ih hstack hp
    exact ⟨q', .collected hself (hp.sets.subset hdeps) hrest, hq⟩
  | @recursive _ source entry _ p _ _ hself hdeps hmem _ ih =>
    -- what is under expansion has a file, so the sets agree on it
    have hdeps' : entry ∉ p'.deps := fun ha => hdeps ((hp.sets.mem_iff (hstack.2 entry hmem)).2 ha)
    have hgrows := List.subset_append_left p'.warnings [.recursive entry source]
    have hwarn : g.Agrees base (p.warn (.recursive entry source))
        (p'.warn (.recursive entry source)) := ⟨hp.sets.mono hgrows, hp.warnings.append _⟩
    obtain ⟨q', hrest, hq⟩ := ih hstack hwarn
    exact ⟨q', .recursive hself hdeps' hmem hrest, hq⟩
  | @expanded _ _ entry _ p _ r _ hself hdeps hmem hentry _ ihentry ihrest =>
    by_cases hdeps' : entry ∈ p'.deps
    · -- a kept reference is passed over; one that was left out is looked for again, which leaves no
      -- more than one more warning of the kind that there is already
      obtain ⟨hmissing, hwarned⟩ := hp.sets.missing_of_mem hdeps' hdeps
      obtain ⟨-, hr, hnew⟩ := runs_of_missing hmissing hentry
      have hp' : g.Agrees base { r with deps := p.deps.union r.deps } p' := by
        rw [hr]
        refine ⟨hp.sets, ?_⟩
        rw [hnew]
        exact hp.warnings.append_left hwarned rfl
      obtain ⟨q', hrest, hq⟩ := ihrest hstack hp'
      exact ⟨q', .collected hself hdeps' hrest, hq⟩
    · obtain ⟨r', hentry', hr⟩ := ihentry hstack.2 hp.fresh
      obtain ⟨q', hrest, hq⟩ := ihrest hstack (hp.join hr hentry'.prefix_warnings.subset)
      exact ⟨q', .expanded hself hdeps' hmem hentry' hrest, hq⟩
  | @failed _ _ entry _ _ _ _ hself hdeps hmem hentry ih =>
    have hdeps' : entry ∉ p'.deps := by
      intro hdeps'
      cases (runs_of_missing (hp.sets.missing_of_mem hdeps' hdeps).1 hentry).1
    obtain ⟨r', hentry', hr⟩ := ih hstack.2 hp.fresh
    exact ⟨_, .failed hself hdeps' hmem hentry', hp.discard hr hentry'.prefix_warnings.subset⟩

theorem exists_ends_kept (h : Ends (g.withPolicy .omit).setup g.catalog sources p outcome q)
    (hp : g.Agrees base p p') :
    ∃ q', Ends (g.withPolicy .leaf).setup g.catalog sources p' outcome q' ∧ g.Agrees base q q' := by
  have hstack : ∀ source, g.Underway [] (.reference source) := fun _ => List.forall_mem_nil _
  induction h using Ends.induction generalizing p' with
  | nil p => exact ⟨p', ends_nil_iff.2 ⟨rfl, rfl⟩, hp⟩
  | next hsource _ ih =>
    obtain ⟨r', hsource', hr⟩ := exists_runs_kept hsource (hstack _) hp
    obtain ⟨q', hrest', hq⟩ := ih hr
    exact ⟨q', ends_cons_iff.2 (.inl ⟨r', hsource', hrest'⟩), hq⟩
  | failed hsource =>
    obtain ⟨q', hsource', hq⟩ := exists_runs_kept hsource (hstack _) hp
    exact ⟨q', ends_cons_iff.2 (.inr ⟨_, rfl, hsource'⟩), hq⟩

theorem gather_agrees (s : Setup) (files : Snapshot) (sources : List String)
    (hp : p.warnings = []) :
    let omitted := gather { s with policy := .omit } files sources p
    let kept := gather { s with policy := .leaf } files sources p
    omitted.1 = kept.1 ∧ (ofSnapshot s files).Agrees p.deps omitted.2 kept.2 := by
  have hbegun : (ofSnapshot s files).Agrees p.deps p p := ⟨.start, hp ▸ .nil⟩
  have hends := ends_gather { s with policy := .omit } files sources p
  obtain ⟨q', hkept, hq⟩ := exists_ends_kept (g := ofSnapshot s files) hends hbegun
  have heq : gather { s with policy := .leaf } files sources p = (_, q') := gather_eq_iff.2 hkept
  rw [heq]
  exact ⟨rfl, hq⟩

/-- Whether missing references are left out or kept, a crawl has the same outcome, adds the same
references with a file, in the same order, and warns of the same recursive includes. Where they are
kept there may be fewer warnings of missing references, but each reference that there is one of has
one where they are left out, and the other way round. -/
theorem kept_agrees_with_omitted (s : Setup) (files : Snapshot) (sources : List String)
    (p : Progress) :
    let omitted := gather { s with policy := .omit } files sources p
    let kept := gather { s with policy := .leaf } files sources p
    omitted.1 = kept.1 ∧
    (∃ added, kept.2.deps = p.deps ++ added ∧
      omitted.2.deps = p.deps ++ added.filter (ofSnapshot s files).isFound ∧
      ∀ a ∈ added, a ∉ p.deps) ∧
    ∃ new new', omitted.2.warnings = p.warnings ++ new ∧ kept.2.warnings = p.warnings ++ new' ∧
      new.filter Fault.isRecursive = new'.filter Fault.isRecursive ∧
      (new'.filter Fault.isMissing).Sublist (new.filter Fault.isMissing) ∧
      ∀ path searched, .missing path searched ∈ new ↔ .missing path searched ∈ new' := by
  intro omitted kept
  -- the warnings that are stored already are of no account
  let start : Progress := { p with warnings := [] }
  have hstart : p = start.behind p.warnings := by simp [start, Progress.behind]
  have hbehind : ∀ policy, gather { s with policy } files sources p =
      ((gather { s with policy } files sources start).1,
        (gather { s with policy } files sources start).2.behind p.warnings) := by
    intro policy
    rw [← gather_behind, ← hstart]
  obtain ⟨houtcome, hsets, hwarnings⟩ := gather_agrees s files sources (p := start) rfl
  obtain ⟨added, hkept, homitted, hadded⟩ := hsets.exists_added
  unfold omitted kept
  rw [hbehind, hbehind]
  refine ⟨houtcome, ⟨added, hkept, homitted, hadded⟩, _, _, rfl, rfl, hwarnings.recursive, ?_, ?_⟩
  · exact hwarnings.sublist.filter Fault.isMissing
  · intro path searched
    exact ⟨fun hm => hwarnings.subset hm, fun hm => hwarnings.sublist.subset hm⟩

end IncludeGraph

end ShaderIncludes
