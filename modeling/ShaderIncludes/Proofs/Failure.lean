import ShaderIncludes.Proofs.Collected

/-!
# When a crawl fails

Entries are passed over on two grounds, and neither hides a fault: from nothing, a crawl fails
exactly if its sources lead to a reference that cannot be crawled, and its fault is that of such a
reference (`fails_iff_reaches`). What the sources do not lead to is of no account.
-/
namespace ShaderIncludes

open Crawl

/-- What keeps a reference from being crawled, from the files alone. -/
inductive IncludeGraph.Fails (g : IncludeGraph) (a : String) : Fault → Prop where
  | missing (hplace : g.place? a = none) (hpolicy : g.setup.policy = .abort) :
      Fails g a (.missing a ((Reference.ofString a).folders g.setup.roots g.setup.base))
  | unreadable {place cause} (hplace : g.place? a = some place)
      (hlines : g.lines place = .error cause) : Fails g a (.unreadable place cause)
  | malformed {place text line} (hplace : g.place? a = some place)
      (hlines : g.lines place = .ok text)
      (hparse : Directive.parse a text = .error (.malformed a line)) : Fails g a (.malformed a line)

/-- The reference is part of what there is to do. -/
def Crawl.Task.Reaches (g : IncludeGraph) : Task → String → Prop
  | .reference source, a => g.Reaches source a
  | .entries _ rest, a => ∃ entry ∈ rest, entry ≠ Includes.selfEntry ∧ g.Reaches entry a

theorem Crawl.Task.Reaches.cons {g : IncludeGraph} {source a : String} {rest : List String}
    (entry : String) (h : Task.Reaches g (.entries source rest) a) :
    Task.Reaches g (.entries source (entry :: rest)) a := by
  obtain ⟨other, ho, hself, hreach⟩ := h
  exact ⟨other, List.mem_cons_of_mem entry ho, hself, hreach⟩

namespace IncludeGraph

variable {g : IncludeGraph} {stack sources : List String} {a source : String} {fault : Fault}
  {p q : Progress}

theorem node_eq_broken_iff : g.node a = .broken fault ↔ g.Fails a fault := by
  constructor
  · intro h
    unfold node at h
    split at h
    · rename_i hplace
      split at h
      · rename_i hpolicy
        cases h
        unfold missing
        simp only [Reference.toString_ofString]
        exact .missing hplace hpolicy
      · cases h
      · cases h
    · rename_i place hplace
      split at h
      · rename_i cause hlines
        cases h
        exact .unreadable hplace hlines
      · rename_i text hlines
        split at h
        · rename_i hlist
          cases h
          have hparse := Includes.ofLines_eq_error.1 hlist
          obtain ⟨line, rfl⟩ := Directive.exists_line_of_parse hparse
          exact .malformed hplace hlines hparse
        · cases h
        · cases h
  · rintro (⟨hplace, hpolicy⟩ | ⟨hplace, hlines⟩ | ⟨hplace, hlines, hparse⟩)
    · simp [node, hplace, hpolicy, missing]
    · simp [node, hplace, hlines]
    · simp [node, hplace, hlines, Includes.ofLines_eq_error.2 hparse]

/-- A fault comes from a reference that was due. -/
theorem exists_fails_of_runs {task : Task} {outcome : Except Fault Unit}
    (h : Runs g.setup g.catalog stack task p outcome q) (houtcome : outcome = .error fault) :
    ∃ a, task.Reaches g a ∧ g.Fails a fault := by
  induction h with
  | broken hlook =>
    cases houtcome
    exact ⟨_, .refl, node_eq_broken_iff.1 (node_of_look hlook)⟩
  | absent | leaf | nil => cases houtcome
  | list hlook _ ih =>
    obtain ⟨a, ⟨entry, he, hself, hreach⟩, hfails⟩ := ih houtcome
    exact ⟨a, .head ((edge_iff_mem (node_of_look hlook)).2 ⟨he, hself⟩) hreach, hfails⟩
  | self _ ih | collected _ _ _ ih | recursive _ _ _ _ ih | expanded _ _ _ _ _ _ ih =>
    obtain ⟨a, hreach, hfails⟩ := ih houtcome
    exact ⟨a, hreach.cons _, hfails⟩
  | failed hself _ _ _ ih =>
    obtain ⟨a, hreach, hfails⟩ := ih houtcome
    exact ⟨a, ⟨_, List.mem_cons_self, hself, hreach⟩, hfails⟩

theorem exists_fails_of_ends (h : Ends g.setup g.catalog sources p (.error fault) q) :
    ∃ source ∈ sources, ∃ a, g.Reaches source a ∧ g.Fails a fault := by
  induction sources generalizing p with
  | nil => cases (ends_nil_iff.1 h).1
  | cons source rest ih =>
    rcases ends_cons_iff.1 h with ⟨r, -, hrest⟩ | ⟨fault', hfault, hsource⟩
    · obtain ⟨other, ho, ha⟩ := ih hrest
      exact ⟨other, List.mem_cons_of_mem source ho, ha⟩
    · obtain ⟨a, hreach, hfails⟩ := exists_fails_of_runs hsource hfault.symm
      exact ⟨source, List.mem_cons_self, a, hreach, hfails⟩

theorem not_fails_of_ends (hp : p.deps = [])
    (h : Ends g.setup g.catalog sources p (.ok ()) q) (hs : source ∈ sources)
    (ha : g.Reaches source a) (fault : Fault) : ¬ g.Fails a fault := by
  intro hfails
  obtain ⟨depth, refs, hr, -⟩ := exists_plain_of_ends hp h
  obtain ⟨part, hpart⟩ := exists_of_concat hr hs
  obtain ⟨-, hbroken⟩ := finite_of_plain List.not_mem_nil hpart
  exact hbroken a (avoids_nil.2 ha) fault (node_eq_broken_iff.2 hfails)

/-- From nothing, a crawl of finitely many files fails if and only if its sources lead to a reference
that fails, and with the fault of one that they lead to. -/
theorem fails_iff_reaches (s : Setup) (files : Snapshot) (sources : List String)
    (hp : p.deps = []) :
    ((∃ fault, (gather s files sources p).1 = .error fault) ↔
      ∃ source ∈ sources, ∃ a fault,
        (ofSnapshot s files).Reaches source a ∧ (ofSnapshot s files).Fails a fault) ∧
    ∀ fault, (gather s files sources p).1 = .error fault →
      ∃ source ∈ sources, ∃ a,
        (ofSnapshot s files).Reaches source a ∧ (ofSnapshot s files).Fails a fault := by
  have hends : Ends s files.catalog sources p (gather s files sources p).1
      (gather s files sources p).2 := gather_eq_iff.1 rfl
  have herror : ∀ fault, (gather s files sources p).1 = .error fault →
      ∃ source ∈ sources, ∃ a,
        (ofSnapshot s files).Reaches source a ∧ (ofSnapshot s files).Fails a fault := by
    intro fault hfault
    rw [hfault] at hends
    exact exists_fails_of_ends (g := ofSnapshot s files) hends
  refine ⟨⟨?_, ?_⟩, herror⟩
  · rintro ⟨fault, hfault⟩
    obtain ⟨source, hs, a, hreach, hfails⟩ := herror fault hfault
    exact ⟨source, hs, a, fault, hreach, hfails⟩
  · rintro ⟨source, hs, a, fault, hreach, hfails⟩
    rcases hout : (gather s files sources p).1 with fault' | ⟨⟩
    · exact ⟨fault', rfl⟩
    · rw [hout] at hends
      exact absurd hfails (not_fails_of_ends (g := ofSnapshot s files) hp hends hs hreach fault)

def brittleFiles : Snapshot :=
  Store.Memory.snapshot
    { files :=
        [("Assets/A", listing ["B", "self", "C"]), ("Assets/B", listing ["A", "D", "self"]),
         ("Assets/C", listing ["D", "B", "Gone"]), ("Assets/D.orlsource", ["float d;"]),
         ("Assets/E", ["%"])] }

/-- Two files that include each other, one of them a third one that includes a missing file, and a
file that no other includes and that is not well formed. -/
def brittle : IncludeGraph :=
  .ofSnapshot ⟨⟨"Packages/gen/Runtime/Sources", "/Packages/shaders/Runtime"⟩, "Assets", .abort⟩
    brittleFiles

theorem fails_iff_reaches_brittle :
    (gather brittle.setup brittleFiles ["D", "A"] {}).1 = .error (.missing "Gone" ["Assets"]) ∧
      ∃ source ∈ ["D", "A"], ∃ a,
        brittle.Reaches source a ∧ brittle.Fails a (.missing "Gone" ["Assets"]) :=
  have hfault : (gather brittle.setup brittleFiles ["D", "A"] {}).1 =
      .error (.missing "Gone" ["Assets"]) := by decide
  ⟨hfault, (fails_iff_reaches brittle.setup brittleFiles ["D", "A"] rfl).2 _ hfault⟩

end IncludeGraph

end ShaderIncludes
