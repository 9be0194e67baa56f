import ShaderIncludes.Proofs.Ends
import ShaderIncludes.Proofs.IncludeGraph

/-!
# Crawls by rules

What a crawl may do, one rule for each thing that can be the case at a reference or at an entry of an
include list. No depth occurs: a derivation is as high as it has to be. Main statement: the rules
derive what the recursion comes to at some depth, and nothing else (`runs_iff`), so that an
induction on derivations is an induction on crawls. Files may be without number and may change.
-/
namespace ShaderIncludes.Crawl

/-- What there is to do within a crawl. -/
inductive Task where
  /-- Expand the reference. -/
  | reference (source : String)
  /-- Go through these entries, with which the include list of `source` ends. -/
  | entries (source : String) (rest : List String)
  deriving DecidableEq, Repr

/-- What there is at a reference, and the progress once that is known. -/
def look (s : Setup) (c : Catalog) (source : String) (p : Progress) : Node × Progress :=
  match fetch s c source p with
  | (.error fault, p) => (.broken fault, p)
  | (.ok none, p) => (.absent, p)
  | (.ok (some text), p) =>
    match Includes.ofLines source text with
    | .error fault => (.broken fault, p)
    | .ok none => (.leaf, p)
    | .ok (some entries) => (.list entries, p)

/-- What the lines of a reference make of it. -/
def nodeOf (source : String) : Except Fault (Option (List String)) → Node
  | .error fault => .broken fault
  | .ok none => .absent
  | .ok (some text) =>
    match Includes.ofLines source text with
    | .error fault => .broken fault
    | .ok none => .leaf
    | .ok (some entries) => .list entries

/-- With the references of `stack` under expansion, the task takes the one progress to the other and
has this outcome. -/
inductive Runs (s : Setup) (c : Catalog) :
    (stack : List String) → Task → Progress → Except Fault Unit → Progress → Prop where
  | broken {stack source p q fault} (hlook : look s c source p = (.broken fault, q)) :
      Runs s c stack (.reference source) p (.error fault) q
  | absent {stack source p q} (hlook : look s c source p = (.absent, q)) :
      Runs s c stack (.reference source) p (.ok ()) q
  | leaf {stack source p q} (hlook : look s c source p = (.leaf, q)) :
      Runs s c stack (.reference source) p (.ok ()) (q.insert source)
  | list {stack source p q r entries outcome} (hlook : look s c source p = (.list entries, q))
      (hlist : Runs s c (source :: stack) (.entries source entries) q outcome r) :
      Runs s c stack (.reference source) p outcome r
  | nil {stack source p} : Runs s c stack (.entries source []) p (.ok ()) p
  | self {stack source rest p q outcome}
      (hrest : Runs s c stack (.entries source rest) (p.insert source) outcome q) :
      Runs s c stack (.entries source (Includes.selfEntry :: rest)) p outcome q
  | collected {stack source entry rest p q outcome} (hself : entry ≠ Includes.selfEntry)
      (hdeps : entry ∈ p.deps) (hrest : Runs s c stack (.entries source rest) p outcome q) :
      Runs s c stack (.entries source (entry :: rest)) p outcome q
  | recursive {stack source entry rest p q outcome} (hself : entry ≠ Includes.selfEntry)
      (hdeps : entry ∉ p.deps) (hstack : entry ∈ stack)
      (hrest : Runs s c stack (.entries source rest) (p.warn (.recursive entry source)) outcome q) :
      Runs s c stack (.entries source (entry :: rest)) p outcome q
  | expanded {stack source entry rest p q r outcome} (hself : entry ≠ Includes.selfEntry)
      (hdeps : entry ∉ p.deps) (hstack : entry ∉ stack)
      (hentry : Runs s c stack (.reference entry) { p with deps := [] } (.ok ()) r)
      (hrest : Runs s c stack (.entries source rest) { r with deps := p.deps.union r.deps }
        outcome q) :
      Runs s c stack (.entries source (entry :: rest)) p outcome q
  | failed {stack source entry rest p r fault} (hself : entry ≠ Includes.selfEntry)
      (hdeps : entry ∉ p.deps) (hstack : entry ∉ stack)
      (hentry : Runs s c stack (.reference entry) { p with deps := [] } (.error fault) r) :
      Runs s c stack (.entries source (entry :: rest)) p (.error fault) { r with deps := p.deps }

variable {s : Setup} {c : Catalog} {stack entries sources : List String} {source : String}
  {task : Task} {outcome : Except Fault Unit} {p q : Progress}

theorem look_eq_fetch (source : String) (p : Progress) :
    look s c source p = (nodeOf source (fetch s c source p).1, (fetch s c source p).2) := by
  unfold look nodeOf
  rcases fetch s c source p with ⟨fault | _ | text, q⟩
  · rfl
  · rfl
  · rcases hi : Includes.ofLines source text with fault | _ | entries <;> simp [hi]

theorem expand_eq_look (depth : Nat) (stack : List String) (source : String) (p : Progress) :
    expand s c (depth + 1) stack source p =
      match look s c source p with
      | (.broken fault, q) => (.failed fault, q)
      | (.absent, q) => (.done, q)
      | (.leaf, q) => (.done, q.insert source)
      | (.list entries, q) =>
        follow (expand s c depth (source :: stack)) source (source :: stack) entries q := by
  unfold expand look
  rcases fetch s c source p with ⟨fault | _ | text, q⟩
  · rfl
  · rfl
  · rcases hi : Includes.ofLines source text with fault | _ | entries <;> simp [hi]

/-! ## The rules and the recursion -/

/-- The task, with at most `depth` more references under expansion at once. -/
def Task.within (s : Setup) (c : Catalog) (depth : Nat) (stack : List String) :
    Task → Progress → Ending × Progress
  | .reference source, p => expand s c depth stack source p
  | .entries source rest, p => follow (expand s c depth stack) source stack rest p

theorem Task.within_mono {depth more : Nat} (hle : depth ≤ more)
    (h : (task.within s c depth stack p).1 ≠ .tooDeep) :
    task.within s c more stack p = task.within s c depth stack p := by
  cases task with
  | reference source => exact expand_mono hle stack source p h
  | entries source rest =>
    exact follow_congr (fun a p ha => expand_mono hle stack a p ha) rest p h

theorem Task.within_of_le {depth more : Nat} (hle : depth ≤ more)
    (h : task.within s c depth stack p = (.ofOutcome outcome, q)) :
    task.within s c more stack p = (.ofOutcome outcome, q) := by
  have hne : (task.within s c depth stack p).1 ≠ .tooDeep := by
    rw [h]
    exact Ending.ofOutcome_ne_tooDeep outcome
  rw [within_mono hle hne, h]

theorem runs_of_follow {depth : Nat}
    (hv : ∀ entry outcome p q, expand s c depth stack entry p = (.ofOutcome outcome, q) →
      Runs s c stack (.reference entry) p outcome q)
    (h : follow (expand s c depth stack) source stack entries p = (.ofOutcome outcome, q)) :
    Runs s c stack (.entries source entries) p outcome q := by
  induction entries generalizing p with
  | nil =>
    obtain ⟨hdone, rfl⟩ := Prod.mk.inj h
    rw [Ending.eq_ok_of_done hdone]
    exact .nil
  | cons entry rest ih =>
    unfold follow at h
    by_cases hself : entry = Includes.selfEntry
    · rw [if_pos hself] at h
      exact hself ▸ .self (ih h)
    rw [if_neg hself] at h
    by_cases hdeps : entry ∈ p.deps
    · rw [if_pos hdeps] at h
      exact .collected hself hdeps (ih h)
    rw [if_neg hdeps] at h
    by_cases hstack : entry ∈ stack
    · rw [if_pos hstack] at h
      exact .recursive hself hdeps hstack (ih h)
    rw [if_neg hstack] at h
    rcases hr : expand s c depth stack entry { p with deps := [] } with ⟨ending, r⟩
    rw [hr] at h
    cases ending with
    | done => exact .expanded hself hdeps hstack (hv entry (.ok ()) _ r hr) (ih h)
    | failed fault =>
      obtain ⟨hfailed, rfl⟩ := Prod.mk.inj h
      rw [Ending.eq_error_of_failed hfailed]
      exact .failed hself hdeps hstack (hv entry (.error fault) _ r hr)
    | tooDeep => exact absurd (Prod.mk.inj h).1.symm (Ending.ofOutcome_ne_tooDeep outcome)

theorem runs_of_expand {depth : Nat}
    (h : expand s c depth stack source p = (.ofOutcome outcome, q)) :
    Runs s c stack (.reference source) p outcome q := by
  induction depth generalizing stack source outcome p q with
  | zero => exact absurd (Prod.mk.inj h).1.symm (Ending.ofOutcome_ne_tooDeep outcome)
  | succ depth ih =>
    rw [expand_eq_look] at h
    rcases hlook : look s c source p with ⟨fault | _ | _ | entries, r⟩
    · rw [hlook] at h
      obtain ⟨hfailed, rfl⟩ := Prod.mk.inj h
      rw [Ending.eq_error_of_failed hfailed]
      exact .broken hlook
    · rw [hlook] at h
      obtain ⟨hdone, rfl⟩ := Prod.mk.inj h
      rw [Ending.eq_ok_of_done hdone]
      exact .absent hlook
    · rw [hlook] at h
      obtain ⟨hdone, rfl⟩ := Prod.mk.inj h
      rw [Ending.eq_ok_of_done hdone]
      exact .leaf hlook
    · rw [hlook] at h
      exact .list hlook (runs_of_follow (fun _ _ _ _ hv => ih hv) h)

theorem Runs.exists_depth (h : Runs s c stack task p outcome q) :
    ∃ depth, task.within s c depth stack p = (.ofOutcome outcome, q) := by
  induction h with
  | broken hlook => exact ⟨1, by rw [Task.within, expand_eq_look, hlook]; rfl⟩
  | absent hlook => exact ⟨1, by rw [Task.within, expand_eq_look, hlook]; rfl⟩
  | leaf hlook => exact ⟨1, by rw [Task.within, expand_eq_look, hlook]; rfl⟩
  | list hlook _ ih =>
    obtain ⟨depth, hd⟩ := ih
    exact ⟨depth + 1, by rw [Task.within, expand_eq_look, hlook]; exact hd⟩
  | nil => exact ⟨0, rfl⟩
  | self _ ih =>
    obtain ⟨depth, hd⟩ := ih
    exact ⟨depth, by rw [Task.within, follow, if_pos rfl]; exact hd⟩
  | collected hself hdeps _ ih =>
    obtain ⟨depth, hd⟩ := ih
    exact ⟨depth, by rw [Task.within, follow, if_neg hself, if_pos hdeps]; exact hd⟩
  | recursive hself hdeps hstack _ ih =>
    obtain ⟨depth, hd⟩ := ih
    exact ⟨depth, by rw [Task.within, follow, if_neg hself, if_neg hdeps, if_pos hstack]; exact hd⟩
  | expanded hself hdeps hstack _ _ ihentry ihrest =>
    -- the depths of the entry and of the rest differ; the larger does for both
    obtain ⟨less, hentry⟩ := ihentry
    obtain ⟨more, hrest⟩ := ihrest
    have hentry' := Task.within_of_le (Nat.le_max_left less more) hentry
    have hrest' := Task.within_of_le (Nat.le_max_right less more) hrest
    refine ⟨max less more, ?_⟩
    rw [Task.within] at hentry'
    rw [Task.within, follow, if_neg hself, if_neg hdeps, if_neg hstack, hentry']
    exact hrest'
  | failed hself hdeps hstack _ ih =>
    obtain ⟨depth, hd⟩ := ih
    rw [Task.within] at hd
    refine ⟨depth, ?_⟩
    rw [Task.within, follow, if_neg hself, if_neg hdeps, if_neg hstack, hd]
    rfl

/-- The rules derive what the recursion comes to, given depth enough, and nothing else. -/
theorem runs_iff : Runs s c stack task p outcome q ↔
    ∃ depth, task.within s c depth stack p = (.ofOutcome outcome, q) := by
  refine ⟨Runs.exists_depth, ?_⟩
  rintro ⟨depth, h⟩
  cases task with
  | reference source => exact runs_of_expand h
  | entries source rest => exact runs_of_follow (fun _ _ _ _ hv => runs_of_expand hv) h

theorem ends_nil_iff : Ends s c [] p outcome q ↔ outcome = .ok () ∧ q = p := by
  constructor
  · rintro ⟨depth, h⟩
    obtain ⟨hdone, rfl⟩ := Prod.mk.inj h
    exact ⟨Ending.eq_ok_of_done hdone, rfl⟩
  · rintro ⟨rfl, rfl⟩
    exact ⟨0, rfl⟩

/-- A crawl of some sources is one of the first and, if that succeeds, one of the others. -/
theorem ends_cons_iff : Ends s c (source :: sources) p outcome q ↔
    (∃ r, Runs s c [] (.reference source) p (.ok ()) r ∧ Ends s c sources r outcome q) ∨
      ∃ fault, outcome = .error fault ∧ Runs s c [] (.reference source) p (.error fault) q := by
  constructor
  · rintro ⟨depth, h⟩
    unfold gatherWithin visitAll at h
    rcases hr : expand s c depth [] source p with ⟨ending, r⟩
    rw [hr] at h
    cases ending with
    | done =>
      have hsource : Runs s c [] (.reference source) p (.ok ()) r := runs_of_expand hr
      exact .inl ⟨r, hsource, depth, h⟩
    | failed fault =>
      have hsource : Runs s c [] (.reference source) p (.error fault) r := runs_of_expand hr
      obtain ⟨hfailed, rfl⟩ := Prod.mk.inj h
      exact .inr ⟨fault, Ending.eq_error_of_failed hfailed, hsource⟩
    | tooDeep => exact absurd (Prod.mk.inj h).1.symm (Ending.ofOutcome_ne_tooDeep outcome)
  · rintro (⟨r, hsource, hrest⟩ | ⟨fault, rfl, hsource⟩)
    · obtain ⟨less, hl⟩ := hsource.exists_depth
      obtain ⟨more, hm⟩ := hrest
      have hl' := Task.within_of_le (Nat.le_max_left less more) hl
      have hm' : gatherWithin (max less more) s c sources r = (.ofOutcome outcome, q) := by
        rw [gatherWithin_mono (Nat.le_max_right less more), hm]
        rw [hm]
        exact Ending.ofOutcome_ne_tooDeep outcome
      rw [Task.within] at hl'
      refine ⟨max less more, ?_⟩
      rw [gatherWithin, visitAll, hl']
      exact hm'
    · obtain ⟨depth, hd⟩ := hsource.exists_depth
      rw [Task.within] at hd
      refine ⟨depth, ?_⟩
      rw [gatherWithin, visitAll, hd]
      rfl

/-- An induction on the sources, with the crawl of the first one known. -/
@[elab_as_elim]
theorem Ends.induction
    {motive : ∀ sources p outcome q, Ends s c sources p outcome q → Prop}
    (nil : ∀ p, motive [] p (.ok ()) p (ends_nil_iff.2 ⟨rfl, rfl⟩))
    (next : ∀ {source sources p r outcome q}
      (hsource : Runs s c [] (.reference source) p (.ok ()) r)
      (hrest : Ends s c sources r outcome q), motive sources r outcome q hrest →
      motive (source :: sources) p outcome q (ends_cons_iff.2 (.inl ⟨r, hsource, hrest⟩)))
    (failed : ∀ {source sources p fault q}
      (hsource : Runs s c [] (.reference source) p (.error fault) q),
      motive (source :: sources) p (.error fault) q
        (ends_cons_iff.2 (.inr ⟨fault, rfl, hsource⟩)))
    {sources p outcome q} (h : Ends s c sources p outcome q) : motive sources p outcome q h := by
  induction sources generalizing p with
  | nil =>
    obtain ⟨rfl, rfl⟩ := ends_nil_iff.1 h
    exact nil q
  | cons source rest ih =>
    rcases ends_cons_iff.1 h with ⟨r, hsource, hrest⟩ | ⟨fault, rfl, hsource⟩
    · exact next hsource hrest (ih hrest)
    · exact failed hsource

end ShaderIncludes.Crawl
