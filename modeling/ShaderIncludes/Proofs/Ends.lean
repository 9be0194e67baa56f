import ShaderIncludes.Crawl

/-!
# Crawls without a limit of depth

A crawl that has come to an end comes to the same end with all more depth it is allowed, so `Ends`
need not name a depth. It makes sense of a catalog with files without number too, on which a crawl
may have no end; for finitely many files it is what `gather` gives (`gather_eq_iff`).
-/
namespace ShaderIncludes.Crawl

variable {s : Setup} {c : Catalog}

theorem follow_congr {visit visit' : String → Progress → Ending × Progress} {source : String}
    {stack : List String} (hv : ∀ a p, (visit a p).1 ≠ .tooDeep → visit' a p = visit a p)
    (entries : List String) (p : Progress)
    (h : (follow visit source stack entries p).1 ≠ .tooDeep) :
    follow visit' source stack entries p = follow visit source stack entries p := by
  induction entries generalizing p with
  | nil => rfl
  | cons entry rest ih =>
    unfold follow at h ⊢
    split
    · rename_i hself
      exact ih _ (by simpa only [if_pos hself] using h)
    rename_i hself
    split
    · rename_i hdeps
      exact ih _ (by simpa only [if_neg hself, if_pos hdeps] using h)
    rename_i hdeps
    split
    · rename_i hstack
      exact ih _ (by simpa only [if_neg hself, if_neg hdeps, if_pos hstack] using h)
    rename_i hstack
    rw [if_neg hself, if_neg hdeps, if_neg hstack] at h
    have heq := hv entry { p with deps := [] }
    rcases hq : visit entry { p with deps := [] } with ⟨ending, q⟩
    rw [hq] at h heq
    cases ending with
    | done =>
      rw [heq Ending.noConfusion]
      exact ih _ h
    | failed fault => rw [heq Ending.noConfusion]
    | tooDeep => exact absurd rfl h

theorem expand_mono {depth more : Nat} (hle : depth ≤ more) (stack : List String)
    (source : String) (p : Progress) (h : (expand s c depth stack source p).1 ≠ .tooDeep) :
    expand s c more stack source p = expand s c depth stack source p := by
  induction depth generalizing more stack source p with
  | zero => exact absurd rfl h
  | succ depth ih =>
    obtain ⟨more, rfl⟩ := Nat.exists_eq_add_of_le' hle
    have hle' : depth ≤ more + depth := Nat.le_add_left depth more
    unfold expand at h ⊢
    split
    · rfl
    · rfl
    · rename_i hf
      rw [hf] at h
      dsimp only at h
      split
      · rfl
      · rfl
      · rename_i hi
        rw [hi] at h
        exact follow_congr (fun a p ha => ih hle' _ a p ha) _ _ h

theorem visitAll_congr {visit visit' : String → Progress → Ending × Progress}
    (hv : ∀ a p, (visit a p).1 ≠ .tooDeep → visit' a p = visit a p) (sources : List String)
    (p : Progress) (h : (visitAll visit sources p).1 ≠ .tooDeep) :
    visitAll visit' sources p = visitAll visit sources p := by
  induction sources generalizing p with
  | nil => rfl
  | cons source rest ih =>
    unfold visitAll at h ⊢
    have heq := hv source p
    rcases hq : visit source p with ⟨ending, q⟩
    rw [hq] at h heq
    cases ending with
    | done =>
      rw [heq Ending.noConfusion]
      exact ih q h
    | failed fault => rw [heq Ending.noConfusion]
    | tooDeep => exact absurd rfl h

theorem gatherWithin_mono {depth more : Nat} (hle : depth ≤ more) (sources : List String)
    (p : Progress) (h : (gatherWithin depth s c sources p).1 ≠ .tooDeep) :
    gatherWithin more s c sources p = gatherWithin depth s c sources p :=
  visitAll_congr (fun a p ha => expand_mono hle [] a p ha) sources p h

/-- The ending of a crawl that was allowed to go as deep as it had to. -/
def Ending.ofOutcome : Except Fault Unit → Ending
  | .ok () => .done
  | .error fault => .failed fault

theorem Ending.ofOutcome_ne_tooDeep (outcome : Except Fault Unit) :
    Ending.ofOutcome outcome ≠ .tooDeep := by
  cases outcome <;> exact Ending.noConfusion

theorem Ending.eq_ok_of_done {outcome : Except Fault Unit} (h : Ending.done = .ofOutcome outcome) :
    outcome = .ok () := by
  rcases outcome with fault | ⟨⟩
  · cases h
  · rfl

theorem Ending.eq_error_of_failed {outcome : Except Fault Unit} {fault : Fault}
    (h : Ending.failed fault = .ofOutcome outcome) : outcome = .error fault := by
  rcases outcome with fault' | ⟨⟩
  · cases h
    rfl
  · cases h

theorem Ending.outcome_eq_iff {ending : Ending} {outcome : Except Fault Unit}
    (h : ending ≠ .tooDeep) : ending.outcome h = outcome ↔ ending = .ofOutcome outcome := by
  cases ending with
  | tooDeep => exact absurd rfl h
  | done => rcases outcome with _ | _ <;> simp [Ending.outcome, Ending.ofOutcome]
  | failed fault => rcases outcome with _ | _ <;> simp [Ending.outcome, Ending.ofOutcome]

/-- The crawl comes to an end, with this outcome and this progress. -/
def Ends (s : Setup) (c : Catalog) (sources : List String) (p : Progress)
    (outcome : Except Fault Unit) (q : Progress) : Prop :=
  ∃ depth, gatherWithin depth s c sources p = (.ofOutcome outcome, q)

theorem gather_eq_iff {files : Snapshot} {sources : List String} {p q : Progress}
    {outcome : Except Fault Unit} :
    gather s files sources p = (outcome, q) ↔ Ends s files.catalog sources p outcome q := by
  have hbound := gatherWithin_ne_tooDeep s files sources p
  have heq : gather s files sources p = (outcome, q) ↔
      gatherWithin (depthBound files.texts) s files.catalog sources p = (.ofOutcome outcome, q) := by
    rw [Prod.ext_iff, Prod.ext_iff, ← Ending.outcome_eq_iff hbound]
    rfl
  rw [heq]
  constructor
  · intro h
    exact ⟨_, h⟩
  · rintro ⟨depth, h⟩
    have hdepth : (gatherWithin depth s files.catalog sources p).1 ≠ .tooDeep := by
      rw [h]
      exact Ending.ofOutcome_ne_tooDeep outcome
    rw [← gatherWithin_mono (Nat.le_max_left _ depth) sources p hbound,
      gatherWithin_mono (Nat.le_max_right _ depth) sources p hdepth, h]

theorem ends_gather (s : Setup) (files : Snapshot) (sources : List String) (p : Progress) :
    Ends s files.catalog sources p (gather s files sources p).1 (gather s files sources p).2 :=
  gather_eq_iff.1 rfl

end ShaderIncludes.Crawl
