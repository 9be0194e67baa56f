import Mathlib.Data.Finset.Basic
import ShaderIncludes.Proofs.Rules

/-!
# One set for all that is under expansion

The crawl with one set of the references under expansion, which all expansions of all sources share:
a reference with an include list is put into it before its entries are gone through and taken out
after the last of them. Nothing takes it out after a fault. Main statement: this makes no difference
to a stack that is handed down (`gatherShared_eq`), since an expansion that succeeds leaves the set
as it was, and one that fails ends the crawl.
-/
namespace ShaderIncludes.Crawl

def followShared (visit : String → Finset String → Progress → Ending × Finset String × Progress)
    (source : String) :
    List String → Finset String → Progress → Ending × Finset String × Progress
  | [], active, p => (.done, active, p)
  | entry :: rest, active, p =>
    if entry = Includes.selfEntry then followShared visit source rest active (p.insert source)
    else if entry ∈ p.deps then followShared visit source rest active p
    else if entry ∈ active then
      followShared visit source rest active (p.warn (.recursive entry source))
    else
      match visit entry active { p with deps := [] } with
      | (.done, active, q) =>
        followShared visit source rest active { q with deps := p.deps.union q.deps }
      | (ending, active, q) => (ending, active, { q with deps := p.deps })

def expandShared (s : Setup) (c : Catalog) : (depth : Nat) → String → Finset String → Progress →
    Ending × Finset String × Progress
  | 0, _, active, p => (.tooDeep, active, p)
  | depth + 1, source, active, p =>
    match look s c source p with
    | (.broken fault, q) => (.failed fault, active, q)
    | (.absent, q) => (.done, active, q)
    | (.leaf, q) => (.done, active, q.insert source)
    | (.list entries, q) =>
      match followShared (expandShared s c depth) source entries (insert source active) q with
      | (.done, active, q) => (.done, active.erase source, q)
      | (ending, active, q) => (ending, active, q)

def visitAllShared (visit : String → Finset String → Progress → Ending × Finset String × Progress) :
    List String → Finset String → Progress → Ending × Finset String × Progress
  | [], active, p => (.done, active, p)
  | source :: rest, active, p =>
    match visit source active p with
    | (.done, active, q) => visitAllShared visit rest active q
    | (ending, active, q) => (ending, active, q)

/-- As `gatherWithin`, with one set for all that is under expansion, empty at first. -/
def gatherShared (depth : Nat) (s : Setup) (c : Catalog) (sources : List String) (p : Progress) :
    Ending × Progress :=
  let (ending, _, q) := visitAllShared (expandShared s c depth) sources ∅ p
  (ending, q)

/-- The two results agree, and after a success the set is as it was. -/
inductive Restores (active : Finset String) :
    Ending × Progress → Ending × Finset String × Progress → Prop where
  | done {p} : Restores active (.done, p) (.done, active, p)
  | failed {fault left p} : Restores active (.failed fault, p) (.failed fault, left, p)
  | tooDeep {left p} : Restores active (.tooDeep, p) (.tooDeep, left, p)

variable {s : Setup} {c : Catalog} {depth : Nat} {source : String} {stack entries : List String}
  {active : Finset String} {visit : String → Progress → Ending × Progress}
  {visitShared : String → Finset String → Progress → Ending × Finset String × Progress}

theorem followShared_restores (hactive : ∀ a, a ∈ active ↔ a ∈ stack)
    (hvisit : ∀ a, a ∉ stack → ∀ p, Restores active (visit a p) (visitShared a active p))
    (p : Progress) :
    Restores active (follow visit source stack entries p)
      (followShared visitShared source entries active p) := by
  induction entries generalizing p with
  | nil => exact .done
  | cons entry rest ih =>
    unfold follow followShared
    by_cases hself : entry = Includes.selfEntry
    · rw [if_pos hself, if_pos hself]
      exact ih _
    rw [if_neg hself, if_neg hself]
    by_cases hdeps : entry ∈ p.deps
    · rw [if_pos hdeps, if_pos hdeps]
      exact ih _
    rw [if_neg hdeps, if_neg hdeps]
    by_cases hstack : entry ∈ stack
    · rw [if_pos hstack, if_pos ((hactive entry).2 hstack)]
      exact ih _
    have hnot : entry ∉ active := fun ha => hstack ((hactive entry).1 ha)
    rw [if_neg hstack, if_neg hnot]
    have hentry := hvisit entry hstack { p with deps := [] }
    generalize visit entry { p with deps := [] } = result,
      visitShared entry active { p with deps := [] } = shared at hentry ⊢
    cases hentry with
    | done => exact ih _
    | failed => exact .failed
    | tooDeep => exact .tooDeep

theorem expandShared_restores (hactive : ∀ a, a ∈ active ↔ a ∈ stack) (hs : source ∉ stack)
    (p : Progress) :
    Restores active (expand s c depth stack source p) (expandShared s c depth source active p) := by
  induction depth generalizing stack source active p with
  | zero => exact .tooDeep
  | succ depth ih =>
    rw [expand_eq_look]
    unfold expandShared
    rcases look s c source p with ⟨fault | _ | _ | entries, q⟩
    · exact .failed
    · exact .done
    · exact .done
    have hinsert : ∀ a, a ∈ insert source active ↔ a ∈ source :: stack := by
      intro a
      rw [Finset.mem_insert, List.mem_cons, hactive]
    have hlist : Restores (insert source active)
        (follow (expand s c depth (source :: stack)) source (source :: stack) entries q)
        (followShared (expandShared s c depth) source entries (insert source active) q) := by
      apply followShared_restores hinsert
      intro a ha p
      exact ih hinsert ha p
    dsimp only
    generalize follow (expand s c depth (source :: stack)) source (source :: stack) entries q =
      result, followShared (expandShared s c depth) source entries (insert source active) q =
      shared at hlist ⊢
    cases hlist with
    | done =>
      dsimp only
      rw [Finset.erase_insert fun ha => hs ((hactive source).1 ha)]
      exact .done
    | failed => exact .failed
    | tooDeep => exact .tooDeep

theorem visitAllShared_restores {sources : List String}
    (hvisit : ∀ a p, Restores active (visit a p) (visitShared a active p)) (p : Progress) :
    Restores active (visitAll visit sources p) (visitAllShared visitShared sources active p) := by
  induction sources generalizing p with
  | nil => exact .done
  | cons source rest ih =>
    unfold visitAll visitAllShared
    have hsource := hvisit source p
    generalize visit source p = result, visitShared source active p = shared at hsource ⊢
    cases hsource with
    | done => exact ih _
    | failed => exact .failed
    | tooDeep => exact .tooDeep

theorem visitAllShared_expandShared_restores (s : Setup) (c : Catalog) (depth : Nat)
    (sources : List String) (p : Progress) :
    Restores ∅ (gatherWithin depth s c sources p)
      (visitAllShared (expandShared s c depth) sources ∅ p) := by
  have hempty : ∀ a : String, a ∈ (∅ : Finset String) ↔ a ∈ ([] : List String) := by
    intro a
    rw [List.mem_nil_iff, iff_false]
    exact Finset.notMem_empty a
  apply visitAllShared_restores
  intro a p
  exact expandShared_restores hempty List.not_mem_nil p

/-- One set for all expansions does what a stack handed down does, whatever the includes are. -/
theorem gatherShared_eq (depth : Nat) (sources : List String) (p : Progress) :
    gatherShared depth s c sources p = gatherWithin depth s c sources p := by
  have hall := visitAllShared_expandShared_restores s c depth sources p
  unfold gatherShared
  generalize gatherWithin depth s c sources p = result,
    visitAllShared (expandShared s c depth) sources ∅ p = shared at hall ⊢
  cases hall <;> rfl

end ShaderIncludes.Crawl
