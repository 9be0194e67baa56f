/-!
# Dependencies in order

The result of a crawl: references in the order in which they were first met, none of them twice. An
insertion goes to the end, and one of a member does nothing.
-/
namespace ShaderIncludes

/-- References in the order in which they were first met. -/
abbrev Dependencies := List String

namespace Dependencies

/-- One reference more, at the end unless it is there already. -/
def insert (deps : Dependencies) (ref : String) : Dependencies :=
  if ref ∈ deps then deps else deps ++ [ref]

/-- The references of `more` behind those of `deps`, in order. -/
def union (deps more : Dependencies) : Dependencies := more.foldl insert deps

/-- The references of a list, each where it occurs first. -/
def ofList (refs : List String) : Dependencies := union [] refs

@[simp] theorem mem_insert {deps : Dependencies} {ref a : String} :
    a ∈ deps.insert ref ↔ a ∈ deps ∨ a = ref := by
  unfold insert; split
  · constructor
    · exact .inl
    · rintro (h | rfl) <;> assumption
  · simp

@[simp] theorem mem_union {deps more : Dependencies} {a : String} :
    a ∈ deps.union more ↔ a ∈ deps ∨ a ∈ more := by
  induction more generalizing deps with
  | nil => simp [union]
  | cons b more ih =>
    have := @ih (deps.insert b)
    simp only [union, List.foldl_cons] at this ⊢
    rw [this]; simp [or_assoc]

@[simp] theorem mem_ofList {refs : List String} {a : String} : a ∈ ofList refs ↔ a ∈ refs := by
  simp [ofList]

theorem nodup_insert {deps : Dependencies} (h : deps.Nodup) (ref : String) :
    (deps.insert ref).Nodup := by
  unfold insert; split
  · exact h
  · rename_i hn
    rw [List.nodup_append]
    refine ⟨h, by simp, ?_⟩
    rintro a ha b hb rfl
    exact hn (List.mem_singleton.1 hb ▸ ha)

theorem nodup_union {deps : Dependencies} (h : deps.Nodup) (more : Dependencies) :
    (deps.union more).Nodup := by
  induction more generalizing deps with
  | nil => exact h
  | cons b more ih => exact ih (nodup_insert h b)

theorem nodup_ofList (refs : List String) : (ofList refs).Nodup :=
  nodup_union List.nodup_nil refs

theorem union_cons (deps more : Dependencies) (a : String) :
    deps.union (a :: more) = (deps.insert a).union more := rfl

theorem union_append (deps : Dependencies) (more rest : List String) :
    deps.union (more ++ rest) = (deps.union more).union rest := List.foldl_append

theorem ofList_append (refs more : List String) : ofList (refs ++ more) = (ofList refs).union more :=
  union_append [] refs more

theorem insert_eq_self {deps : Dependencies} {a : String} (h : a ∈ deps) :
    deps.insert a = deps := if_pos h

theorem insert_eq_append {deps : Dependencies} {a : String} (h : a ∉ deps) :
    deps.insert a = deps ++ [a] := if_neg h

theorem union_eq_self {deps more : Dependencies} (h : more ⊆ deps) : deps.union more = deps := by
  induction more with
  | nil => rfl
  | cons a more ih =>
    rw [union_cons, insert_eq_self (h List.mem_cons_self)]
    exact ih fun b hb => h (List.mem_cons_of_mem a hb)

theorem union_insert (deps more : Dependencies) (a : String) :
    deps.union (more.insert a) = (deps.union more).insert a := by
  by_cases h : a ∈ more
  · rw [insert_eq_self h, insert_eq_self (mem_union.2 (.inr h))]
  · rw [insert_eq_append h, union_append]
    rfl

/-- Duplicates taken out of a list beforehand make no difference to a union with it. -/
theorem union_union (deps more rest : Dependencies) :
    deps.union (more.union rest) = (deps.union more).union rest := by
  induction rest generalizing more with
  | nil => rfl
  | cons a rest ih => rw [union_cons, union_cons, ih, union_insert]

theorem prefix_union (deps more : Dependencies) : deps <+: deps.union more := by
  induction more generalizing deps with
  | nil => exact List.prefix_refl deps
  | cons a more ih =>
    refine List.IsPrefix.trans ?_ (ih (deps.insert a))
    unfold insert
    split
    · exact List.prefix_refl deps
    · exact List.prefix_append deps [a]

end Dependencies

end ShaderIncludes
