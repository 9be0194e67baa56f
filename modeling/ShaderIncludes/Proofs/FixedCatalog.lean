import ShaderIncludes.Proofs.Rules

/-!
# Crawls over files that never change

What a lookup finds there, and what one expansion does, said in terms of the include graph.
-/
namespace ShaderIncludes

namespace Lookup

variable (present : String → Bool) (lines : String → Except String (List String))

theorem firstPresent?_fixed (paths : List String) (t : Trace) :
    (firstPresent? (.fixed present lines) paths t).1 = paths.find? present := by
  induction paths generalizing t with
  | nil => rfl
  | cons path rest ih =>
    cases h : present path with
    | true => simp [firstPresent?, Catalog.probe, Catalog.fixed, h]
    | false => simpa [firstPresent?, Catalog.probe, Catalog.fixed, h] using ih _

theorem inFolder?_fixed (base path : String) (t : Trace) :
    (inFolder? (.fixed present lines) base path t).1 = (candidates base path).find? present := by
  rw [← firstPresent?_fixed present lines _ t]
  unfold inFolder?
  split
  · rename_i h
    rw [h]
  · rename_i h
    rw [h]

theorem inFolders?_fixed (path : String) (folders : List String) (t : Trace) :
    (inFolders? (.fixed present lines) path folders t).1 =
      (folders.flatMap (candidates · path)).find? present := by
  induction folders generalizing t with
  | nil => rfl
  | cons folder rest ih =>
    have hf := inFolder?_fixed present lines folder path t
    rw [List.flatMap_cons, List.find?_append, ← hf]
    unfold inFolders?
    split
    · rename_i h
      rw [h]
      rfl
    · rename_i h
      rw [h]
      exact ih _

end Lookup

namespace Crawl

variable {s : Setup} {c : Catalog}

theorem find_fst (g : IncludeGraph) (source : String) (t : Trace) :
    (Lookup.find g.catalog g.setup.roots g.setup.base (.ofString source) t).1 =
      match g.place? source with
      | some place => .ok place
      | none => .error (g.missing source) := by
  have h : g.place? source = _ := (Lookup.inFolders?_fixed g.present g.lines _ _ t).symm
  rw [h]
  unfold Lookup.find IncludeGraph.catalog
  dsimp only
  split
  · rename_i hf
    rw [hf]
  · rename_i hf
    rw [hf]
    rfl

theorem fetch_fst (g : IncludeGraph) (source : String) (p : Progress) :
    (fetch g.setup g.catalog source p).1 =
      match g.place? source with
      | some place => ((g.lines place).mapError (.unreadable place)).map some
      | none =>
        match g.setup.policy with
        | .abort => .error (g.missing source)
        | .omit => .ok none
        | .leaf => .ok (some []) := by
  have h := find_fst g source p.trace
  unfold fetch
  split
  · rename_i place _ hf
    rw [hf] at h
    cases hp : g.place? source with
    | none => simp [hp] at h
    | some found =>
      have : place = found := by simpa [hp] using h
      subst this
      rfl
  · rename_i fault _ hf
    rw [hf] at h
    cases hp : g.place? source with
    | some found => simp [hp] at h
    | none =>
      have : fault = g.missing source := by simpa [hp] using h
      subst this
      cases g.setup.policy <;> rfl

@[simp] theorem deps_fetch (source : String) (p : Progress) :
    (fetch s c source p).2.deps = p.deps := by
  unfold fetch
  split
  · rfl
  · split <;> rfl

theorem look_snd (source : String) (p : Progress) :
    (look s c source p).2 = (fetch s c source p).2 := by
  rw [look_eq_fetch]

theorem deps_look {node : Node} {source : String} {p q : Progress}
    (h : look s c source p = (node, q)) : q.deps = p.deps := by
  rw [← deps_fetch (s := s) (c := c) source p, ← look_snd, h]

/-- Where files never change, what a crawl finds is what the include graph says. -/
theorem look_fst (g : IncludeGraph) (source : String) (p : Progress) :
    (look g.setup g.catalog source p).1 = g.node source := by
  have h := fetch_fst g source p
  unfold look IncludeGraph.node
  rcases hf : fetch g.setup g.catalog source p with ⟨text, q⟩
  rw [hf] at h
  cases hp : g.place? source with
  | none =>
    simp only [hp] at h
    cases hpol : g.setup.policy
    all_goals
      simp only [hpol] at h
      subst h
      rfl
  | some place =>
    cases hl : g.lines place with
    | error cause =>
      simp only [hp, hl] at h
      subst h
      simp only [hl]
      rfl
    | ok found =>
      simp only [hp, hl] at h
      have htext : text = .ok (some found) := h
      subst htext
      cases hi : Includes.ofLines source found with
      | error fault => simp [hl, hi]
      | ok list => cases list <;> simp [hl, hi]

theorem node_of_look {g : IncludeGraph} {node : Node} {source : String} {p q : Progress}
    (h : look g.setup g.catalog source p = (node, q)) : g.node source = node := by
  rw [← look_fst g source p, h]

/-- One step of an expansion, by what there is at the reference. -/
theorem expand_succ (g : IncludeGraph) (depth : Nat) (stack : List String) (source : String)
    (p : Progress) :
    expand g.setup g.catalog (depth + 1) stack source p =
      let q := (fetch g.setup g.catalog source p).2
      match g.node source with
      | .broken fault => (.failed fault, q)
      | .absent => (.done, q)
      | .leaf => (.done, q.insert source)
      | .list entries =>
        follow (expand g.setup g.catalog depth (source :: stack)) source (source :: stack)
          entries q := by
  rw [expand_eq_look, ← look_snd, ← look_fst g source p]
  rcases look g.setup g.catalog source p with ⟨fault | _ | _ | entries, q⟩ <;> rfl

end Crawl

end ShaderIncludes
