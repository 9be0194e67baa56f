import Mathlib.Data.Set.Finite.Lattice
import ShaderIncludes.Proofs.IncludeGraph

/-!
# The plain expansion

The references that a source stands for, as the include lists alone give them: every entry that is
not under expansion already is replaced by its own expansion, again and again if it occurs again,
and nothing remembers what has been collected. The result may hold a reference many times.

The depth is the number of references under expansion at once that is allowed for. Where it does
not suffice, or where a file is broken, there is no result; a result stays the same at any greater
depth (`plain_mono`). Some depth suffices exactly where a source leads to finitely many references,
none of them broken (`finite_of_plain`, `exists_plain`).
-/
namespace ShaderIncludes.IncludeGraph

/-- The results for all items, one behind the other, if every item has one. -/
def concat (visit : String → Option (List String)) (items : List String) :
    Option (List String) :=
  (items.mapM visit).map List.flatten

/-- What an entry of the include list of `source` stands for. -/
def branch (visit : String → Option (List String)) (source : String) (stack : List String)
    (entry : String) : Option (List String) :=
  if entry = Includes.selfEntry then some [source]
  else if entry ∈ stack then some []
  else visit entry

/-- What `source` stands for while the references of `stack` are under expansion. -/
def plain (g : IncludeGraph) : (depth : Nat) → (stack : List String) → String →
    Option (List String)
  | 0, _, _ => none
  | depth + 1, stack, source =>
    match g.node source with
    | .broken _ => none
    | .absent => some []
    | .leaf => some [source]
    | .list entries =>
      concat (branch (plain g depth (source :: stack)) source (source :: stack)) entries

variable {g : IncludeGraph} {visit visit' : String → Option (List String)}
  {stack items refs : List String} {a source : String}

theorem concat_nil : concat visit [] = some [] := rfl

theorem concat_cons_eq_some {item : String} :
    concat visit (item :: items) = some refs ↔
      ∃ front back, visit item = some front ∧ concat visit items = some back ∧
        refs = front ++ back := by
  unfold concat
  rw [List.mapM_cons]
  cases hv : visit item with
  | none => simp
  | some front =>
    cases hi : items.mapM visit with
    | none => simp
    | some rest => simp [eq_comm]

theorem mem_concat (h : concat visit items = some refs) :
    a ∈ refs ↔ ∃ item ∈ items, ∃ part, visit item = some part ∧ a ∈ part := by
  induction items generalizing refs with
  | nil =>
    rw [concat_nil, Option.some.injEq] at h
    simp [← h]
  | cons item items ih =>
    obtain ⟨front, back, hf, hb, rfl⟩ := concat_cons_eq_some.1 h
    simp [ih hb, hf]

theorem exists_of_concat (h : concat visit items = some refs) {item : String}
    (hi : item ∈ items) : ∃ part, visit item = some part := by
  induction items generalizing refs with
  | nil => cases hi
  | cons first items ih =>
    obtain ⟨front, back, hf, hb, -⟩ := concat_cons_eq_some.1 h
    rcases List.mem_cons.1 hi with rfl | hi
    · exact ⟨front, hf⟩
    · exact ih hb hi

theorem exists_concat (h : ∀ item ∈ items, ∃ part, visit item = some part) :
    ∃ refs, concat visit items = some refs := by
  induction items with
  | nil => exact ⟨[], rfl⟩
  | cons item items ih =>
    obtain ⟨front, hf⟩ := h item List.mem_cons_self
    obtain ⟨back, hb⟩ := ih fun other ho => h other (List.mem_cons_of_mem item ho)
    exact ⟨_, concat_cons_eq_some.2 ⟨front, back, hf, hb, rfl⟩⟩

theorem concat_mono (hv : ∀ item part, visit item = some part → visit' item = some part)
    (h : concat visit items = some refs) : concat visit' items = some refs := by
  induction items generalizing refs with
  | nil => exact h
  | cons item items ih =>
    obtain ⟨front, back, hf, hb, rfl⟩ := concat_cons_eq_some.1 h
    exact concat_cons_eq_some.2 ⟨front, back, hv item front hf, ih hb, rfl⟩

/-- What is found for the first item at one depth and for the others at another one is found for all
of them at some depth. -/
theorem exists_concat_cons (visit : Nat → String → Option (List String))
    (hv : ∀ {less more}, less ≤ more →
      ∀ item part, visit less item = some part → visit more item = some part)
    {less more : Nat} {item : String} {front back : List String}
    (hf : visit less item = some front) (hb : concat (visit more) items = some back) :
    ∃ depth, concat (visit depth) (item :: items) = some (front ++ back) := by
  have hfront : visit (max less more) item = some front :=
    hv (Nat.le_max_left less more) item front hf
  have hback : concat (visit (max less more)) items = some back :=
    concat_mono (hv (Nat.le_max_right less more)) hb
  exact ⟨_, concat_cons_eq_some.2 ⟨front, back, hfront, hback, rfl⟩⟩

theorem branch_self : branch visit source stack Includes.selfEntry = some [source] := if_pos rfl

theorem branch_of_mem {entry : String} (hself : entry ≠ Includes.selfEntry)
    (hs : entry ∈ stack) : branch visit source stack entry = some [] := by
  rw [branch, if_neg hself, if_pos hs]

theorem branch_of_not_mem {entry : String} (hself : entry ≠ Includes.selfEntry)
    (hs : entry ∉ stack) : branch visit source stack entry = visit entry := by
  rw [branch, if_neg hself, if_neg hs]

theorem branch_mono (hv : ∀ item part, visit item = some part → visit' item = some part)
    (entry : String) (part : List String) (h : branch visit source stack entry = some part) :
    branch visit' source stack entry = some part := by
  unfold branch at h ⊢
  split
  · rwa [if_pos ‹_›] at h
  rw [if_neg ‹_›] at h
  split
  · rwa [if_pos ‹_›] at h
  rw [if_neg ‹_›] at h
  exact hv entry part h

theorem plain_mono {depth more : Nat} (hle : depth ≤ more)
    (h : g.plain depth stack source = some refs) : g.plain more stack source = some refs := by
  induction depth generalizing more stack source refs with
  | zero => cases h
  | succ depth ih =>
    obtain ⟨more, rfl⟩ := Nat.exists_eq_add_of_le' hle
    unfold plain at h ⊢
    cases hn : g.node source with
    | broken fault => simp [hn] at h
    | absent => simpa [hn] using h
    | leaf => simpa [hn] using h
    | list entries =>
      rw [hn] at h
      exact concat_mono (branch_mono fun _ _ => ih (Nat.le_add_left depth more)) h

theorem avoids_list_iff {entries : List String} (hn : g.node source = .list entries)
    (hs : source ∉ stack) :
    g.Avoids stack source a ↔
      a = source ∨ ∃ x ∈ entries, x ≠ Includes.selfEntry ∧ g.Avoids (source :: stack) x a := by
  constructor
  · intro h
    rcases h.cases_head with rfl | ⟨x, hx, hxa⟩
    · exact .inl rfl
    · obtain ⟨hmem, hself⟩ := (edge_iff_mem hn).1 hx
      exact .inr ⟨x, hmem, hself, hxa⟩
  · rintro (rfl | ⟨x, hmem, hself, hxa⟩)
    · exact .refl hs
    · exact .head hs ((edge_iff_mem hn).2 ⟨hmem, hself⟩) hxa

theorem eq_of_avoids (hn : ∀ entries, g.node source ≠ .list entries)
    (h : g.Avoids stack source a) : a = source := by
  rcases h.cases_head with rfl | ⟨x, ⟨entries, he, -⟩, -⟩
  · rfl
  · exact absurd he (hn entries)

/-- The plain expansion holds what the source leads to past the references under expansion. -/
theorem mem_plain {depth : Nat} (hs : source ∉ stack)
    (h : g.plain depth stack source = some refs) :
    a ∈ refs ↔ g.Avoids stack source a ∧ g.Emits a := by
  induction depth generalizing stack source refs with
  | zero => cases h
  | succ depth ih =>
    unfold plain at h
    cases hn : g.node source with
    | broken fault => simp [hn] at h
    | absent =>
      rw [hn, Option.some.injEq] at h
      subst h
      refine iff_of_false List.not_mem_nil ?_
      rintro ⟨hav, hem⟩
      rw [eq_of_avoids (by simp [hn]) hav] at hem
      simp [Emits, hn] at hem
    | leaf =>
      rw [hn, Option.some.injEq] at h
      subst h
      rw [List.mem_singleton]
      constructor
      · rintro rfl
        exact ⟨.refl hs, .inl hn⟩
      · intro hav
        exact eq_of_avoids (by simp [hn]) hav.1
    | list entries =>
      rw [hn] at h
      rw [mem_concat h, avoids_list_iff hn hs]
      constructor
      · rintro ⟨entry, he, part, hb, ha⟩
        by_cases hself : entry = Includes.selfEntry
        · subst hself
          cases branch_self.symm.trans hb
          cases List.mem_singleton.1 ha
          exact ⟨.inl rfl, (emits_iff_mem hn).2 he⟩
        by_cases hstack : entry ∈ source :: stack
        · cases (branch_of_mem hself hstack).symm.trans hb
          cases ha
        · rw [branch_of_not_mem hself hstack] at hb
          obtain ⟨hav, hem⟩ := (ih hstack hb).1 ha
          exact ⟨.inr ⟨entry, he, hself, hav⟩, hem⟩
      · rintro ⟨rfl | ⟨x, hx, hself, hav⟩, hem⟩
        · exact ⟨_, (emits_iff_mem hn).1 hem, [a], branch_self, List.mem_singleton_self a⟩
        · obtain ⟨part, hb⟩ := exists_of_concat h hx
          refine ⟨x, hx, part, hb, ?_⟩
          rw [branch_of_not_mem hself hav.1] at hb
          exact (ih hav.1 hb).2 ⟨hav, hem⟩

/-- The visit of a reference with a plain expansion meets finitely many others, none broken. -/
theorem finite_of_plain {depth : Nat} (hs : source ∉ stack)
    (h : g.plain depth stack source = some refs) :
    {a | g.Avoids stack source a}.Finite ∧
      ∀ a, g.Avoids stack source a → ∀ fault, g.node a ≠ .broken fault := by
  induction depth generalizing stack source refs with
  | zero => cases h
  | succ depth ih =>
    unfold plain at h
    cases hn : g.node source with
    | broken fault => simp [hn] at h
    | absent | leaf =>
      have heq : ∀ a, g.Avoids stack source a → a = source := by
        intro a
        apply eq_of_avoids
        simp [hn]
      refine ⟨(Set.finite_singleton source).subset heq, ?_⟩
      intro a ha fault
      rw [heq a ha, hn]
      exact Node.noConfusion
    | list entries =>
      rw [hn] at h
      have hx : ∀ x ∈ entries, x ≠ Includes.selfEntry → x ∉ source :: stack →
          {a | g.Avoids (source :: stack) x a}.Finite ∧
            ∀ a, g.Avoids (source :: stack) x a → ∀ fault, g.node a ≠ .broken fault := by
        intro x hx hself hstack
        obtain ⟨part, hb⟩ := exists_of_concat h hx
        rw [branch_of_not_mem hself hstack] at hb
        exact ih hstack hb
      constructor
      · have hsub : {a | g.Avoids stack source a} ⊆ {source} ∪ ⋃ x ∈ {x | x ∈ entries ∧
            x ≠ Includes.selfEntry ∧ x ∉ source :: stack}, {a | g.Avoids (source :: stack) x a} := by
          intro a ha
          rcases (avoids_list_iff hn hs).1 ha with rfl | ⟨x, hmem, hself, hxa⟩
          · exact .inl rfl
          · exact .inr (Set.mem_biUnion ⟨hmem, hself, hxa.1⟩ hxa)
        refine Set.Finite.subset (.union (Set.finite_singleton source) (.biUnion ?_ ?_)) hsub
        · exact entries.finite_toSet.subset fun x hx => hx.1
        · rintro x ⟨hmem, hself, hstack⟩
          exact (hx x hmem hself hstack).1
      · intro a ha fault
        rcases (avoids_list_iff hn hs).1 ha with rfl | ⟨x, hmem, hself, hxa⟩
        · rw [hn]
          exact Node.noConfusion
        · exact (hx x hmem hself hxa.1).2 a hxa fault

/-- With `all` holding all that can be met, depth for those not on the stack suffices. -/
theorem exists_plain_of_subset (all : List String) {depth : Nat}
    (hall : ∀ a, g.Avoids stack source a → a ∈ all)
    (hbroken : ∀ a, g.Avoids stack source a → ∀ fault, g.node a ≠ .broken fault)
    (hs : source ∉ stack) (hd : Crawl.unvisited all stack < depth) :
    ∃ refs, g.plain depth stack source = some refs := by
  induction depth generalizing stack source with
  | zero => exact absurd hd (Nat.not_lt_zero _)
  | succ depth ih =>
    unfold plain
    cases hn : g.node source with
    | broken fault => exact absurd hn (hbroken source (.refl hs) fault)
    | absent => exact ⟨[], rfl⟩
    | leaf => exact ⟨[source], rfl⟩
    | list entries =>
      apply exists_concat
      intro x hx
      by_cases hself : x = Includes.selfEntry
      · exact ⟨[source], hself ▸ branch_self⟩
      by_cases hstack : x ∈ source :: stack
      · exact ⟨[], branch_of_mem hself hstack⟩
      rw [branch_of_not_mem hself hstack]
      have hsub : ∀ a, g.Avoids (source :: stack) x a → g.Avoids stack source a := by
        intro a ha
        exact (avoids_list_iff hn hs).2 (.inr ⟨x, hx, hself, ha⟩)
      have hlt : Crawl.unvisited all (source :: stack) < Crawl.unvisited all stack :=
        Crawl.unvisited_cons_lt (hall source (.refl hs)) hs
      apply ih _ _ hstack
      · omega
      · intro a ha
        exact hall a (hsub a ha)
      · intro a ha
        exact hbroken a (hsub a ha)

theorem exists_plain (hs : source ∉ stack) (hfin : {a | g.Avoids stack source a}.Finite)
    (hbroken : ∀ a, g.Avoids stack source a → ∀ fault, g.node a ≠ .broken fault) :
    ∃ depth refs, g.plain depth stack source = some refs := by
  refine ⟨_, exists_plain_of_subset hfin.toFinset.toList ?_ hbroken hs (Nat.lt_succ_self _)⟩
  intro a ha
  simpa using ha

/-- Whatever a source leads to has a plain expansion as well, with nothing new in it. -/
theorem exists_plain_sub {depth : Nat} (hs : source ∉ stack)
    (h : g.plain depth stack source = some refs) {other : List String} (ha : a ∉ other)
    (hsub : ∀ b, g.Avoids other a b → g.Avoids stack source b) :
    ∃ depth part, g.plain depth other a = some part ∧ part ⊆ refs := by
  obtain ⟨hfin, hbroken⟩ := finite_of_plain hs h
  have hbroken' : ∀ b, g.Avoids other a b → ∀ fault, g.node b ≠ .broken fault := by
    intro b hb
    exact hbroken b (hsub b hb)
  obtain ⟨more, part, hpart⟩ := exists_plain ha (hfin.subset hsub) hbroken'
  refine ⟨more, part, hpart, ?_⟩
  intro b hb
  obtain ⟨hav, hem⟩ := (mem_plain ha hpart).1 hb
  exact (mem_plain hs h).2 ⟨hsub b hav, hem⟩

end ShaderIncludes.IncludeGraph
