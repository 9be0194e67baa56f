import ShaderIncludes.Proofs.Failure
import ShaderIncludes.Proofs.Looks
import ShaderIncludes.Proofs.Stackless

/-!
# Crawling what has been collected

The dependencies say nothing of how they hang together, but they are enough to find themselves again.
Main statement: a crawl of all that a crawl has come to, from nothing as well, succeeds and collects
the same references, and in the same order if the sources lead into no cycle
(`collected_from_collected`). Away from cycles the expansion of a reference is the same wherever it
stands, so that the expansion of every dependency, where it is first met, is a piece of that of the
sources. Around a cycle it depends on where the cycle is entered, and the order may change.
-/
namespace ShaderIncludes

open Crawl
open Relation (TransGen)

namespace Dependencies

variable {refs front back : Dependencies} {d : String}

/-- Before a dependency stands what is met before it is met for the first time. -/
theorem exists_split_of_ofList (h : ofList refs = front ++ d :: back) :
    ∃ left right, refs = left ++ d :: right ∧ ofList left = front := by
  have hd : d ∈ refs := by
    rw [← mem_ofList, h]
    exact List.mem_append_right front List.mem_cons_self
  obtain ⟨left, right, rfl, hleft⟩ := List.eq_append_cons_of_mem hd
  obtain ⟨rest, hrest⟩ := exists_ofList_append_cons hleft right
  have hnodup := nodup_ofList (left ++ d :: right)
  rw [hrest, List.nodup_append] at hnodup
  have hsame : ofList left ++ d :: rest = front ++ d :: back := hrest.symm.trans h
  have hleft' : d ∉ ofList left := fun hmem => hleft (mem_ofList.1 hmem)
  have hrest' : d ∉ rest := (List.nodup_cons.1 hnodup.2.1).1
  exact ⟨left, right, rfl, ((List.append_cons_inj_of_notMem hleft' hrest').1 hsame).1⟩

theorem eq_of_prefix_of_subset (h : front <+: refs) (hsub : refs ⊆ front) (hrefs : refs.Nodup) :
    front = refs :=
  h.eq_of_length_le (hrefs.subperm hsub).length_le

/-- The part of a list that holds what is before a member, and not the member, ends before it. -/
theorem eq_front_of_prefix (h : refs <+: front ++ d :: back) (hsub : front ⊆ refs)
    (hd : d ∉ refs) (hnodup : front.Nodup) : refs = front := by
  rcases List.prefix_or_prefix_of_prefix h (List.prefix_append front (d :: back)) with hle | hle
  · exact eq_of_prefix_of_subset hle hsub hnodup
  · obtain ⟨more, rfl⟩ := hle
    cases more with
    | nil => exact List.append_nil front
    | cons a more =>
      obtain ⟨rfl, -⟩ := List.cons_prefix_cons.1 ((List.prefix_append_right_inj front).1 h)
      exact absurd (List.mem_append_right front List.mem_cons_self) hd

end Dependencies

namespace IncludeGraph

variable {g : IncludeGraph} {visit visit' : String → Option (List String)}
  {stack items refs again part front back sources : List String} {a b d f source : String}
  {policy : MissingPolicy} {p q : Progress} {depth more : Nat}

/-- What is to be done about missing files makes no difference to what there is. -/
theorem edge_of_withPolicy (h : (g.withPolicy policy).Edge a b) : g.Edge a b := by
  obtain ⟨entries, hn, hb, hself⟩ := h
  obtain ⟨place, text, hplace, hlines, hlist⟩ := exists_text_of_node hn
  have hplace' : g.place? a = some place := hplace
  have hlines' : g.lines place = .ok text := hlines
  have hnode : g.node a = .list entries := by simp only [node, hplace', hlines', hlist]
  exact ⟨entries, hnode, hb, hself⟩

theorem Acyclic.withPolicy (h : g.Acyclic) (policy : MissingPolicy) :
    (g.withPolicy policy).Acyclic :=
  fun a ha => h a (TransGen.mono (fun _ _ => edge_of_withPolicy) _ _ ha)

/-! ## When a crawl succeeds -/

theorem ends_ok_of_finite (hfinite : (g.Reached sources).Finite)
    (hbroken : ∀ a ∈ g.Reached sources, ∀ fault, g.node a ≠ .broken fault) (p : Progress) :
    ∃ q, Ends g.setup g.catalog sources p (.ok ()) q := by
  obtain ⟨enough, hdepth⟩ := exists_depth_of_finite hfinite
  have hne := hdepth enough (Nat.le_refl enough) p
  have hends : Ends g.setup g.catalog sources p _ _ :=
    ⟨enough, Prod.ext ((Ending.outcome_eq_iff hne).1 rfl) rfl⟩
  rcases hout : Ending.outcome _ hne with fault | ⟨⟩
  · rw [hout] at hends
    obtain ⟨source, hs, a, hreach, hfails⟩ := exists_fails_of_ends hends
    exact absurd (node_eq_broken_iff.2 hfails) (hbroken a ⟨source, hs, hreach⟩ fault)
  · rw [hout] at hends
    exact ⟨_, hends⟩

/-- From nothing, a crawl succeeds if and only if its sources lead to finitely many references and to
none that is broken. -/
theorem ends_ok_iff_finite (hp : p.deps = []) :
    (∃ q, Ends g.setup g.catalog sources p (.ok ()) q) ↔
      (g.Reached sources).Finite ∧ ∀ a ∈ g.Reached sources, ∀ fault, g.node a ≠ .broken fault := by
  constructor
  · rintro ⟨q, h⟩
    obtain ⟨depth, refs, hr, -⟩ := exists_plain_of_ends hp h
    constructor
    · have hunion : g.Reached sources = ⋃ source ∈ {source | source ∈ sources},
          {a | g.Avoids [] source a} := by
        ext a
        simp [Reached, avoids_nil]
      rw [hunion]
      apply sources.finite_toSet.biUnion
      intro source hs
      obtain ⟨part, hpart⟩ := exists_of_concat hr hs
      exact (finite_of_plain List.not_mem_nil hpart).1
    · rintro a ⟨source, hs, hreach⟩ fault hfault
      exact not_fails_of_ends hp h hs hreach fault (node_eq_broken_iff.1 hfault)
  · rintro ⟨hfinite, hbroken⟩
    exact ends_ok_of_finite hfinite hbroken p

/-! ## Pieces of the plain expansion -/

theorem concat_append_eq_some {left right : List String} :
    concat visit (left ++ right) = some refs ↔
      ∃ front back, concat visit left = some front ∧ concat visit right = some back ∧
        refs = front ++ back := by
  induction left generalizing refs with
  | nil => simp [concat_nil]
  | cons item left ih =>
    rw [List.cons_append, concat_cons_eq_some]
    constructor
    · rintro ⟨first, others, hfirst, hothers, rfl⟩
      obtain ⟨front, back, hl, hr, rfl⟩ := ih.1 hothers
      have hleft := concat_cons_eq_some.2 ⟨first, front, hfirst, hl, rfl⟩
      exact ⟨first ++ front, back, hleft, hr, (List.append_assoc first front back).symm⟩
    · rintro ⟨front, back, hleft, hr, rfl⟩
      obtain ⟨first, front, hfirst, hl, rfl⟩ := concat_cons_eq_some.1 hleft
      exact ⟨first, front ++ back, hfirst, ih.2 ⟨front, back, hl, hr, rfl⟩,
        List.append_assoc first front back⟩

theorem concat_singleton_eq_some {item : String} :
    concat visit [item] = some refs ↔ visit item = some refs := by
  simp [concat_cons_eq_some, concat_nil]

theorem concat_congr (h : ∀ item ∈ items, visit item = visit' item) :
    concat visit items = concat visit' items := by
  induction items with
  | nil => rfl
  | cons item items ih =>
    have hrest := ih fun other ho => h other (List.mem_cons_of_mem item ho)
    apply Option.ext
    intro refs
    rw [concat_cons_eq_some, concat_cons_eq_some, h item List.mem_cons_self, hrest]

/-- Around a place within a concatenation lies one of its parts. -/
theorem exists_part_of_concat (h : concat visit items = some (front ++ f :: back)) :
    ∃ item ∈ items, ∃ inner outer, visit item = some (inner ++ f :: outer) ∧
      inner <:+ front ∧ outer <+: back := by
  obtain ⟨left, item, right, skipped, inner, outer, rfl, hl, hi, rfl⟩ := concat_eq_append_cons h
  obtain ⟨skipped', rest, hl', hr, hsplit⟩ := concat_append_eq_some.1 h
  obtain ⟨first, behind, hi', -, rfl⟩ := concat_cons_eq_some.1 hr
  cases hl.symm.trans hl'
  cases hi.symm.trans hi'
  have hback : back = outer ++ behind := by simpa using hsplit
  refine ⟨item, List.mem_append_right left List.mem_cons_self, inner, outer, hi, ?_, ?_⟩
  · exact List.suffix_append skipped inner
  · exact hback ▸ List.prefix_append outer behind

/-- Where nothing leads in a circle, an expansion does not depend on what is under way above it. -/
theorem plain_eq_of_acyclic (hstack : ∀ a ∈ stack, TransGen g.Edge a source)
    (hacyclic : ∀ a, g.Reaches source a → ¬ TransGen g.Edge a a) :
    g.plain depth stack source = g.plain depth [] source := by
  induction depth generalizing stack source with
  | zero => rfl
  | succ depth ih =>
    unfold plain
    cases hn : g.node source with
    | broken | absent | leaf => rfl
    | list entries =>
      apply concat_congr
      intro entry hentry
      by_cases hself : entry = Includes.selfEntry
      · rw [hself, branch_self, branch_self]
      have hedge : g.Edge source entry := (edge_iff_mem hn).2 ⟨hentry, hself⟩
      have hbelow : ∀ a, g.Reaches entry a → ¬ TransGen g.Edge a a :=
        fun a ha => hacyclic a (.head hedge ha)
      -- with either stack, an entry on it would close a cycle, and below the entry it is of no account
      have hbranch : ∀ stack, (∀ a ∈ stack, TransGen g.Edge a source) →
          branch (g.plain depth (source :: stack)) source (source :: stack) entry =
            g.plain depth [] entry := by
        intro stack hstack
        have hmem := not_mem_of_acyclic hstack hedge (hbelow entry .refl)
        rw [branch_of_not_mem hself hmem, ih (transGen_of_edge hstack hedge) hbelow]
      rw [hbranch stack hstack, hbranch [] fun a ha => absurd ha List.not_mem_nil]

/-- Away from cycles, around every place of `f` in an expansion lies the expansion of `f`. -/
theorem exists_plain_around (hacyclic : ∀ a, g.Reaches source a → ¬ TransGen g.Edge a a)
    (h : g.plain depth [] source = some (front ++ f :: back)) :
    ∃ less inner outer, g.plain less [] f = some (inner ++ f :: outer) ∧
      inner <:+ front ∧ outer <+: back := by
  induction depth generalizing source front back with
  | zero => cases h
  | succ depth ih =>
    by_cases hsource : source = f
    · subst hsource
      exact ⟨depth + 1, front, back, h, List.suffix_refl front, List.prefix_refl back⟩
    unfold plain at h
    cases hn : g.node source with
    | broken fault => simp [hn] at h
    | absent => simp [hn] at h
    | leaf =>
      rw [hn, Option.some.injEq] at h
      have hmem : f ∈ [source] := h ▸ List.mem_append_right front List.mem_cons_self
      exact absurd (List.mem_singleton.1 hmem).symm hsource
    | list entries =>
      rw [hn] at h
      obtain ⟨entry, hentry, inner, outer, hpart, hinner, houter⟩ := exists_part_of_concat h
      by_cases hself : entry = Includes.selfEntry
      · rw [hself, branch_self, Option.some.injEq] at hpart
        have hmem : f ∈ [source] := hpart ▸ List.mem_append_right inner List.mem_cons_self
        exact absurd (List.mem_singleton.1 hmem).symm hsource
      have hedge : g.Edge source entry := (edge_iff_mem hn).2 ⟨hentry, hself⟩
      have hbelow : ∀ a, g.Reaches entry a → ¬ TransGen g.Edge a a :=
        fun a ha => hacyclic a (.head hedge ha)
      have hnone : ∀ a ∈ [], TransGen g.Edge a source := fun a ha => absurd ha List.not_mem_nil
      have hmem := not_mem_of_acyclic hnone hedge (hbelow entry .refl)
      rw [branch_of_not_mem hself hmem,
        plain_eq_of_acyclic (transGen_of_edge hnone hedge) hbelow] at hpart
      obtain ⟨less, inner', outer', hplain, hinner', houter'⟩ := ih hbelow hpart
      exact ⟨less, inner', outer', hplain, hinner'.trans hinner, houter'.trans houter⟩

theorem plain_unique {less : Nat} (h : g.plain depth stack source = some refs)
    (h' : g.plain less stack source = some part) : refs = part := by
  have hrefs := plain_mono (Nat.le_max_left depth less) h
  have hpart := plain_mono (Nat.le_max_right depth less) h'
  exact Option.some.inj (hrefs.symm.trans hpart)

/-! ## The second crawl -/

/-- Once it has come to a reference, an expansion holds that of the reference too. -/
theorem part_subset_of_mem (h : concat (g.plain depth []) sources = some refs)
    (hf : f ∈ refs) (hpart : g.plain more [] f = some part) : part ⊆ refs := by
  intro a ha
  obtain ⟨hav, hem⟩ := (mem_plain List.not_mem_nil hpart).1 ha
  obtain ⟨-, source, hs, hreach⟩ := (mem_concat_plain h).1 hf
  exact (mem_concat_plain h).2 ⟨hem, source, hs, hreach.trans hav.reaches⟩

theorem ofList_append_of_mem (h : concat (g.plain depth []) sources = some refs) (hf : f ∈ refs)
    (hpart : g.plain more [] f = some part) :
    Dependencies.ofList (refs ++ part) = Dependencies.ofList refs := by
  rw [Dependencies.ofList_append]
  apply Dependencies.union_eq_self
  exact fun a ha => Dependencies.mem_ofList.2 (part_subset_of_mem h hf hpart ha)

/-- Away from cycles, with all in front of a dependency there, its expansion adds to them the
dependency and what follows it, as far as it goes. -/
theorem prefix_of_next (hacyclic : g.AcyclicFrom sources)
    (h : concat (g.plain depth []) sources = some refs)
    (hsplit : Dependencies.ofList refs = front ++ d :: back)
    (hfront : Dependencies.ofList again = front) (hpart : g.plain more [] d = some part) :
    Dependencies.ofList (again ++ part) <+: Dependencies.ofList refs := by
  obtain ⟨left, right, rfl, hleft⟩ := Dependencies.exists_split_of_ofList hsplit
  obtain ⟨item, hitem, inner, outer, hitem', hinner, houter⟩ := exists_part_of_concat h
  obtain ⟨less, inner', outer', hpart', hinner', houter'⟩ :=
    exists_plain_around (fun a ha => hacyclic a ⟨item, hitem, ha⟩) hitem'
  obtain rfl := plain_unique hpart hpart'
  obtain ⟨behind, rfl⟩ := houter'.trans houter
  have hsame : Dependencies.ofList again = Dependencies.ofList left := hfront.trans hleft.symm
  have hold : inner' ⊆ Dependencies.ofList left :=
    fun a ha => Dependencies.mem_ofList.2 ((hinner'.trans hinner).subset ha)
  calc Dependencies.ofList (again ++ (inner' ++ d :: outer'))
      = (Dependencies.ofList left).union (inner' ++ d :: outer') := by
        rw [Dependencies.ofList_append, hsame]
    _ = (Dependencies.ofList left).union (d :: outer') := by
        rw [Dependencies.union_append, Dependencies.union_eq_self hold]
    _ <+: ((Dependencies.ofList left).union (d :: outer')).union behind :=
        Dependencies.prefix_union _ behind
    _ = Dependencies.ofList (left ++ d :: (outer' ++ behind)) := by
        rw [← Dependencies.union_append, List.cons_append, Dependencies.ofList_append]

/-- Away from cycles, the expansion of the first dependencies runs through a piece of the dependencies,
those at least. The next one either has been met or is the next in line. -/
theorem prefix_of_again (hacyclic : g.AcyclicFrom sources)
    (h : concat (g.plain depth []) sources = some refs)
    (hsplit : Dependencies.ofList refs = front ++ back)
    (hagain : concat (g.plain more []) front = some again) :
    Dependencies.ofList again <+: Dependencies.ofList refs ∧ front ⊆ again := by
  induction front using List.reverseRecOn generalizing back again with
  | nil =>
    cases hagain
    exact ⟨List.nil_prefix, List.nil_subset _⟩
  | append_singleton front d ih =>
    obtain ⟨before, part, hbefore, hlast, rfl⟩ := concat_append_eq_some.1 hagain
    have hpart := concat_singleton_eq_some.1 hlast
    rw [List.append_assoc, List.singleton_append] at hsplit
    obtain ⟨hstart, hsub⟩ := ih hsplit hbefore
    have hd : d ∈ refs := by
      rw [← Dependencies.mem_ofList, hsplit]
      exact List.mem_append_right front List.mem_cons_self
    have hself : d ∈ part :=
      (mem_plain List.not_mem_nil hpart).2
        ⟨avoids_nil.2 .refl, ((mem_concat_plain h).1 hd).1⟩
    refine ⟨?_, List.append_subset.2 ⟨?_, ?_⟩⟩
    · by_cases hmet : d ∈ before
      · rwa [ofList_append_of_mem hbefore hmet hpart]
      apply prefix_of_next hacyclic h hsplit _ hpart
      rw [hsplit] at hstart
      have hnodup := hsplit ▸ Dependencies.nodup_ofList refs
      apply Dependencies.eq_front_of_prefix hstart
      · exact fun a ha => Dependencies.mem_ofList.2 (hsub ha)
      · exact fun hm => hmet (Dependencies.mem_ofList.1 hm)
      · exact (List.nodup_append.1 hnodup).1
    · exact fun a ha => List.mem_append_left part (hsub ha)
    · exact fun a ha => List.mem_append_right before (List.mem_singleton.1 ha ▸ hself)

theorem ofList_again (hacyclic : g.AcyclicFrom sources)
    (h : concat (g.plain depth []) sources = some refs)
    (hagain : concat (g.plain more []) (Dependencies.ofList refs) = some again) :
    Dependencies.ofList again = Dependencies.ofList refs := by
  obtain ⟨hstart, hsub⟩ := prefix_of_again hacyclic h (List.append_nil _).symm hagain
  apply Dependencies.eq_of_prefix_of_subset hstart
  · exact fun a ha => Dependencies.mem_ofList.2 (hsub ha)
  · exact Dependencies.nodup_ofList refs

theorem reached_deps_subset (hp : p.deps = [])
    (h : Ends g.setup g.catalog sources p (.ok ()) q) : g.Reached q.deps ⊆ g.Reached sources := by
  rintro a ⟨d, hd, hda⟩
  obtain ⟨-, source, hs, hsd⟩ := reached_of_mem_deps hp h hd
  exact ⟨source, hs, hsd.trans hda⟩

theorem mem_again_iff {p' q' : Progress} (hp : p.deps = [])
    (h : Ends g.setup g.catalog sources p (.ok ()) q) (hp' : p'.deps = [])
    (h' : Ends g.setup g.catalog q.deps p' (.ok ()) q') : d ∈ q'.deps ↔ d ∈ q.deps := by
  constructor
  · intro hd
    obtain ⟨hem, hreach⟩ := reached_of_mem_deps hp' h' hd
    obtain ⟨depth, refs, hr, hq⟩ := exists_plain_of_ends hp h
    rw [hq, Dependencies.mem_ofList]
    exact (mem_concat_plain hr).2 ⟨hem, reached_deps_subset hp h hreach⟩
  · intro hd
    obtain ⟨more, again, hagain, hq'⟩ := exists_plain_of_ends hp' h'
    rw [hq', Dependencies.mem_ofList]
    exact (mem_concat_plain hagain).2 ⟨(reached_of_mem_deps hp h hd).1, d, hd, .refl⟩

theorem ends_from_collected (hp : p.deps = [])
    (h : Ends g.setup g.catalog sources p (.ok ()) q) (p' : Progress) (hp' : p'.deps = []) :
    ∃ q', Ends g.setup g.catalog q.deps p' (.ok ()) q' ∧ (∀ a, a ∈ q'.deps ↔ a ∈ q.deps) ∧
      (g.AcyclicFrom sources → q'.deps = q.deps) := by
  have hsub := reached_deps_subset hp h
  obtain ⟨hfinite, hbroken⟩ := (ends_ok_iff_finite hp).1 ⟨q, h⟩
  obtain ⟨q', h'⟩ := ends_ok_of_finite (hfinite.subset hsub) (fun a ha => hbroken a (hsub ha)) p'
  refine ⟨q', h', fun a => mem_again_iff hp h hp' h', ?_⟩
  intro hacyclic
  obtain ⟨depth, refs, hr, hq⟩ := exists_plain_of_ends hp h
  obtain ⟨more, again, hagain, hq'⟩ := exists_plain_of_ends hp' h'
  rw [hq] at hagain
  rw [hq', hq, ofList_again hacyclic hr hagain]

theorem dependencies_eq_ok_iff {roots : Roots} {base : String} {files : Snapshot}
    {deps : Dependencies} :
    (dependencies roots base files sources).1 = .ok deps ↔
      ∃ q, Ends ⟨roots, base, default⟩ files.catalog sources {} (.ok ()) q ∧ q.deps = deps := by
  have hends := ends_gather ⟨roots, base, default⟩ files sources {}
  unfold dependencies
  rcases hgather : gather ⟨roots, base, default⟩ files sources {} with ⟨fault | ⟨⟩, q⟩ <;>
    rw [hgather] at hends
  · constructor
    · intro h
      cases h
    · rintro ⟨q', h, -⟩
      cases hgather.symm.trans (gather_eq_iff.2 h)
  · constructor
    · intro h
      cases h
      exact ⟨q, hends, rfl⟩
    · rintro ⟨q', h, rfl⟩
      cases hgather.symm.trans (gather_eq_iff.2 h)
      rfl

/-- A crawl of what a crawl from nothing has come to, from nothing as well, succeeds and comes to the
same references, in the same order if the sources lead into no cycle; and so do the dependencies of the
dependencies. -/
theorem collected_from_collected :
    (∀ (g : IncludeGraph) (sources : List String) (p q p' : Progress),
      p.deps = [] → p'.deps = [] → Ends g.setup g.catalog sources p (.ok ()) q →
        ∃ q', Ends g.setup g.catalog q.deps p' (.ok ()) q' ∧ (∀ a, a ∈ q'.deps ↔ a ∈ q.deps) ∧
          (g.AcyclicFrom sources → q'.deps = q.deps)) ∧
    ∀ (roots : Roots) (base : String) (files : Snapshot) (sources : List String)
        (deps : Dependencies), (dependencies roots base files sources).1 = .ok deps →
      ∃ again, (dependencies roots base files deps).1 = .ok again ∧ (∀ a, a ∈ again ↔ a ∈ deps) ∧
        ((ofSnapshot ⟨roots, base, default⟩ files).AcyclicFrom sources → again = deps) := by
  constructor
  · intro g sources p q p' hp hp' h
    exact ends_from_collected hp h p' hp'
  · intro roots base files sources deps hdeps
    obtain ⟨q, h, rfl⟩ := dependencies_eq_ok_iff.1 hdeps
    obtain ⟨q', h', hmem, horder⟩ :=
      ends_from_collected (g := .ofSnapshot ⟨roots, base, default⟩ files) rfl h {} rfl
    exact ⟨q'.deps, dependencies_eq_ok_iff.2 ⟨q', h', rfl⟩, hmem, horder⟩

theorem collected_from_collected_diamond :
    let roots := diamond.setup.roots
    let deps := ["D", "B", "C", "A"]
    (dependencies roots "Assets" diamondFiles ["A"]).1 = .ok deps ∧
      (diamond.withPolicy default).AcyclicFrom ["A"] ∧
      (∃ again, (dependencies roots "Assets" diamondFiles deps).1 = .ok again ∧
        (∀ a, a ∈ again ↔ a ∈ deps) ∧ again = deps) ∧
      diamond.AcyclicFrom ["A"] ∧
      ∃ q', Ends diamond.setup diamond.catalog deps {} (.ok ()) q' ∧
        (∀ a, a ∈ q'.deps ↔ a ∈ deps) ∧ q'.deps = deps := by
  intro roots deps
  have hdeps : (dependencies roots "Assets" diamondFiles ["A"]).1 = .ok deps := by decide
  have hacyclic : (diamond.withPolicy default).AcyclicFrom ["A"] :=
    fun a _ => acyclic_diamond.withPolicy default a
  have hacyclic' : diamond.AcyclicFrom ["A"] := fun a _ => acyclic_diamond a
  obtain ⟨again, hagain, hmem, horder⟩ :=
    collected_from_collected.2 roots "Assets" diamondFiles ["A"] deps hdeps
  obtain ⟨q', hends, hmem', horder'⟩ :=
    collected_from_collected.1 diamond ["A"] {} _ {} rfl rfl ends_diamond
  exact ⟨hdeps, hacyclic, ⟨again, hagain, hmem, horder hacyclic⟩, hacyclic',
    q', hends, hmem', horder' hacyclic'⟩

/-- Two files that include each other, each of them behind the other. -/
def knotFiles : Snapshot :=
  Store.Memory.snapshot
    { files := [("Assets/A", listing ["B", "self"]), ("Assets/B", listing ["A", "self"])] }

/-- The second crawl enters the cycle at its other file. -/
example :
    (dependencies diamond.setup.roots "Assets" knotFiles ["A"]).1 = .ok ["B", "A"] ∧
      (dependencies diamond.setup.roots "Assets" knotFiles ["B", "A"]).1 = .ok ["A", "B"] := by
  decide

end IncludeGraph

end ShaderIncludes
