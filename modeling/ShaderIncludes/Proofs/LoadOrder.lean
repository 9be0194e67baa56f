import Mathlib.Data.List.Basic
import ShaderIncludes.Proofs.Collected

/-!
# The order of the dependencies

A file that says `self` behind some entries wants what these stand for in front of it. It gets it,
unless an entry leads back to the file: then the entry's own expansion may be under way when the
file comes to be, and it cannot be told which of the two is first.
-/
namespace ShaderIncludes

open Crawl
open Relation (TransGen)

/-- What is met first stands behind what has been met before it. -/
theorem Dependencies.exists_ofList_append_cons {front : List String} {f : String} (hf : f ∉ front)
    (back : List String) : ∃ rest, ofList (front ++ f :: back) = ofList front ++ f :: rest := by
  have hf' : f ∉ ofList front := fun h => hf (mem_ofList.1 h)
  obtain ⟨rest, hrest⟩ := prefix_union (ofList front ++ [f]) back
  refine ⟨rest, ?_⟩
  rw [ofList_append, union_cons, insert_eq_append hf', ← hrest, List.append_assoc,
    List.singleton_append]

/-- Of two members of a list, the one that is met first stays first. -/
theorem Dependencies.idxOf_ofList_lt {front back : List String} {d f : String} (hd : d ∈ front)
    (hf : f ∉ front) :
    (ofList (front ++ f :: back)).idxOf d < (ofList (front ++ f :: back)).idxOf f := by
  have hd' : d ∈ ofList front := mem_ofList.2 hd
  have hf' : f ∉ ofList front := fun h => hf (mem_ofList.1 h)
  obtain ⟨rest, hsplit⟩ := exists_ofList_append_cons hf back
  rw [hsplit, List.idxOf_append_of_mem hd', List.idxOf_append_of_notMem hf', List.idxOf_cons_self]
  exact List.idxOf_lt_length_of_mem hd'

namespace IncludeGraph

/-- Nothing but `self` follows `self`. -/
def SelfLast (entries : List String) : Prop :=
  entries.Pairwise fun a b => a = Includes.selfEntry → b = Includes.selfEntry

instance (entries : List String) : Decidable (SelfLast entries) :=
  inferInstanceAs (Decidable (List.Pairwise _ entries))

/-- The list of `f` has, in front of its first `self`, an entry that leads to `d` and not back to
`f`. -/
def MustPrecede (g : IncludeGraph) (d f : String) : Prop :=
  ∃ before rest entry, g.node f = .list (before ++ Includes.selfEntry :: rest) ∧
    Includes.selfEntry ∉ before ∧ entry ∈ before ∧ ¬ g.Reaches entry f ∧ g.Reaches entry d

variable {g : IncludeGraph} {visit : String → Option (List String)}
  {stack items refs front back sources : List String} {d f source : String} {p q : Progress}

/-- A place within a concatenation lies within one of its parts. -/
theorem concat_eq_append_cons (h : concat visit items = some (front ++ f :: back)) :
    ∃ left item right skipped inner outer, items = left ++ item :: right ∧
      concat visit left = some skipped ∧ visit item = some (inner ++ f :: outer) ∧
      front = skipped ++ inner := by
  induction items generalizing front with
  | nil => simp [concat_nil] at h
  | cons item items ih =>
    obtain ⟨first, others, hf, ho, hsplit⟩ := concat_cons_eq_some.1 h
    rcases List.append_eq_append_iff.1 hsplit with ⟨inner, rfl, hinner⟩ | ⟨inner, rfl, hinner⟩
    · cases inner with
      | nil =>
        have ho' : concat visit items = some ([] ++ f :: back) := by
          rw [ho, hinner]
          rfl
        obtain ⟨left, item', right, skipped, inner, outer, rfl, hl, hi, hfront⟩ := ih ho'
        refine ⟨item :: left, item', right, front ++ skipped, inner, outer, rfl, ?_, hi, ?_⟩
        · rw [List.append_nil] at hf
          exact concat_cons_eq_some.2 ⟨front, skipped, hf, hl, rfl⟩
        · rw [List.append_assoc, ← hfront, List.append_nil]
      | cons c inner =>
        obtain ⟨rfl, rfl⟩ := List.cons_eq_cons.1 hinner
        exact ⟨[], item, items, [], front, inner, rfl, rfl, hf, rfl⟩
    · subst hinner
      obtain ⟨left, item', right, skipped, inner', outer, rfl, hl, hi, rfl⟩ := ih ho
      refine ⟨item :: left, item', right, first ++ skipped, inner', outer, rfl, ?_, hi, ?_⟩
      · exact concat_cons_eq_some.2 ⟨first, skipped, hf, hl, rfl⟩
      · rw [List.append_assoc]

/-- What stands in front of a first occurrence stands in front of every other one. -/
theorem subset_of_append_eq {left right before rest : List String} {a : String}
    (h : left ++ a :: right = before ++ a :: rest) (ha : a ∉ before) : before ⊆ left := by
  rcases List.append_eq_append_iff.1 h with ⟨more, rfl, hmore⟩ | ⟨more, rfl, -⟩
  · cases more with
    | nil =>
      rw [List.append_nil]
      exact List.Subset.refl left
    | cons b more =>
      obtain ⟨rfl, -⟩ := List.cons_eq_cons.1 hmore
      exact absurd (List.mem_append_right left List.mem_cons_self) ha
  · exact List.subset_append_left before more

/-- In a plain expansion, every place of `f` is behind one of `d`. -/
theorem mem_front_of_plain {depth : Nat} (hs : source ∉ stack)
    (hstack : ∀ a ∈ stack, g.Reaches a source)
    (h : g.plain depth stack source = some (front ++ f :: back)) (hdf : g.MustPrecede d f)
    (hd : g.Emits d) : d ∈ front := by
  obtain ⟨before, rest, entry, hf, hbefore, hentry, hback, hreach⟩ := hdf
  induction depth generalizing stack source front back with
  | zero => cases h
  | succ depth ih =>
    unfold plain at h
    cases hn : g.node source with
    | broken fault => simp [hn] at h
    | absent => simp [hn] at h
    | leaf =>
      rw [hn, Option.some.injEq] at h
      have hmem : f ∈ [source] := by
        rw [h]
        exact List.mem_append_right front List.mem_cons_self
      rw [List.mem_singleton.1 hmem, hn] at hf
      cases hf
    | list entries =>
      rw [hn] at h
      obtain ⟨left, item, right, skipped, inner, outer, rfl, hl, hi, rfl⟩ :=
        concat_eq_append_cons h
      by_cases hself : item = Includes.selfEntry
      · -- `f` is the source itself, whose list has the entry in front of this `self`
        subst hself
        rw [branch_self, Option.some.injEq] at hi
        obtain ⟨rfl, hi⟩ | ⟨-, hi⟩ := List.singleton_eq_append_iff.1 hi
        · obtain ⟨rfl, rfl⟩ := List.cons_eq_cons.1 hi
          rw [hn, Node.list.injEq] at hf
          have hleft : entry ∈ left := subset_of_append_eq hf hbefore hentry
          have hne : entry ≠ Includes.selfEntry := fun he => hbefore (he ▸ hentry)
          have hclear : ∀ a ∈ source :: stack, ¬ g.Reaches entry a := by
            intro a ha hea
            rcases List.mem_cons.1 ha with rfl | ha
            · exact hback hea
            · exact hback (hea.trans (hstack a ha))
          have hav := avoids_of_reaches hclear hreach
          obtain ⟨part, hpart⟩ := exists_of_concat hl hleft
          have hpart' := (branch_of_not_mem hne hav.1).symm.trans hpart
          refine List.mem_append_left _ ((mem_concat hl).2 ⟨entry, hleft, part, hpart, ?_⟩)
          exact (mem_plain hav.1 hpart').2 ⟨hav, hd⟩
        · cases hi
      by_cases hitem : item ∈ source :: stack
      · rw [branch_of_mem hself hitem, Option.some.injEq] at hi
        exact absurd hi.symm (List.append_ne_nil_of_right_ne_nil _ (List.cons_ne_nil _ _))
      · rw [branch_of_not_mem hself hitem] at hi
        have hedge : g.Edge source item :=
          (edge_iff_mem hn).2 ⟨List.mem_append_right _ List.mem_cons_self, hself⟩
        have hstack' : ∀ a ∈ source :: stack, g.Reaches a item := by
          intro a ha
          rcases List.mem_cons.1 ha with rfl | ha
          · exact .single hedge
          · exact (hstack a ha).tail hedge
        exact List.mem_append_right _ (ih hitem hstack' hi)

theorem idxOf_lt_of_mustPrecede (hp : p.deps = [])
    (h : Ends g.setup g.catalog sources p (.ok ()) q) (hdf : g.MustPrecede d f)
    (hd : d ∈ q.deps) (hf : f ∈ q.deps) : q.deps.idxOf d < q.deps.idxOf f := by
  obtain ⟨depth, refs, hr, hq⟩ := exists_plain_of_ends hp h
  rw [hq, Dependencies.mem_ofList] at hd hf
  obtain ⟨hem, -⟩ := (mem_concat_plain hr).1 hd
  obtain ⟨front, back, rfl, hfront⟩ := List.eq_append_cons_of_mem hf
  obtain ⟨left, item, right, skipped, inner, outer, -, -, hi, rfl⟩ := concat_eq_append_cons hr
  have hinner : d ∈ inner := by
    apply mem_front_of_plain List.not_mem_nil _ hi hdf hem
    intro a ha
    cases ha
  rw [hq]
  exact Dependencies.idxOf_ofList_lt (List.mem_append_right skipped hinner) hfront

/-- A file that is in no circle, and whose list says nothing behind `self`, has to come behind all
that it leads to. -/
theorem mustPrecede_of_acyclic (hacyclic : ¬ TransGen g.Edge f f)
    (hlast : ∀ entries, g.node f = .list entries → SelfLast entries) (hf : g.Emits f)
    (hfd : TransGen g.Edge f d) : g.MustPrecede d f := by
  obtain ⟨entry, hedge, hreach⟩ := TransGen.head'_iff.1 hfd
  obtain ⟨entries, hn, hentry, hself⟩ := hedge
  obtain ⟨before, rest, rfl, hbefore⟩ := List.eq_append_cons_of_mem ((emits_iff_mem hn).1 hf)
  refine ⟨before, rest, entry, hn, hbefore, ?_, ?_, hreach⟩
  · rcases List.mem_append.1 hentry with hentry | hentry
    · exact hentry
    rcases List.mem_cons.1 hentry with rfl | hentry
    · exact absurd rfl hself
    · have hpair := (List.pairwise_append.1 (hlast _ hn)).2.1
      exact absurd ((List.pairwise_cons.1 hpair).1 entry hentry rfl) hself
  · intro hback
    exact hacyclic (.head' ((edge_iff_mem hn).2 ⟨hentry, hself⟩) hback)

/-- A dependency that an entry in front of `self` leads to comes before the file, unless the entry
leads back to the file. In particular, if the sources lead into no cycle and to no list that says
anything behind `self`, all that a file depends on comes before it. -/
theorem collected_in_load_order (hp : p.deps = [])
    (h : Ends g.setup g.catalog sources p (.ok ()) q) :
    (∀ f ∈ q.deps, ∀ d ∈ q.deps, g.MustPrecede d f → q.deps.idxOf d < q.deps.idxOf f) ∧
    (g.AcyclicFrom sources →
      (∀ a ∈ g.Reached sources, ∀ entries, g.node a = .list entries → SelfLast entries) →
      ∀ f ∈ q.deps, ∀ d ∈ q.deps, TransGen g.Edge f d → q.deps.idxOf d < q.deps.idxOf f) := by
  constructor
  · intro f hf d hd hdf
    exact idxOf_lt_of_mustPrecede hp h hdf hd hf
  · intro hacyclic hlast f hf d hd hfd
    obtain ⟨hem, hreached⟩ := reached_of_mem_deps hp h hf
    have hdf := mustPrecede_of_acyclic (hacyclic f hreached) (hlast f hreached) hem hfd
    exact idxOf_lt_of_mustPrecede hp h hdf hd hf

def diamondFiles : Snapshot :=
  Store.Memory.snapshot
    { files :=
        [("Assets/A", listing ["B", "C", "self"]), ("Assets/B", listing ["D", "self"]),
         ("Assets/C", listing ["D", "self"]), ("Assets/D.orlsource", ["float d;"])] }

/-- Two files that include a third one, and a file that includes both. -/
def diamond : IncludeGraph :=
  .ofSnapshot ⟨⟨"Packages/gen/Runtime/Sources", "/Packages/shaders/Runtime"⟩, "Assets", .leaf⟩
    diamondFiles

theorem ends_diamond : Ends diamond.setup diamond.catalog ["A"] {} (.ok ())
    (gather diamond.setup diamondFiles ["A"] {}).2 :=
  gather_eq_iff.1 (Prod.ext (by decide) rfl)

theorem acyclic_diamond : diamond.Acyclic := by
  refine acyclic_of_rank (fun a => if a = "D" then 0 else if a = "B" ∨ a = "C" then 1 else 2) ?_
  intro a b hab
  have hb : b = "B" ∨ b = "C" ∨ b = "D" := by
    have hmem := mem_allEntries_of_edge hab
    have hall : allEntries diamondFiles.texts = ["B", "C", "D"] := by decide
    simpa [hall] using hmem
  have hlist : ∀ c, c = "B" ∨ c = "C" → diamond.node c = .list ["D", "self"] := by
    rintro c (rfl | rfl) <;> decide
  have hleaf : diamond.node "D" = .leaf := by decide
  by_cases had : a = "D"
  · obtain ⟨entries, hn, -⟩ := hab
    rw [had, hleaf] at hn
    cases hn
  by_cases habc : a = "B" ∨ a = "C"
  · obtain ⟨hmem, hself⟩ := (edge_iff_mem (hlist a habc)).1 hab
    have hbd : b = "D" := by
      rcases List.mem_cons.1 hmem with hbd | hmem
      · exact hbd
      · exact absurd (List.mem_singleton.1 hmem) hself
    simp [hbd, had, habc]
  · rcases hb with rfl | rfl | rfl <;> simp [had, habc]

theorem selfLast_diamond (a : String) (entries : List String)
    (h : diamond.node a = .list entries) : SelfLast entries := by
  obtain ⟨text, ht, hi⟩ := exists_mem_texts h ""
  have hall : ∀ text ∈ diamondFiles.texts, ∀ entries ∈ (Includes.ofLines "" text).toOption.join,
      SelfLast entries := by decide
  exact hall text ht entries (by simp [hi, Except.toOption])

theorem collected_in_load_order_diamond :
    ∃ q, Ends diamond.setup diamond.catalog ["A"] {} (.ok ()) q ∧ q.deps = ["D", "B", "C", "A"] ∧
      diamond.AcyclicFrom ["A"] ∧
      (∀ a ∈ diamond.Reached ["A"], ∀ entries, diamond.node a = .list entries →
        SelfLast entries) ∧
      ∀ f ∈ q.deps, ∀ d ∈ q.deps, TransGen diamond.Edge f d →
        q.deps.idxOf d < q.deps.idxOf f := by
  have hacyclic : diamond.AcyclicFrom ["A"] := fun a _ => acyclic_diamond a
  have hlast : ∀ a ∈ diamond.Reached ["A"], ∀ entries, diamond.node a = .list entries →
      SelfLast entries := fun a _ => selfLast_diamond a
  exact ⟨_, ends_diamond, by decide, hacyclic, hlast,
    (collected_in_load_order rfl ends_diamond).2 hacyclic hlast⟩

end IncludeGraph

end ShaderIncludes
