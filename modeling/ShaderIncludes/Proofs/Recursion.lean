import ShaderIncludes.Proofs.Collected

/-!
# Warnings of recursive includes

A warning of a recursive include tells of a true cycle, and where there is a cycle there is a
warning, though an entry that has been collected is passed over without one
(`warns_iff_circular`). The file that lists itself behind `self` is the one exception: it is
collected by then, and nothing is said.

What carries the second part is that a crawl without such a warning shows all it has collected, and
all it has gone through, to lead into no cycle at all.
-/
namespace ShaderIncludes

open Relation (TransGen)

namespace Crawl

variable {s : Setup} {c : Catalog} {stack sources : List String} {task : Task}
  {outcome : Except Fault Unit} {p q r : Progress} {kind kind' : Fault → Prop}

def Task.source : Task → String
  | .reference source | .entries source _ => source

/-- The warnings stored between `p` and `q` are all of one kind. -/
def Warns (kind : Fault → Prop) (p q : Progress) : Prop :=
  ∃ new, q.warnings = p.warnings ++ new ∧ ∀ fault ∈ new, kind fault

theorem Warns.refl (p : Progress) : Warns kind p p :=
  ⟨[], (List.append_nil _).symm, fun _ h => absurd h List.not_mem_nil⟩

theorem Warns.trans (hpr : Warns kind p r) (hrq : Warns kind r q) : Warns kind p q := by
  obtain ⟨new, hr, hnew⟩ := hpr
  obtain ⟨more, hq, hmore⟩ := hrq
  exact ⟨new ++ more, by rw [hq, hr, List.append_assoc], List.forall_mem_append.2 ⟨hnew, hmore⟩⟩

theorem Warns.mono (hkind : ∀ fault, kind fault → kind' fault) (h : Warns kind p q) :
    Warns kind' p q := by
  obtain ⟨new, hq, hnew⟩ := h
  exact ⟨new, hq, fun fault hf => hkind fault (hnew fault hf)⟩

theorem Warns.prefix_warnings (h : Warns kind p q) : p.warnings <+: q.warnings := by
  obtain ⟨new, hq, -⟩ := h
  exact ⟨new, hq.symm⟩

theorem Warns.split (h : Warns kind p q) (hpr : p.warnings <+: r.warnings)
    (hrq : r.warnings <+: q.warnings) : Warns kind p r ∧ Warns kind r q := by
  obtain ⟨all, hq, hall⟩ := h
  obtain ⟨new, hr⟩ := hpr
  obtain ⟨more, hm⟩ := hrq
  have hsplit : all = new ++ more := by
    rw [← hm, ← hr, List.append_assoc] at hq
    exact (List.append_cancel_left hq).symm
  rw [hsplit, List.forall_mem_append] at hall
  exact ⟨⟨new, hr.symm, hall.1⟩, ⟨more, hm.symm, hall.2⟩⟩

theorem warns_warn {fault : Fault} (h : kind fault) : Warns kind p (p.warn fault) :=
  ⟨[fault], rfl, List.forall_mem_singleton.2 h⟩

theorem of_warns_warn {fault : Fault} (h : Warns kind p (p.warn fault)) : kind fault := by
  obtain ⟨new, hnew, hkind⟩ := h
  obtain rfl : [fault] = new := List.append_cancel_left hnew
  exact hkind fault List.mem_cons_self

theorem warns_look {node : Node} {source : String} (h : look s c source p = (node, q)) :
    Warns (fun fault => fault.isMissing = true) p q := by
  have hq : q = (fetch s c source p).2 := by rw [← look_snd, h]
  rw [hq]
  unfold fetch
  split
  · exact .refl _
  · rename_i fault _ hfind
    have hmissing : ∀ other ∈ [fault], other.isMissing = true :=
      List.forall_mem_singleton.2 (Lookup.isMissing_of_find hfind)
    split
    · exact .refl _
    · exact ⟨_, rfl, hmissing⟩
    · exact ⟨_, rfl, hmissing⟩

theorem Runs.prefix_warnings (h : Runs s c stack task p outcome q) :
    p.warnings <+: q.warnings := by
  induction h with
  | broken hlook | absent hlook | leaf hlook => exact (warns_look hlook).prefix_warnings
  | list hlook _ ih => exact (warns_look hlook).prefix_warnings.trans ih
  | nil => exact List.prefix_refl _
  | self _ ih | collected _ _ _ ih | failed _ _ _ _ ih => exact ih
  | recursive _ _ _ _ ih => exact (List.prefix_append _ [_]).trans ih
  | expanded _ _ _ _ _ ihentry ihrest => exact ihentry.trans ihrest

end Crawl

namespace IncludeGraph

open Crawl

/-- The entries in front of the first `self`. -/
def front (entries : List String) : List String := entries.takeWhile (· ≠ Includes.selfEntry)

/-- The list of the reference names the reference itself, in front of the first `self`. -/
def ListsItself (g : IncludeGraph) (a : String) : Prop :=
  ∃ entries, g.node a = .list entries ∧ a ∈ front entries

/-- The reference lies on a cycle through two references at least, or lists itself. -/
def Circular (g : IncludeGraph) (a : String) : Prop :=
  g.ListsItself a ∨ ∃ b, b ≠ a ∧ g.Reaches a b ∧ g.Reaches b a

/-- The reference leads into no cycle. -/
def Straight (g : IncludeGraph) (a : String) : Prop := ∀ b, g.Reaches a b → ¬ g.Circular b

/-- A warning of a recursive include is true, and of a reference that `top` leads to. -/
def Justified (g : IncludeGraph) (top : String) : Fault → Prop
  | .recursive file origin =>
    g.Reaches top origin ∧ g.Edge origin file ∧ g.Reaches file origin ∧
      (file = origin → g.ListsItself origin)
  | _ => True

def NotRecursive (fault : Fault) : Prop := ∀ file origin, fault ≠ .recursive file origin

variable {g : IncludeGraph} {stack entries sources : List String} {a b source : String}
  {task : Task} {outcome : Except Fault Unit} {p q : Progress} {fault : Fault}

theorem mem_front_cons {entry : String} {rest : List String} :
    a ∈ front (entry :: rest) ↔ entry ≠ Includes.selfEntry ∧ (a = entry ∨ a ∈ front rest) := by
  by_cases h : entry = Includes.selfEntry <;> simp [front, h]

theorem mem_front_append {before rest : List String} (hself : a ≠ Includes.selfEntry)
    (hbefore : Includes.selfEntry ∉ before) : a ∈ front (before ++ a :: rest) := by
  induction before with
  | nil => exact mem_front_cons.2 ⟨hself, .inl rfl⟩
  | cons b before ih =>
    have hb : b ≠ Includes.selfEntry := (List.ne_of_not_mem_cons hbefore).symm
    exact mem_front_cons.2 ⟨hb, .inr (ih (List.not_mem_of_not_mem_cons hbefore))⟩

theorem Justified.mono (hab : g.Reaches a b) (h : g.Justified b fault) : g.Justified a fault := by
  cases fault with
  | recursive file origin => exact ⟨hab.trans h.1, h.2⟩
  | _ => exact trivial

theorem justified_of_isMissing (h : fault.isMissing = true) : g.Justified a fault := by
  cases fault with
  | missing => exact trivial
  | _ => cases h

/-! ## Warnings are true -/

/-- What is known when a task is begun: all references under expansion lead to its source, and of the
source's list the entries before have been gone through. -/
def Begun (g : IncludeGraph) (stack : List String) (p : Progress) : Task → Prop
  | .reference source => ∀ a ∈ stack, g.Reaches a source
  | .entries source rest => (∀ a ∈ stack, g.Reaches a source) ∧
      ∃ before, g.node source = .list (before ++ rest) ∧
        (Includes.selfEntry ∈ before → source ∈ p.deps)

theorem Begun.edge {entry : String} {rest : List String}
    (h : g.Begun stack p (.entries source (entry :: rest))) (hself : entry ≠ Includes.selfEntry) :
    g.Edge source entry := by
  obtain ⟨-, before, hn, -⟩ := h
  exact (edge_iff_mem hn).2 ⟨List.mem_append_right _ List.mem_cons_self, hself⟩

theorem Begun.entry {entry : String} {rest : List String}
    (h : g.Begun stack p (.entries source (entry :: rest))) (hself : entry ≠ Includes.selfEntry)
    (r : Progress) : g.Begun stack r (.reference entry) :=
  fun a ha => (h.1 a ha).tail (h.edge hself)

theorem Begun.next {entry : String} {rest : List String} {r : Progress}
    (h : g.Begun stack p (.entries source (entry :: rest))) (hsub : p.deps ⊆ r.deps)
    (hself : entry = Includes.selfEntry → source ∈ r.deps) :
    g.Begun stack r (.entries source rest) := by
  obtain ⟨hstack, before, hn, hbefore⟩ := h
  refine ⟨hstack, before ++ [entry], by rw [hn, List.append_assoc]; rfl, ?_⟩
  intro hmem
  rcases List.mem_append.1 hmem with hmem | hmem
  · exact hsub (hbefore hmem)
  · exact hself (List.mem_singleton.1 hmem).symm

theorem Begun.listsItself {rest : List String}
    (h : g.Begun stack p (.entries source (source :: rest))) (hself : source ≠ Includes.selfEntry)
    (hdeps : source ∉ p.deps) : g.ListsItself source := by
  obtain ⟨-, before, hn, hbefore⟩ := h
  exact ⟨_, hn, mem_front_append hself fun hmem => hdeps (hbefore hmem)⟩

theorem warns_justified (h : Runs g.setup g.catalog stack task p outcome q)
    (hbegun : g.Begun stack p task) : Warns (g.Justified task.source) p q := by
  induction h with
  | broken hlook | absent hlook | leaf hlook =>
    exact (warns_look hlook).mono fun _ => justified_of_isMissing
  | @list stack source p q r entries _ hlook _ ih =>
    have hstack : ∀ a ∈ source :: stack, g.Reaches a source :=
      List.forall_mem_cons.2 ⟨.refl, hbegun⟩
    have hlist := ih ⟨hstack, [], node_of_look hlook, fun h => absurd h List.not_mem_nil⟩
    exact ((warns_look hlook).mono fun _ => justified_of_isMissing).trans hlist
  | nil => exact .refl _
  | self _ ih =>
    apply ih (hbegun.next _ _)
    · exact (Dependencies.prefix_union _ [_]).subset
    · intro _
      exact Dependencies.mem_insert.2 (.inr rfl)
  | collected hself _ _ ih =>
    exact ih (hbegun.next (List.Subset.refl _) fun he => absurd he hself)
  | @recursive stack source entry rest p q _ hself hdeps hstack _ ih =>
    have hjust : g.Justified source (.recursive entry source) := by
      refine ⟨.refl, hbegun.edge hself, hbegun.1 entry hstack, ?_⟩
      rintro rfl
      exact hbegun.listsItself hself hdeps
    exact (warns_warn hjust).trans
      (ih (hbegun.next (List.Subset.refl _) fun he => absurd he hself))
  | expanded hself _ _ _ _ ihentry ihrest =>
    have hentry := ihentry (hbegun.entry hself _)
    apply (hentry.mono fun _ => Justified.mono (.single (hbegun.edge hself))).trans
    apply ihrest (hbegun.next _ fun he => absurd he hself)
    exact (Dependencies.prefix_union _ _).subset
  | failed hself _ _ _ ih =>
    have hentry := ih (hbegun.entry hself _)
    exact hentry.mono fun _ => Justified.mono (.single (hbegun.edge hself))

theorem warns_justified_of_ends (h : Ends g.setup g.catalog sources p outcome q) :
    Warns (fun fault => ∃ source ∈ sources, g.Justified source fault) p q := by
  induction sources generalizing p with
  | nil =>
    rw [(ends_nil_iff.1 h).2]
    exact .refl p
  | cons source rest ih =>
    have hbegun : g.Begun [] p (.reference source) := fun a ha => absurd ha List.not_mem_nil
    have htop : ∀ fault, g.Justified source fault →
        ∃ top ∈ source :: rest, g.Justified top fault :=
      fun fault hf => ⟨source, List.mem_cons_self, hf⟩
    rcases ends_cons_iff.1 h with ⟨r, hsource, hrest⟩ | ⟨fault, -, hsource⟩
    · refine ((warns_justified hsource hbegun).mono htop).trans ((ih hrest).mono ?_)
      rintro fault ⟨top, ht, hf⟩
      exact ⟨top, List.mem_cons_of_mem source ht, hf⟩
    · exact (warns_justified hsource hbegun).mono htop

/-! ## No cycle without a warning -/

theorem straight_of_node (hn : ∀ entries, g.node a ≠ .list entries) : g.Straight a := by
  have hreach : ∀ b, g.Reaches a b → b = a := fun b hb => eq_of_avoids hn (avoids_nil.2 hb)
  intro b hb hcircular
  obtain rfl := hreach b hb
  rcases hcircular with ⟨entries, he, -⟩ | ⟨c, hne, hc, -⟩
  · exact hn entries he
  · exact hne (hreach c hc)

theorem straight_of_entries (hn : g.node source = .list entries)
    (hentries : ∀ entry ∈ entries, entry ≠ Includes.selfEntry → entry = source ∨ g.Straight entry)
    (hlists : ¬ g.ListsItself source) : g.Straight source := by
  have hreach : ∀ b, g.Reaches source b → b = source ∨ ∃ entry, g.Straight entry ∧
      g.Reaches entry b := by
    intro b hb
    induction hb with
    | refl => exact .inl rfl
    | @tail c d _ hcd ih =>
      rcases ih with rfl | ⟨entry, hentry, hc⟩
      · obtain ⟨hmem, hself⟩ := (edge_iff_mem hn).1 hcd
        rcases hentries d hmem hself with rfl | hd
        · exact .inl rfl
        · exact .inr ⟨d, hd, .refl⟩
      · exact .inr ⟨entry, hentry, hc.tail hcd⟩
  intro b hb hcircular
  rcases hreach b hb with rfl | ⟨entry, hentry, he⟩
  · rcases hcircular with hl | ⟨c, hne, hbc, hcb⟩
    · exact hlists hl
    -- the way from the other reference of the cycle back comes through an entry
    · rcases hreach c hbc with rfl | ⟨entry, hentry, he⟩
      · exact hne rfl
      · exact hentry b (he.trans hcb) (.inr ⟨c, hne, hbc, hcb⟩)
  · exact hentry b he hcircular

/-- What is shown straight by a task that ends well without a warning of a recursive include. Of a
source that is being expanded it can only be said that, if it lists itself, it is collected. -/
def ShownStraight (g : IncludeGraph) (stack : List String) (p q : Progress) : Task → Prop
  | .reference source => (∀ a ∈ p.deps, g.Straight a) →
      g.Straight source ∧ ∀ a ∈ q.deps, g.Straight a
  | .entries source rest => source ∈ stack → (∀ a ∈ p.deps, a = source ∨ g.Straight a) →
      (∀ a ∈ q.deps, a = source ∨ g.Straight a) ∧
      (∀ entry ∈ rest, entry ≠ Includes.selfEntry → entry = source ∨ g.Straight entry) ∧
      (source ∈ front rest → source ∈ p.deps)

theorem shownStraight_of_runs (h : Runs g.setup g.catalog stack task p outcome q)
    (hok : outcome = .ok ()) (hquiet : Warns NotRecursive p q) : g.ShownStraight stack p q task := by
  induction h with
  | broken | failed => cases hok
  | absent hlook =>
    intro hdeps
    rw [deps_look hlook]
    exact ⟨straight_of_node (by simp [node_of_look hlook]), hdeps⟩
  | @leaf _ source p q hlook =>
    intro hdeps
    have hsource : g.Straight source := straight_of_node (by simp [node_of_look hlook])
    refine ⟨hsource, fun a ha => ?_⟩
    rcases Dependencies.mem_insert.1 ha with ha | rfl
    · exact hdeps a (deps_look hlook ▸ ha)
    · exact hsource
  | @list stack source p q r entries _ hlook hlist ih =>
    intro hdeps
    have hgrows := (warns_look hlook).prefix_warnings
    have hrest := (hquiet.split hgrows hlist.prefix_warnings).2
    have hdeps' : ∀ a ∈ q.deps, a = source ∨ g.Straight a := by
      rw [deps_look hlook]
      exact fun a ha => .inr (hdeps a ha)
    obtain ⟨hfinal, hentries, hlists⟩ := ih hok hrest List.mem_cons_self hdeps'
    have hsource : g.Straight source := by
      by_cases hmem : source ∈ p.deps
      · exact hdeps source hmem
      apply straight_of_entries (node_of_look hlook) hentries
      rintro ⟨others, hn, hl⟩
      obtain rfl : entries = others := by simpa [node_of_look hlook] using hn
      exact hmem (deps_look hlook ▸ hlists hl)
    refine ⟨hsource, fun a ha => ?_⟩
    rcases hfinal a ha with rfl | ha
    · exact hsource
    · exact ha
  | nil =>
    intro _ hdeps
    exact ⟨hdeps, fun _ h => absurd h List.not_mem_nil, fun h => absurd h List.not_mem_nil⟩
  | @self _ source rest p _ _ _ ih =>
    intro hsource hdeps
    have hdeps' : ∀ a ∈ p.deps.insert source, a = source ∨ g.Straight a := by
      intro a ha
      rcases Dependencies.mem_insert.1 ha with ha | rfl
      · exact hdeps a ha
      · exact .inl rfl
    obtain ⟨hfinal, hentries, -⟩ := ih hok hquiet hsource hdeps'
    exact ⟨hfinal, List.forall_mem_cons.2 ⟨fun h => absurd rfl h, hentries⟩,
      fun hl => absurd rfl (mem_front_cons.1 hl).1⟩
  | @collected _ source entry rest p _ _ hself hmem _ ih =>
    intro hsource hdeps
    obtain ⟨hfinal, hentries, hlists⟩ := ih hok hquiet hsource hdeps
    refine ⟨hfinal, List.forall_mem_cons.2 ⟨fun _ => hdeps entry hmem, hentries⟩, ?_⟩
    intro hl
    rcases (mem_front_cons.1 hl).2 with rfl | hl
    · exact hmem
    · exact hlists hl
  | recursive _ _ _ hrest _ =>
    have hwarned := (hquiet.split (List.prefix_append _ _) hrest.prefix_warnings).1
    exact absurd rfl (of_warns_warn hwarned _ _)
  | @expanded stack source entry rest p q r _ hself hmem hstack hentry hrest ihentry ihrest =>
    intro hsource hdeps
    obtain ⟨hquiet', hquietrest⟩ := hquiet.split hentry.prefix_warnings hrest.prefix_warnings
    -- the entry is expanded into a set of its own, which is empty at first
    obtain ⟨hstraight, hnew⟩ := ihentry rfl hquiet' fun a ha => absurd ha List.not_mem_nil
    have hdeps' : ∀ a ∈ p.deps.union r.deps, a = source ∨ g.Straight a := by
      intro a ha
      rcases Dependencies.mem_union.1 ha with ha | ha
      · exact hdeps a ha
      · exact .inr (hnew a ha)
    obtain ⟨hfinal, hentries, hlists⟩ := ihrest hok hquietrest hsource hdeps'
    refine ⟨hfinal, List.forall_mem_cons.2 ⟨fun _ => .inr hstraight, hentries⟩, ?_⟩
    intro hl
    rcases (mem_front_cons.1 hl).2 with rfl | hl
    · exact absurd hsource hstack
    rcases Dependencies.mem_union.1 (hlists hl) with hl | hl
    · exact hl
    -- the source is on the stack, and nothing on it is collected below the entry
    · exact absurd hsource (avoids_of_mem_deps hstack hentry hl).not_mem

theorem straight_of_ends (hdeps : ∀ a ∈ p.deps, g.Straight a)
    (h : Ends g.setup g.catalog sources p (.ok ()) q) (hquiet : Warns NotRecursive p q) :
    ∀ source ∈ sources, g.Straight source := by
  induction sources generalizing p with
  | nil => exact fun _ h => absurd h List.not_mem_nil
  | cons source rest ih =>
    rcases ends_cons_iff.1 h with ⟨r, hsource, hrest⟩ | ⟨fault, hfault, -⟩
    · have hgrows := (warns_justified_of_ends hrest).prefix_warnings
      obtain ⟨hquiet', hquietrest⟩ := hquiet.split hsource.prefix_warnings hgrows
      obtain ⟨hstraight, hnew⟩ := shownStraight_of_runs hsource rfl hquiet' hdeps
      exact List.forall_mem_cons.2 ⟨hstraight, ih hnew hrest hquietrest⟩
    · cases hfault

theorem Justified.circular {top file origin : String}
    (h : g.Justified top (.recursive file origin)) : g.Circular origin := by
  obtain ⟨-, hedge, hback, hself⟩ := h
  by_cases heq : file = origin
  · exact .inl (hself heq)
  · exact .inr ⟨file, heq, .single hedge, hback⟩

/-- Every warning of a recursive include that a crawl from nothing adds is true, and it adds one if
and only if its sources lead to a cycle through two references at least or to a reference that lists
itself in front of the first `self`. In particular, where nothing goes in circles there is none. -/
theorem warns_iff_circular (hp : p.deps = [])
    (h : Ends g.setup g.catalog sources p (.ok ()) q) :
    ∃ new, q.warnings = p.warnings ++ new ∧
      (∀ file origin, .recursive file origin ∈ new →
        g.Edge origin file ∧ g.Reaches file origin) ∧
      ((∃ file origin, .recursive file origin ∈ new) ↔
        ∃ source ∈ sources, ∃ a, g.Reaches source a ∧ g.Circular a) ∧
      ((∀ source ∈ sources, ∀ a, g.Reaches source a → ¬ TransGen g.Edge a a) →
        ∀ file origin, .recursive file origin ∉ new) := by
  obtain ⟨new, hq, hnew⟩ := warns_justified_of_ends h
  refine ⟨new, hq, ?_, ⟨?_, ?_⟩, ?_⟩
  · intro file origin hmem
    obtain ⟨source, -, -, hedge, hback, -⟩ := hnew _ hmem
    exact ⟨hedge, hback⟩
  · rintro ⟨file, origin, hmem⟩
    obtain ⟨source, hs, hjust⟩ := hnew _ hmem
    exact ⟨source, hs, origin, hjust.1, hjust.circular⟩
  · rintro ⟨source, hs, a, hreach, hcircular⟩
    by_contra hnone
    have hquiet : Warns NotRecursive p q := by
      refine ⟨new, hq, ?_⟩
      rintro fault hmem file origin rfl
      exact hnone ⟨file, origin, hmem⟩
    have hdeps : ∀ a ∈ p.deps, g.Straight a := by
      rw [hp]
      exact fun a ha => absurd ha List.not_mem_nil
    exact straight_of_ends hdeps h hquiet source hs a hreach hcircular
  · intro hacyclic file origin hmem
    obtain ⟨source, hs, hreach, hedge, hback, -⟩ := hnew _ hmem
    exact hacyclic source hs origin hreach (.head' hedge hback)

theorem warns_iff_circular_crossed :
    ∃ q, Ends crossed.setup crossed.catalog ["A", "B"] {} (.ok ()) q ∧
      .recursive "A" "B" ∈ q.warnings ∧
      ∃ new, q.warnings = [] ++ new ∧
        (∀ file origin, .recursive file origin ∈ new →
          crossed.Edge origin file ∧ crossed.Reaches file origin) ∧
        ((∃ file origin, .recursive file origin ∈ new) ↔
          ∃ source ∈ ["A", "B"], ∃ a, crossed.Reaches source a ∧ crossed.Circular a) ∧
        ((∀ source ∈ ["A", "B"], ∀ a, crossed.Reaches source a → ¬ TransGen crossed.Edge a a) →
          ∀ file origin, .recursive file origin ∉ new) :=
  ⟨_, ends_crossed, by decide, warns_iff_circular rfl ends_crossed⟩

end IncludeGraph

end ShaderIncludes
