import ShaderIncludes.Crawl

/-!
# The calls of a crawl, in order

A crawl makes its calls in whole look-ups, one after the other: the paths of one reference are probed
in order up to the first at which there is a file, and that file is read at once. Main statement: no
call is made in any other way, whatever the catalog answers, however the crawl ends and wherever it is
cut short (`gatherWithin_inOrder`). The catalog may change its answers between any two calls, so the
relations below carry the calls that have been made before.
-/
namespace ShaderIncludes

/-- The path that a call reads. -/
def Call.readPath? : Call → Option String
  | .read path => some path
  | .probe _ | .refresh => none

/-- Where a note says that a file was found. -/
def Note.place? : Note → Option String
  | .located _ place => some place
  | .refreshing | .markerFound _ _ | .warned _ => none

/-! ## Look-ups -/

namespace Lookup

/-- The calls by which the paths are probed, after those of `before`, and the one at which there is a
file. None is probed behind that one, and all are if there is none. -/
inductive Probes (c : Catalog) :
    (before : List Call) → (paths : List String) → List Call → Option String → Prop where
  | nothing {before} : Probes c before [] [] none
  | hit {before path rest} (hpresent : c.present before path = true) :
      Probes c before (path :: rest) [.probe path] (some path)
  | miss {before path rest calls found} (habsent : c.present before path = false)
      (hrest : Probes c (before ++ [.probe path]) rest calls found) :
      Probes c before (path :: rest) (.probe path :: calls) found

variable {c : Catalog} {before calls more : List Call} {paths rest : List String}
  {place path : String} {found : Option String}

theorem Probes.append_of_none (h : Probes c before paths calls none)
    (hrest : Probes c (before ++ calls) rest more found) :
    Probes c before (paths ++ rest) (calls ++ more) found := by
  generalize hfound : (none : Option String) = missed at h
  induction h with
  | nothing => rwa [List.append_nil] at hrest
  | hit => cases hfound
  | miss habsent _ ih =>
    rw [← List.singleton_append, ← List.append_assoc] at hrest
    exact .miss habsent (ih hrest hfound)

theorem Probes.append_of_some (h : Probes c before paths calls (some place)) (rest : List String) :
    Probes c before (paths ++ rest) calls (some place) := by
  generalize hfound : some place = located at h ⊢
  induction h with
  | nothing => cases hfound
  | hit hpresent => exact .hit hpresent
  | miss habsent _ ih => exact .miss habsent (ih hfound)

/-- The last path that is probed is the one at which there is a file. -/
theorem Probes.exists_last (h : Probes c before paths calls (some place)) :
    ∃ earlier, calls = earlier ++ [.probe place] ∧ c.present (before ++ earlier) place = true := by
  generalize hfound : some place = located at h
  induction h with
  | nothing => cases hfound
  | hit hpresent =>
    cases hfound
    exact ⟨[], rfl, by rwa [List.append_nil]⟩
  | @miss before path rest calls found habsent _ ih =>
    obtain ⟨earlier, rfl, hpresent⟩ := ih hfound
    exact ⟨.probe path :: earlier, rfl, by rwa [← List.append_cons] at hpresent⟩

theorem Probes.exists_path (h : Probes c before paths calls found) :
    ∀ call ∈ calls, ∃ path, call = .probe path := by
  induction h with
  | nothing => simp
  | hit => simp
  | miss _ _ ih => simpa using ih

theorem Probes.readPath?_eq_none (h : Probes c before paths calls found) :
    ∀ call ∈ calls, call.readPath? = none := by
  intro call hcall
  obtain ⟨path, rfl⟩ := h.exists_path call hcall
  rfl

variable (c) (t : Trace)

theorem firstPresent?_probes (paths : List String) :
    ∃ calls, (firstPresent? c paths t).2 = t.append ⟨calls, []⟩ ∧
      Probes c t.calls paths calls (firstPresent? c paths t).1 := by
  induction paths generalizing t with
  | nil => exact ⟨[], t.append_empty.symm, .nothing⟩
  | cons path rest ih =>
    unfold firstPresent? Catalog.probe
    cases h : c.present t.calls path with
    | true =>
      refine ⟨[.probe path], ?_, .hit h⟩
      simp [Trace.append, Trace.addCall]
    | false =>
      obtain ⟨calls, htrace, hprobes⟩ := ih (t.addCall (.probe path))
      refine ⟨.probe path :: calls, ?_, .miss h hprobes⟩
      dsimp only
      rw [htrace]
      simp [Trace.append, Trace.addCall]

/-- The notes of a look-up in the folders: where the file is, if there is one. -/
def located (path : String) (found : Option String) : List Note :=
  (found.map (Note.located path)).toList

theorem inFolder?_probes (base path : String) :
    ∃ calls, (inFolder? c base path t).2 = t.append ⟨calls, located path (inFolder? c base path t).1⟩ ∧
      Probes c t.calls (candidates base path) calls (inFolder? c base path t).1 := by
  obtain ⟨calls, htrace, hprobes⟩ := firstPresent?_probes c t (candidates base path)
  unfold inFolder?
  rcases hfirst : firstPresent? c (candidates base path) t with ⟨_ | place, u⟩ <;>
    rw [hfirst] at htrace hprobes <;> dsimp only at htrace hprobes <;> subst htrace
  · exact ⟨calls, rfl, hprobes⟩
  · exact ⟨calls, Trace.append_addNote t _ _, hprobes⟩

theorem inFolders?_probes (path : String) (folders : List String) :
    ∃ calls, (inFolders? c path folders t).2 =
        t.append ⟨calls, located path (inFolders? c path folders t).1⟩ ∧
      Probes c t.calls (folders.flatMap (candidates · path)) calls
        (inFolders? c path folders t).1 := by
  induction folders generalizing t with
  | nil => exact ⟨[], t.append_empty.symm, .nothing⟩
  | cons folder rest ih =>
    obtain ⟨calls, htrace, hprobes⟩ := inFolder?_probes c t folder path
    unfold inFolders?
    rw [List.flatMap_cons]
    rcases hfolder : inFolder? c folder path t with ⟨_ | place, u⟩ <;>
      rw [hfolder] at htrace hprobes <;> dsimp only at htrace hprobes <;> subst htrace
    · obtain ⟨more, htrace', hprobes'⟩ := ih (t.append ⟨calls, []⟩)
      refine ⟨calls ++ more, ?_, hprobes.append_of_none hprobes'⟩
      exact htrace'.trans (Trace.append_assoc t _ _)
    · exact ⟨calls, rfl, hprobes.append_of_some _⟩

theorem find_probes (roots : Roots) (base : String) (ref : Reference) :
    ∃ calls notes, (find c roots base ref t).2 = t.append ⟨calls, notes⟩ ∧
      Probes c t.calls ((ref.folders roots base).flatMap (candidates · ref.path)) calls
        (find c roots base ref t).1.toOption ∧
      notes.filterMap Note.place? = (find c roots base ref t).1.toOption.toList := by
  obtain ⟨calls, htrace, hprobes⟩ := inFolders?_probes c t ref.path (ref.folders roots base)
  unfold find
  dsimp only
  rcases hfolders : inFolders? c ref.path (ref.folders roots base) t with ⟨_ | place, u⟩ <;>
    rw [hfolders] at htrace hprobes <;> dsimp only at htrace hprobes <;> subst htrace
  · exact ⟨calls, _, Trace.append_addNote t _ _, hprobes, rfl⟩
  · exact ⟨calls, _, rfl, hprobes, rfl⟩

end Lookup

namespace Crawl

/-- The paths at which the file of a reference is looked for, in order. -/
def Setup.places (s : Setup) (source : String) : List String :=
  let reference := Reference.ofString source
  (reference.folders s.roots s.base).flatMap (Lookup.candidates · reference.path)

/-- The calls are whole look-ups of references, each with a read of the file if there is one. -/
inductive Orderly (s : Setup) (c : Catalog) : (before : List Call) → List Call → Prop where
  | nil {before} : Orderly s c before []
  | lookup {before source probes found rest}
      (hprobes : Lookup.Probes c before (s.places source) probes found)
      (hrest : Orderly s c (before ++ (probes ++ (found.map Call.read).toList)) rest) :
      Orderly s c before (probes ++ (found.map Call.read).toList ++ rest)

/-- Just before a path is read it is probed, and the answer is that there is a file. -/
def ReadsProbed (c : Catalog) (before calls : List Call) : Prop :=
  ∀ front path back, calls = front ++ .read path :: back →
    ∃ earlier, front = earlier ++ [.probe path] ∧ c.present (before ++ earlier) path = true

/-- From the one record to the other there are whole look-ups, and each place that is noted is read. -/
def InOrder (s : Setup) (c : Catalog) (t u : Trace) : Prop :=
  ∃ calls notes, u = t.append ⟨calls, notes⟩ ∧ Orderly s c t.calls calls ∧
    calls.filterMap Call.readPath? = notes.filterMap Note.place?

variable {s : Setup} {c : Catalog} {before calls more : List Call} {t u v : Trace}
  {visit : String → Progress → Ending × Progress} {source : String} {stack : List String}

theorem Orderly.append (h : Orderly s c before calls) (hmore : Orderly s c (before ++ calls) more) :
    Orderly s c before (calls ++ more) := by
  induction h with
  | nil => rwa [List.append_nil] at hmore
  | lookup hprobes _ ih =>
    rw [List.append_assoc]
    rw [← List.append_assoc] at hmore
    exact .lookup hprobes (ih hmore)

theorem ReadsProbed.append (h : ReadsProbed c before calls)
    (hmore : ReadsProbed c (before ++ calls) more) : ReadsProbed c before (calls ++ more) := by
  intro front path back hsplit
  rcases List.append_eq_append_iff.1 hsplit with ⟨rest, rfl, hrest⟩ | ⟨rest, rfl, hrest⟩
  · obtain ⟨earlier, rfl, hpresent⟩ := hmore rest path back hrest
    rw [List.append_assoc] at hpresent
    exact ⟨calls ++ earlier, (List.append_assoc calls earlier _).symm, hpresent⟩
  · cases rest with
    | nil =>
      -- a read would be the first of the calls behind
      obtain ⟨earlier, hnil, -⟩ := hmore [] path back hrest.symm
      exact absurd hnil.symm (List.append_ne_nil_of_right_ne_nil _ (List.cons_ne_nil _ _))
    | cons call rest =>
      obtain ⟨rfl, -⟩ := List.cons_eq_cons.1 hrest
      exact h front path rest rfl

theorem readsProbed_of_probes {paths : List String} {found : Option String}
    (h : Lookup.Probes c before paths calls found) :
    ReadsProbed c before (calls ++ (found.map Call.read).toList) := by
  have hread : ∀ path, .read path ∉ calls := by
    intro path hmem
    cases h.readPath?_eq_none _ hmem
  intro front path back hsplit
  cases found with
  | none =>
    have hmem : .read path ∈ calls := by
      rw [← List.append_nil calls]
      exact hsplit ▸ List.mem_append_right front List.mem_cons_self
    exact absurd hmem (hread path)
  | some place =>
    rcases List.append_eq_append_iff.1 hsplit with ⟨rest, rfl, hrest⟩ | ⟨rest, rfl, hrest⟩
    · obtain ⟨rfl, hpath⟩ | ⟨-, hpath⟩ := List.singleton_eq_append_iff.1 hrest
      · cases hpath
        rw [List.append_nil]
        exact h.exists_last
      · cases hpath
    · cases rest with
      | nil =>
        cases hrest
        rw [List.append_nil] at h
        exact h.exists_last
      | cons call rest =>
        obtain ⟨rfl, -⟩ := List.cons_eq_cons.1 hrest
        exact absurd (List.mem_append_right front List.mem_cons_self) (hread path)

theorem Orderly.readsProbed (h : Orderly s c before calls) : ReadsProbed c before calls := by
  induction h with
  | nil =>
    intro front path back hsplit
    exact absurd hsplit.symm (List.append_ne_nil_of_right_ne_nil _ (List.cons_ne_nil _ _))
  | lookup hprobes _ ih => exact (readsProbed_of_probes hprobes).append ih

theorem Orderly.not_refresh (h : Orderly s c before calls) : .refresh ∉ calls := by
  induction h with
  | nil => exact List.not_mem_nil
  | @lookup _ _ _ found _ hprobes _ ih =>
    intro hmem
    rcases List.mem_append.1 hmem with hmem | hmem
    · rcases List.mem_append.1 hmem with hmem | hmem
      · obtain ⟨path, hpath⟩ := hprobes.exists_path _ hmem
        cases hpath
      · cases found <;> simp at hmem
    · exact ih hmem

theorem InOrder.refl (t : Trace) : InOrder s c t t :=
  ⟨[], [], t.append_empty.symm, .nil, rfl⟩

theorem InOrder.trans (h : InOrder s c t u) (h' : InOrder s c u v) : InOrder s c t v := by
  obtain ⟨calls, notes, rfl, horder, hreads⟩ := h
  obtain ⟨more, others, rfl, horder', hreads'⟩ := h'
  refine ⟨calls ++ more, notes ++ others, Trace.append_assoc t _ _, horder.append horder', ?_⟩
  rw [List.filterMap_append, List.filterMap_append, hreads, hreads']

theorem inOrder_warned (t : Trace) (fault : Fault) : InOrder s c t (t.addNote (.warned fault)) :=
  ⟨[], [.warned fault], by simp [Trace.append, Trace.addNote], .nil, rfl⟩

/-! ## What a step does -/

theorem fetch_inOrder (source : String) (p : Progress) :
    InOrder s c p.trace (fetch s c source p).2.trace := by
  obtain ⟨probes, notes, htrace, hprobes, hnotes⟩ :=
    Lookup.find_probes c p.trace s.roots s.base (.ofString source)
  have hreads : probes.filterMap Call.readPath? = [] :=
    List.filterMap_eq_nil_iff.2 hprobes.readPath?_eq_none
  unfold fetch
  rcases hfind : Lookup.find c s.roots s.base (.ofString source) p.trace with ⟨fault | place, u⟩ <;>
    rw [hfind] at htrace hprobes hnotes <;> dsimp only at htrace <;> subst htrace
  · have horder : InOrder s c p.trace (p.trace.append ⟨probes, notes⟩) := by
      refine ⟨probes ++ [] ++ [], notes, by simp, .lookup hprobes .nil, ?_⟩
      rw [List.append_nil, List.append_nil, hreads]
      exact hnotes.symm
    cases s.policy
    · exact horder
    · exact horder
    · exact horder
  · refine ⟨probes ++ [.read place] ++ [], notes, ?_, .lookup hprobes .nil, ?_⟩
    · rw [List.append_nil]
      exact Trace.append_addCall p.trace _ _
    · rw [List.append_nil, List.filterMap_append, hreads]
      exact hnotes.symm

theorem follow_inOrder (hvisit : ∀ a p, InOrder s c p.trace (visit a p).2.trace)
    (entries : List String) (p : Progress) :
    InOrder s c p.trace (follow visit source stack entries p).2.trace := by
  induction entries generalizing p with
  | nil => exact .refl p.trace
  | cons entry rest ih =>
    unfold follow
    split
    · exact ih (p.insert source)
    split
    · exact ih p
    split
    · exact (inOrder_warned p.trace _).trans (ih (p.warn (.recursive entry source)))
    have hentry := hvisit entry { p with deps := [] }
    rcases hv : visit entry { p with deps := [] } with ⟨_ | fault | _, q⟩ <;> rw [hv] at hentry
    · exact hentry.trans (ih { q with deps := p.deps.union q.deps })
    · exact hentry
    · exact hentry

/-- An expansion begins with a look-up, and goes on from there. -/
theorem expand_succ_inOrder {depth : Nat}
    (hvisit : ∀ stack a p, InOrder s c p.trace (expand s c depth stack a p).2.trace)
    (stack : List String) (source : String) (p : Progress) :
    InOrder s c (fetch s c source p).2.trace (expand s c (depth + 1) stack source p).2.trace := by
  unfold expand
  rcases fetch s c source p with ⟨fault | _ | text, q⟩
  · exact .refl q.trace
  · exact .refl q.trace
  · dsimp only
    split
    · exact .refl q.trace
    · exact .refl q.trace
    · exact follow_inOrder (hvisit (source :: stack)) _ q

theorem expand_inOrder (depth : Nat) (stack : List String) (source : String) (p : Progress) :
    InOrder s c p.trace (expand s c depth stack source p).2.trace := by
  induction depth generalizing stack source p with
  | zero => exact .refl p.trace
  | succ depth ih => exact (fetch_inOrder source p).trans (expand_succ_inOrder ih stack source p)

theorem visitAll_inOrder (hvisit : ∀ a p, InOrder s c p.trace (visit a p).2.trace)
    (sources : List String) (p : Progress) :
    InOrder s c p.trace (visitAll visit sources p).2.trace := by
  induction sources generalizing p with
  | nil => exact .refl p.trace
  | cons source rest ih =>
    have hsource := hvisit source p
    unfold visitAll
    rcases hv : visit source p with ⟨_ | fault | _, q⟩ <;> rw [hv] at hsource
    · exact hsource.trans (ih q)
    · exact hsource
    · exact hsource

/-- Whatever a catalog answers and however a crawl ends, its calls are whole look-ups, one after the
other, with one read behind each that finds a file and none behind any other. So a path is read at
once when it has been found, nothing is refreshed, and what is read is what the notes say has been
found, in the same order. The depth may be any, so this goes for all that a crawl without an end has
done at any time too. -/
theorem gatherWithin_inOrder (s : Setup) (c : Catalog) (depth : Nat) (sources : List String)
    (p : Progress) :
    ∃ calls notes,
      (gatherWithin depth s c sources p).2.trace = p.trace.append ⟨calls, notes⟩ ∧
      Orderly s c p.trace.calls calls ∧
      (∀ front path back, calls = front ++ .read path :: back →
        ∃ earlier, front = earlier ++ [.probe path] ∧
          c.present (p.trace.calls ++ earlier) path = true) ∧
      .refresh ∉ calls ∧
      calls.filterMap Call.readPath? = notes.filterMap Note.place? := by
  obtain ⟨calls, notes, htrace, horder, hreads⟩ :=
    visitAll_inOrder (expand_inOrder (s := s) (c := c) depth []) sources p
  exact ⟨calls, notes, htrace, horder, horder.readsProbed, horder.not_refresh, hreads⟩

/-- A bundled file that comes into being while it is looked for, and a missing one. -/
example :
    let c : Catalog := ⟨fun before _ => before.length = 5, fun _ _ => .ok []⟩
    (gatherWithin 1 ⟨⟨"P", "S"⟩, "B", .omit⟩ c ["@/X", "Y"] {}).2.trace =
      ⟨[.probe "P/X", .probe "P/X.orlsource", .probe "P/X.orlshader", .probe "P/X.orltemplate",
          .probe "S/X", .probe "S/X.orlsource", .read "S/X.orlsource",
          .probe "B/Y", .probe "B/Y.orlsource", .probe "B/Y.orlshader", .probe "B/Y.orltemplate"],
        [.located "X" "S/X.orlsource", .warned (.missing "Y" ["B"])]⟩ := by
  decide

end Crawl

end ShaderIncludes
