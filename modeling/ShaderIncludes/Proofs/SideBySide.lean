import ShaderIncludes.Proofs.Rules

/-!
# Crawls side by side

Two crawls of the same files under two setups take the same way if all looks at references come to the
same under both, up to the faults that a function `blur` does not tell apart. Main statement: then
both crawls have an end or neither has one, and the ends are the same up to such faults
(`Parallel.endsAlike`). For a setup to come to the same as another one it is enough that it looks for
every reference at the same paths (`parallel_of_samePlaces`).
-/
namespace ShaderIncludes

/-- What is at a reference is the same in both cases, up to faults that `blur` does not tell apart. -/
inductive Node.Alike (blur : Fault → Fault) : Node → Node → Prop where
  | broken {fault fault'} (h : blur fault = blur fault') : Alike blur (.broken fault) (.broken fault')
  | absent : Alike blur .absent .absent
  | leaf : Alike blur .leaf .leaf
  | list (entries) : Alike blur (.list entries) (.list entries)

theorem Node.Alike.refl (blur : Fault → Fault) (node : Node) : node.Alike blur node := by
  cases node with
  | broken fault => exact .broken rfl
  | absent => exact .absent
  | leaf => exact .leaf
  | list entries => exact .list entries

theorem Node.Alike.symm {blur : Fault → Fault} {node node' : Node} (h : node.Alike blur node') :
    node'.Alike blur node := by
  cases h with
  | broken h => exact .broken h.symm
  | absent => exact .absent
  | leaf => exact .leaf
  | list entries => exact .list entries

namespace Crawl

/-- All references that are yet to be looked at are of this kind. -/
def Task.Due (Due : String → Prop) : Task → Prop
  | .reference source => Due source
  | .entries _ rest => ∀ entry ∈ rest, entry ≠ Includes.selfEntry → Due entry

theorem Task.Due.tail {Due : String → Prop} {source entry : String} {rest : List String}
    (h : Task.Due Due (.entries source (entry :: rest))) : Task.Due Due (.entries source rest) :=
  fun other ho => h other (List.mem_cons_of_mem entry ho)

/-- Progress that is alike stays so under the two setups, as long as the references looked at are of
the kind `Due`. -/
structure Parallel (s s' : Setup) (c : Catalog) (blur : Fault → Fault) (Due : String → Prop)
    (Alike : Progress → Progress → Prop) : Prop where
  deps_eq : ∀ {p p'}, Alike p p' → p.deps = p'.deps
  setDeps : ∀ {p p'} (deps : Dependencies), Alike p p' → Alike { p with deps } { p' with deps }
  warn : ∀ {p p'} (file origin : String), Alike p p' →
    Alike (p.warn (.recursive file origin)) (p'.warn (.recursive file origin))
  alike_look : ∀ {source p p'}, Due source → Alike p p' →
    (look s c source p).1.Alike blur (look s' c source p').1 ∧
      Alike (look s c source p).2 (look s' c source p').2
  due_of_list : ∀ {source p p' entries}, Due source → Alike p p' →
    (look s c source p).1 = .list entries → Task.Due Due (.entries source entries)

namespace Parallel

variable {s s' : Setup} {c : Catalog} {blur : Fault → Fault} {Due : String → Prop}
  {Alike : Progress → Progress → Prop} {stack sources : List String} {source : String} {task : Task}
  {outcome : Except Fault Unit} {node : Node} {p p' q q' r r' : Progress}

theorem symm (h : Parallel s s' c blur Due Alike) :
    Parallel s' s c blur Due fun p' p => Alike p p' where
  deps_eq hp := (h.deps_eq hp).symm
  setDeps deps hp := h.setDeps deps hp
  warn file origin hp := h.warn file origin hp
  alike_look hdue hp := ⟨(h.alike_look hdue hp).1.symm, (h.alike_look hdue hp).2⟩
  due_of_list {source p' p entries} hdue hp hlist := by
    -- the other look finds the same list
    have hnodes := (h.alike_look hdue hp).1
    rw [hlist] at hnodes
    cases hother : (look s c source p).1 with
    | list others =>
      rw [hother] at hnodes
      cases hnodes
      exact h.due_of_list hdue hp hother
    | _ =>
      rw [hother] at hnodes
      cases hnodes

theorem exists_look (h : Parallel s s' c blur Due Alike) (hdue : Due source) (hp : Alike p p')
    (hlook : look s c source p = (node, q)) :
    ∃ node' q', look s' c source p' = (node', q') ∧ node.Alike blur node' ∧ Alike q q' := by
  have halike := h.alike_look hdue hp
  rw [hlook] at halike
  exact ⟨_, _, rfl, halike⟩

theorem due_entries (h : Parallel s s' c blur Due Alike) (hdue : Due source) (hp : Alike p p')
    {entries : List String} (hlook : look s c source p = (.list entries, q)) :
    Task.Due Due (.entries source entries) :=
  h.due_of_list hdue hp (by rw [hlook])

theorem insert (h : Parallel s s' c blur Due Alike) (hp : Alike p p') (ref : String) :
    Alike (p.insert ref) (p'.insert ref) := by
  have hinsert := h.setDeps (p.deps.insert ref) hp
  unfold Progress.insert
  rwa [← h.deps_eq hp]

theorem fresh (h : Parallel s s' c blur Due Alike) (hp : Alike p p') :
    Alike { p with deps := [] } { p' with deps := [] } := h.setDeps [] hp

theorem join (h : Parallel s s' c blur Due Alike) (hp : Alike p p') (hr : Alike r r') :
    Alike { r with deps := p.deps.union r.deps } { r' with deps := p'.deps.union r'.deps } := by
  rw [← h.deps_eq hp, ← h.deps_eq hr]
  exact h.setDeps _ hr

theorem discard (h : Parallel s s' c blur Due Alike) (hp : Alike p p') (hr : Alike r r') :
    Alike { r with deps := p.deps } { r' with deps := p'.deps } := by
  rw [← h.deps_eq hp]
  exact h.setDeps _ hr

theorem exists_runs (h : Parallel s s' c blur Due Alike) (hrun : Runs s c stack task p outcome q)
    (hdue : task.Due Due) (hp : Alike p p') :
    ∃ outcome' q', Runs s' c stack task p' outcome' q' ∧
      outcome.mapError blur = outcome'.mapError blur ∧ Alike q q' := by
  induction hrun generalizing p' with
  | broken hlook =>
    obtain ⟨_, q', hlook', ⟨hfault⟩, hq⟩ := h.exists_look hdue hp hlook
    exact ⟨_, q', .broken hlook', congrArg Except.error hfault, hq⟩
  | absent hlook =>
    obtain ⟨_, q', hlook', ⟨⟩, hq⟩ := h.exists_look hdue hp hlook
    exact ⟨_, q', .absent hlook', rfl, hq⟩
  | leaf hlook =>
    obtain ⟨_, q', hlook', ⟨⟩, hq⟩ := h.exists_look hdue hp hlook
    exact ⟨_, _, .leaf hlook', rfl, h.insert hq _⟩
  | list hlook _ ih =>
    obtain ⟨_, q', hlook', ⟨⟩, hq⟩ := h.exists_look hdue hp hlook
    obtain ⟨outcome', r', hlist, houtcome, hr⟩ := ih (h.due_entries hdue hp hlook) hq
    exact ⟨outcome', r', .list hlook' hlist, houtcome, hr⟩
  | nil => exact ⟨_, p', .nil, rfl, hp⟩
  | self _ ih =>
    obtain ⟨outcome', q', hrest, houtcome, hq⟩ := ih hdue.tail (h.insert hp _)
    exact ⟨outcome', q', .self hrest, houtcome, hq⟩
  | collected hself hdeps _ ih =>
    obtain ⟨outcome', q', hrest, houtcome, hq⟩ := ih hdue.tail hp
    exact ⟨outcome', q', .collected hself (h.deps_eq hp ▸ hdeps) hrest, houtcome, hq⟩
  | recursive hself hdeps hstack _ ih =>
    obtain ⟨outcome', q', hrest, houtcome, hq⟩ := ih hdue.tail (h.warn _ _ hp)
    exact ⟨outcome', q', .recursive hself (h.deps_eq hp ▸ hdeps) hstack hrest, houtcome, hq⟩
  | expanded hself hdeps hstack _ _ ihentry ihrest =>
    obtain ⟨_, r', hentry, hdone, hr⟩ := ihentry (hdue _ List.mem_cons_self hself) (h.fresh hp)
    cases mapError_eq_ok.1 hdone.symm
    obtain ⟨outcome', q', hrest, houtcome, hq⟩ := ihrest hdue.tail (h.join hp hr)
    exact ⟨outcome', q', .expanded hself (h.deps_eq hp ▸ hdeps) hstack hentry hrest, houtcome, hq⟩
  | failed hself hdeps hstack _ ih =>
    obtain ⟨_, r', hentry, hfailed, hr⟩ := ih (hdue _ List.mem_cons_self hself) (h.fresh hp)
    obtain ⟨fault', rfl, hfault⟩ := mapError_eq_error.1 hfailed.symm
    exact ⟨_, _, .failed hself (h.deps_eq hp ▸ hdeps) hstack hentry, hfailed, h.discard hp hr⟩

theorem exists_ends (h : Parallel s s' c blur Due Alike) (hends : Ends s c sources p outcome q)
    (hdue : ∀ source ∈ sources, Due source) (hp : Alike p p') :
    ∃ outcome' q', Ends s' c sources p' outcome' q' ∧
      outcome.mapError blur = outcome'.mapError blur ∧ Alike q q' := by
  induction hends using Ends.induction generalizing p' with
  | nil p => exact ⟨_, p', ends_nil_iff.2 ⟨rfl, rfl⟩, rfl, hp⟩
  | next hsource _ ih =>
    obtain ⟨hfirst, hothers⟩ := List.forall_mem_cons.1 hdue
    obtain ⟨_, r', hsource', hdone, hr⟩ := h.exists_runs hsource hfirst hp
    cases mapError_eq_ok.1 hdone.symm
    obtain ⟨outcome', q', hrest, houtcome, hq⟩ := ih hothers hr
    exact ⟨outcome', q', ends_cons_iff.2 (.inl ⟨r', hsource', hrest⟩), houtcome, hq⟩
  | failed hsource =>
    obtain ⟨hfirst, -⟩ := List.forall_mem_cons.1 hdue
    obtain ⟨_, q', hsource', hfailed, hq⟩ := h.exists_runs hsource hfirst hp
    obtain ⟨fault', rfl, hfault⟩ := mapError_eq_error.1 hfailed.symm
    exact ⟨_, q', ends_cons_iff.2 (.inr ⟨fault', rfl, hsource'⟩), hfailed, hq⟩

end Parallel

end Crawl

/-! ## Lookups at the same paths -/

def Note.blurred (blur : Fault → Fault) : Note → Note
  | .warned fault => .warned (blur fault)
  | note => note

/-- The trace as far as `blur` does not do away with it: the calls stay as they are. -/
def Trace.blurred (blur : Fault → Fault) (t : Trace) : Trace :=
  { t with notes := t.notes.map (Note.blurred blur) }

theorem Trace.blurred_addNote (blur : Fault → Fault) (t : Trace) (note : Note) :
    (t.addNote note).blurred blur = (t.blurred blur).addNote (note.blurred blur) := by
  simp [Trace.blurred, Trace.addNote]

namespace Lookup

variable {s s' : Crawl.Setup} {c : Catalog} {blur : Fault → Fault} {ref : Reference} {t t' : Trace}

/-- Under both setups the reference is looked for at the same paths, and `blur` does not tell apart the
faults that it is missing there. -/
structure SamePlaces (blur : Fault → Fault) (s s' : Crawl.Setup) (ref : Reference) : Prop where
  places : (ref.folders s.roots s.base).map (Path.locate · ref.path) =
    (ref.folders s'.roots s'.base).map (Path.locate · ref.path)
  missing : blur (.missing ref.toString (ref.folders s.roots s.base)) =
    blur (.missing ref.toString (ref.folders s'.roots s'.base))

theorem firstPresent?_blurred (blur : Fault → Fault) (paths : List String) (t : Trace) :
    firstPresent? c paths (t.blurred blur) =
      ((firstPresent? c paths t).1, (firstPresent? c paths t).2.blurred blur) := by
  induction paths generalizing t with
  | nil => rfl
  | cons path rest ih =>
    have hcalls : (t.blurred blur).calls = t.calls := rfl
    unfold firstPresent? Catalog.probe
    rw [hcalls]
    cases c.present t.calls path with
    | true => rfl
    | false => exact ih (t.addCall (.probe path))

theorem inFolder?_blurred (blur : Fault → Fault) (base path : String) (t : Trace) :
    inFolder? c base path (t.blurred blur) =
      ((inFolder? c base path t).1, (inFolder? c base path t).2.blurred blur) := by
  unfold inFolder?
  rw [firstPresent?_blurred]
  rcases firstPresent? c (candidates base path) t with ⟨_ | place, t'⟩
  · rfl
  · exact Prod.ext rfl (Trace.blurred_addNote blur t' (.located path place)).symm

theorem inFolders?_blurred (blur : Fault → Fault) (path : String) (folders : List String) (t : Trace) :
    inFolders? c path folders (t.blurred blur) =
      ((inFolders? c path folders t).1, (inFolders? c path folders t).2.blurred blur) := by
  induction folders generalizing t with
  | nil => rfl
  | cons folder rest ih =>
    unfold inFolders?
    rw [inFolder?_blurred]
    rcases inFolder? c folder path t with ⟨_ | place, t'⟩
    · exact ih t'
    · rfl

/-- A folder is of account only by where it leads. -/
theorem inFolders?_congr {path : String} {folders folders' : List String}
    (h : folders.map (Path.locate · path) = folders'.map (Path.locate · path)) (t : Trace) :
    inFolders? c path folders t = inFolders? c path folders' t := by
  induction folders generalizing folders' t with
  | nil =>
    cases folders' with
    | nil => rfl
    | cons folder' rest' => cases h
  | cons folder rest ih =>
    cases folders' with
    | nil => cases h
    | cons folder' rest' =>
      obtain ⟨hplace, hrest⟩ := List.cons.inj h
      have hcandidates : candidates folder path = candidates folder' path := by
        dsimp only at hplace
        unfold candidates
        rw [hplace]
      have hfirst : inFolder? c folder path t = inFolder? c folder' path t := by
        unfold inFolder?
        rw [hcandidates]
      unfold inFolders?
      rw [hfirst]
      rcases inFolder? c folder' path t with ⟨_ | place, t'⟩
      · exact ih hrest t'
      · rfl

theorem inFolders?_alike {path : String} {folders folders' : List String}
    (h : folders.map (Path.locate · path) = folders'.map (Path.locate · path))
    (ht : t.blurred blur = t'.blurred blur) :
    (inFolders? c path folders t).1 = (inFolders? c path folders' t').1 ∧
      (inFolders? c path folders t).2.blurred blur =
        (inFolders? c path folders' t').2.blurred blur := by
  have hblurred := inFolders?_blurred (c := c) blur path folders t
  rw [ht, inFolders?_blurred, inFolders?_congr h t'] at hblurred
  obtain ⟨hfound, htrace⟩ := Prod.mk.inj hblurred
  exact ⟨hfound.symm, htrace.symm⟩

theorem find_alike (h : SamePlaces blur s s' ref) (ht : t.blurred blur = t'.blurred blur) :
    (find c s.roots s.base ref t).1.mapError blur =
        (find c s'.roots s'.base ref t').1.mapError blur ∧
      (find c s.roots s.base ref t).2.blurred blur =
        (find c s'.roots s'.base ref t').2.blurred blur := by
  obtain ⟨hfound, htrace⟩ := inFolders?_alike (c := c) h.places ht
  unfold find
  dsimp only
  generalize inFolders? c ref.path (ref.folders s.roots s.base) t = result,
    inFolders? c ref.path (ref.folders s'.roots s'.base) t' = result' at hfound htrace
  obtain ⟨found, u⟩ := result
  obtain ⟨found', u'⟩ := result'
  dsimp only at hfound htrace
  subst hfound
  cases found with
  | some place => exact ⟨rfl, htrace⟩
  | none =>
    refine ⟨congrArg Except.error h.missing, ?_⟩
    rw [Trace.blurred_addNote, Trace.blurred_addNote, htrace]
    exact congrArg (Trace.addNote _) (congrArg Note.warned h.missing)

end Lookup

namespace Crawl

/-- The same progress, up to the faults that `blur` does not tell apart. -/
structure Progress.Alike (blur : Fault → Fault) (p p' : Progress) : Prop where
  deps : p.deps = p'.deps
  warnings : p.warnings.map blur = p'.warnings.map blur
  trace : p.trace.blurred blur = p'.trace.blurred blur

variable {s s' : Setup} {c : Catalog} {blur : Fault → Fault} {Due : String → Prop} {source : String}
  {sources : List String} {p p' : Progress}

theorem Progress.Alike.refl (p : Progress) : p.Alike blur p := ⟨rfl, rfl, rfl⟩

theorem Progress.Alike.calls (h : p.Alike blur p') : p.trace.calls = p'.trace.calls := by
  have hcalls := congrArg Trace.calls h.trace
  exact hcalls

theorem Progress.Alike.store {fault fault' : Fault} (h : p.Alike blur p')
    (hfault : blur fault = blur fault') : (p.store fault).Alike blur (p'.store fault') := by
  refine ⟨h.deps, ?_, h.trace⟩
  simp [Progress.store, h.warnings, hfault]

theorem Progress.Alike.warn (h : p.Alike blur p') (fault : Fault) :
    (p.warn fault).Alike blur (p'.warn fault) := by
  have hnoted : Alike blur { p with trace := p.trace.addNote (.warned fault) }
      { p' with trace := p'.trace.addNote (.warned fault) } := by
    refine ⟨h.deps, h.warnings, ?_⟩
    rw [Trace.blurred_addNote, Trace.blurred_addNote, h.trace]
  exact hnoted.store rfl

theorem fetch_alike (hpolicy : s.policy = s'.policy)
    (hplaces : Lookup.SamePlaces blur s s' (.ofString source)) (hp : p.Alike blur p') :
    (fetch s c source p).1.mapError blur = (fetch s' c source p').1.mapError blur ∧
      (fetch s c source p).2.Alike blur (fetch s' c source p').2 := by
  obtain ⟨hfound, htrace⟩ := Lookup.find_alike (c := c) hplaces hp.trace
  unfold fetch
  rw [← hpolicy]
  generalize Lookup.find c s.roots s.base (.ofString source) p.trace = result,
    Lookup.find c s'.roots s'.base (.ofString source) p'.trace = result' at hfound htrace
  obtain ⟨found, t⟩ := result
  obtain ⟨found', t'⟩ := result'
  dsimp only at hfound htrace
  have halike : Progress.Alike blur { p with trace := t } { p' with trace := t' } :=
    ⟨hp.deps, hp.warnings, htrace⟩
  cases found with
  | ok place =>
    obtain rfl : found' = .ok place := mapError_eq_ok.1 hfound.symm
    have hcalls : t.calls = t'.calls := halike.calls
    dsimp only [Catalog.read]
    rw [hcalls]
    refine ⟨rfl, hp.deps, hp.warnings, ?_⟩
    exact congrArg (fun u : Trace => u.addCall (.read place)) htrace
  | error fault =>
    obtain ⟨fault', rfl, hfault⟩ := mapError_eq_error.1 hfound.symm
    cases s.policy with
    | «omit» => exact ⟨rfl, halike.store hfault.symm⟩
    | leaf => exact ⟨rfl, halike.store hfault.symm⟩
    | abort => exact ⟨congrArg Except.error hfault.symm, halike⟩

theorem nodeOf_alike {text text' : Except Fault (Option (List String))}
    (h : text.mapError blur = text'.mapError blur) :
    (nodeOf source text).Alike blur (nodeOf source text') := by
  cases text with
  | error fault =>
    obtain ⟨fault', rfl, hfault⟩ := mapError_eq_error.1 h.symm
    exact .broken hfault.symm
  | ok found =>
    obtain rfl : text' = .ok found := mapError_eq_ok.1 h.symm
    rcases nodeOf source (.ok found) with fault | _ | _ | entries
    · exact .broken rfl
    · exact .absent
    · exact .leaf
    · exact .list entries

/-- Setups that look for all references at the same paths are parallel. -/
theorem parallel_of_samePlaces (hpolicy : s.policy = s'.policy)
    (hplaces : ∀ source, Due source → Lookup.SamePlaces blur s s' (.ofString source))
    (hdue : ∀ source p entries, Due source → (look s c source p).1 = .list entries →
      Task.Due Due (.entries source entries)) :
    Parallel s s' c blur Due (Progress.Alike blur) where
  deps_eq hp := hp.deps
  setDeps deps hp := ⟨rfl, hp.warnings, hp.trace⟩
  warn file origin hp := hp.warn _
  alike_look {source p p'} hsource hp := by
    rw [look_eq_fetch, look_eq_fetch]
    obtain ⟨htext, hprogress⟩ := fetch_alike (c := c) hpolicy (hplaces source hsource) hp
    exact ⟨nodeOf_alike htext, hprogress⟩
  due_of_list hsource hp hlist := hdue _ _ _ hsource hlist

/-- Two crawls have come to the same end, up to the faults that `blur` does not tell apart. -/
structure EndAlike (blur : Fault → Fault) (outcome : Except Fault Unit) (q : Progress)
    (outcome' : Except Fault Unit) (q' : Progress) : Prop where
  outcome : outcome.mapError blur = outcome'.mapError blur
  deps : q.deps = q'.deps
  calls : q.trace.calls = q'.trace.calls
  warnings : q.warnings.map blur = q'.warnings.map blur
  notes : q.trace.notes.map (Note.blurred blur) = q'.trace.notes.map (Note.blurred blur)

/-- The crawls under the two setups come to like ends, or neither comes to any. -/
structure EndsAlike (blur : Fault → Fault) (s s' : Setup) (c : Catalog) (sources : List String)
    (p : Progress) : Prop where
  left : ∀ outcome q, Ends s c sources p outcome q →
    ∃ outcome' q', Ends s' c sources p outcome' q' ∧ EndAlike blur outcome q outcome' q'
  right : ∀ outcome' q', Ends s' c sources p outcome' q' →
    ∃ outcome q, Ends s c sources p outcome q ∧ EndAlike blur outcome q outcome' q'

theorem Parallel.endsAlike (h : Parallel s s' c blur Due (Progress.Alike blur))
    (hdue : ∀ source ∈ sources, Due source) (p : Progress) : EndsAlike blur s s' c sources p := by
  constructor
  · intro outcome q hends
    obtain ⟨outcome', q', hends', houtcome, hq⟩ := h.exists_ends hends hdue (.refl p)
    exact ⟨outcome', q', hends', houtcome, hq.deps, hq.calls, hq.warnings,
      congrArg Trace.notes hq.trace⟩
  · intro outcome' q' hends'
    obtain ⟨outcome, q, hends, houtcome, hq⟩ := h.symm.exists_ends hends' hdue (.refl p)
    exact ⟨outcome, q, hends, houtcome.symm, hq.deps, hq.calls, hq.warnings,
      congrArg Trace.notes hq.trace⟩

end Crawl

end ShaderIncludes
