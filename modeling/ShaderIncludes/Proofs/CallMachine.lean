import Mathlib.Data.List.Perm.Subperm
import Mathlib.Logic.Function.Iterate
import ShaderIncludes.Proofs.Ends

/-!
# Crawls as a stack of calls

The same crawl in steps so small that nothing in it could fail to end: a state holds the calls that
are under way, and a step is taken on the innermost one. No depth is set beforehand. Main statement:
on finitely many files the steps come to the end that `gather` tells, and on the way there are never
more calls under way than there are entries in all lists, and one (`halts_with_few_frames`).
-/
namespace ShaderIncludes.Crawl

/-- A call that is under way. -/
structure Frame where
  source : String
  /-- The entries still to be gone through; `none` before the file is read. -/
  todo : Option (List String)
  /-- What the caller's set holds; `none` if the call adds to the caller's set itself. -/
  outer : Option Dependencies
  deriving DecidableEq, Repr

/-- A state of a crawl. The innermost call comes first. -/
inductive Machine where
  | running (frames : List Frame) (sources : List String) (p : Progress)
  /-- The fault ends one call after the other. -/
  | failing (fault : Fault) (frames : List Frame) (p : Progress)
  | halted (outcome : Except Fault Unit) (p : Progress)

namespace Machine

/-- The caller's progress after a call. -/
def rejoin (outer : Option Dependencies) (p : Progress) : Progress :=
  match outer with
  | none => p
  | some deps => { p with deps := deps.union p.deps }

/-- The caller's progress after a call that has failed. -/
def discard (outer : Option Dependencies) (p : Progress) : Progress :=
  match outer with
  | none => p
  | some deps => { p with deps }

/-- The file of the innermost call is read. -/
def enter (s : Setup) (c : Catalog) (f : Frame) (frames : List Frame) (sources : List String)
    (p : Progress) : Machine :=
  match fetch s c f.source p with
  | (.error fault, p) => .failing fault (f :: frames) p
  | (.ok none, p) => .running ({ f with todo := some [] } :: frames) sources p
  | (.ok (some text), p) =>
    match Includes.ofLines f.source text with
    | .error fault => .failing fault (f :: frames) p
    | .ok none => .running ({ f with todo := some [] } :: frames) sources (p.insert f.source)
    | .ok (some entries) => .running ({ f with todo := some entries } :: frames) sources p

/-- The innermost call goes on to the next entry of its list. -/
def take (entry : String) (f : Frame) (frames : List Frame) (sources : List String)
    (p : Progress) : Machine :=
  if entry = Includes.selfEntry then .running (f :: frames) sources (p.insert f.source)
  else if entry ∈ p.deps then .running (f :: frames) sources p
  else if entry ∈ (f :: frames).map Frame.source then
    .running (f :: frames) sources (p.warn (.recursive entry f.source))
  else .running (⟨entry, none, some p.deps⟩ :: f :: frames) sources { p with deps := [] }

def step (s : Setup) (c : Catalog) : Machine → Machine
  | .running [] [] p => .halted (.ok ()) p
  | .running [] (source :: rest) p => .running [⟨source, none, none⟩] rest p
  | .running (⟨source, none, outer⟩ :: frames) sources p =>
    enter s c ⟨source, none, outer⟩ frames sources p
  | .running (⟨_, some [], outer⟩ :: frames) sources p => .running frames sources (rejoin outer p)
  | .running (⟨source, some (entry :: todo), outer⟩ :: frames) sources p =>
    take entry ⟨source, some todo, outer⟩ frames sources p
  | .failing fault [] p => .halted (.error fault) p
  | .failing fault (f :: frames) p => .failing fault frames (discard f.outer p)
  | .halted outcome p => .halted outcome p

/-- The calls that are under way. -/
def frames : Machine → List Frame
  | .running frames _ _ => frames
  | .failing _ frames _ => frames
  | .halted _ _ => []

/-- Different references are under expansion, all but one of them named by a list. -/
structure WellFormed (texts : List (List String)) (frames : List Frame) : Prop where
  nodup : (frames.map Frame.source).Nodup
  named : ∃ top, ∀ f ∈ frames, f.source = top ∨ f.source ∈ allEntries texts
  todo : ∀ f ∈ frames, ∀ entries ∈ f.todo, ∀ a ∈ entries, a ≠ Includes.selfEntry →
    a ∈ allEntries texts

variable {s : Setup} {c : Catalog} {texts : List (List String)} {fs frames : List Frame}
  {f : Frame} {sources : List String}

theorem WellFormed.length_le (h : WellFormed texts fs) :
    fs.length ≤ (allEntries texts).length + 1 := by
  obtain ⟨top, htop⟩ := h.named
  have hsub : fs.map Frame.source ⊆ top :: allEntries texts := by
    intro a ha
    obtain ⟨f, hf, rfl⟩ := List.mem_map.1 ha
    exact List.mem_cons.2 (htop f hf)
  simpa using (List.subperm_of_subset h.nodup hsub).length_le

theorem wellFormed_nil : WellFormed texts [] := by
  refine ⟨List.nodup_nil, ⟨"", ?_⟩, ?_⟩
  · intro f hf
    cases hf
  · intro f hf
    cases hf

theorem wellFormed_top (source : String) (outer : Option Dependencies) :
    WellFormed texts [⟨source, none, outer⟩] := by
  refine ⟨List.pairwise_singleton _ source, ⟨source, ?_⟩, ?_⟩
  · intro f hf
    exact .inl (List.mem_singleton.1 hf ▸ rfl)
  · intro f hf entries hentries
    cases List.mem_singleton.1 hf
    cases hentries

theorem WellFormed.tail (h : WellFormed texts (f :: fs)) : WellFormed texts fs := by
  obtain ⟨top, htop⟩ := h.named
  refine ⟨(List.nodup_cons.1 h.nodup).2, ⟨top, ?_⟩, ?_⟩
  · intro g hg
    exact htop g (List.mem_cons_of_mem f hg)
  · intro g hg
    exact h.todo g (List.mem_cons_of_mem f hg)

theorem WellFormed.setTodo (h : WellFormed texts (f :: fs)) {entries : List String}
    (he : ∀ a ∈ entries, a ≠ Includes.selfEntry → a ∈ allEntries texts) :
    WellFormed texts ({ f with todo := some entries } :: fs) := by
  obtain ⟨top, htop⟩ := h.named
  refine ⟨h.nodup, ⟨top, ?_⟩, ?_⟩
  · intro g hg
    rcases List.mem_cons.1 hg with rfl | hg
    · exact htop f List.mem_cons_self
    · exact htop g (List.mem_cons_of_mem f hg)
  · intro g hg
    rcases List.mem_cons.1 hg with rfl | hg
    · rintro _ ⟨⟩
      exact he
    · exact h.todo g (List.mem_cons_of_mem f hg)

theorem WellFormed.push (h : WellFormed texts fs) {entry : String} {outer : Option Dependencies}
    (he : entry ∈ allEntries texts) (hnew : entry ∉ fs.map Frame.source) :
    WellFormed texts (⟨entry, none, outer⟩ :: fs) := by
  obtain ⟨top, htop⟩ := h.named
  refine ⟨List.nodup_cons.2 ⟨hnew, h.nodup⟩, ⟨top, ?_⟩, ?_⟩
  · intro g hg
    rcases List.mem_cons.1 hg with rfl | hg
    · exact .inr he
    · exact htop g hg
  · intro g hg
    rcases List.mem_cons.1 hg with rfl | hg
    · rintro _ ⟨⟩
    · exact h.todo g hg

theorem wellFormed_enter {files : Snapshot} {p : Progress}
    (h : WellFormed files.texts (f :: fs)) :
    WellFormed files.texts (enter s files.catalog f fs sources p).frames := by
  have hnone : ∀ a ∈ ([] : List String), a ≠ Includes.selfEntry → a ∈ allEntries files.texts := by
    intro a ha
    cases ha
  unfold enter
  split
  · exact h
  · exact h.setTodo hnone
  · rename_i hf
    split
    · exact h
    · exact h.setTodo hnone
    · rename_i hi
      apply h.setTodo
      intro a ha hself
      exact mem_allEntries_of_fetch hf hi ha hself

theorem wellFormed_take {entry : String} {p : Progress} (h : WellFormed texts (f :: fs))
    (he : entry ≠ Includes.selfEntry → entry ∈ allEntries texts) :
    WellFormed texts (take entry f fs sources p).frames := by
  unfold take
  split
  · exact h
  rename_i hself
  split
  · exact h
  split
  · exact h
  rename_i hstack
  exact h.push (he hself) hstack

theorem wellFormed_step {files : Snapshot} {m : Machine} (h : WellFormed files.texts m.frames) :
    WellFormed files.texts (step s files.catalog m).frames := by
  unfold step
  split
  · exact wellFormed_nil
  · exact wellFormed_top _ none
  · exact wellFormed_enter h
  · exact h.tail
  · rename_i source entry todo outer frames sources p
    have he := h.todo _ List.mem_cons_self _ rfl
    apply wellFormed_take _ (he entry List.mem_cons_self)
    apply h.setTodo
    intro a ha
    exact he a (List.mem_cons_of_mem entry ha)
  · exact wellFormed_nil
  · exact h.tail
  · exact wellFormed_nil

theorem wellFormed_iterate {files : Snapshot} (n : Nat) {m : Machine}
    (h : WellFormed files.texts m.frames) :
    WellFormed files.texts ((step s files.catalog)^[n] m).frames := by
  induction n generalizing m with
  | zero => exact h
  | succ n ih =>
    rw [Function.iterate_succ_apply]
    exact ih (wellFormed_step h)

/-! ## The end of the steps -/

def LeadsTo (s : Setup) (c : Catalog) (m m' : Machine) : Prop := ∃ n, (step s c)^[n] m = m'

theorem LeadsTo.refl (m : Machine) : LeadsTo s c m m := ⟨0, rfl⟩

theorem LeadsTo.step {m m' : Machine} (h : LeadsTo s c (step s c m) m') : LeadsTo s c m m' := by
  obtain ⟨n, hn⟩ := h
  exact ⟨n + 1, hn⟩

theorem LeadsTo.trans {m m' m'' : Machine} (h : LeadsTo s c m m') (h' : LeadsTo s c m' m'') :
    LeadsTo s c m m'' := by
  obtain ⟨n, rfl⟩ := h
  obtain ⟨k, rfl⟩ := h'
  exact ⟨k + n, Function.iterate_add_apply _ k n m⟩

/-- The state after a call has come to its end. -/
def returned (outer : Option Dependencies) (frames : List Frame) (sources : List String) :
    Except Fault Unit → Progress → Machine
  | .ok (), q => .running frames sources (rejoin outer q)
  | .error fault, q => .failing fault frames (discard outer q)

theorem running_leadsTo_returned {source : String} {outer : Option Dependencies} (p : Progress) :
    LeadsTo s c (.running (⟨source, some [], outer⟩ :: frames) sources p)
      (returned outer frames sources (.ok ()) p) :=
  .step (.refl _)

theorem failing_leadsTo_returned (fault : Fault) (p : Progress) :
    LeadsTo s c (.failing fault (f :: frames) p)
      (returned f.outer frames sources (.error fault) p) :=
  .step (.refl _)

theorem follow_leadsTo {visit : String → Progress → Ending × Progress} {source : String}
    {outer : Option Dependencies} {outcome : Except Fault Unit} {entries : List String}
    {p q : Progress}
    (hv : ∀ a todo deps p outcome q, visit a p = (.ofOutcome outcome, q) →
      LeadsTo s c
        (.running (⟨a, none, some deps⟩ :: ⟨source, some todo, outer⟩ :: frames) sources p)
        (returned (some deps) (⟨source, some todo, outer⟩ :: frames) sources outcome q))
    (h : follow visit source (source :: frames.map Frame.source) entries p =
      (.ofOutcome outcome, q)) :
    LeadsTo s c (.running (⟨source, some entries, outer⟩ :: frames) sources p)
      (returned outer frames sources outcome q) := by
  induction entries generalizing p with
  | nil =>
    obtain ⟨hdone, rfl⟩ := Prod.mk.inj h
    rw [Ending.eq_ok_of_done hdone]
    exact running_leadsTo_returned _
  | cons entry rest ih =>
    refine .step ?_
    change LeadsTo s c (take entry ⟨source, some rest, outer⟩ frames sources p) _
    unfold follow at h
    unfold take
    by_cases hself : entry = Includes.selfEntry
    · rw [if_pos hself] at h ⊢
      exact ih h
    rw [if_neg hself] at h ⊢
    by_cases hdeps : entry ∈ p.deps
    · rw [if_pos hdeps] at h ⊢
      exact ih h
    rw [if_neg hdeps] at h ⊢
    by_cases hstack : entry ∈ source :: frames.map Frame.source
    · rw [if_pos hstack] at h
      rw [if_pos (by exact hstack)]
      exact ih h
    rw [if_neg hstack] at h
    rw [if_neg (by exact hstack)]
    rcases hr : visit entry { p with deps := [] } with ⟨ending, r⟩
    rw [hr] at h
    cases ending with
    | done => exact (hv entry rest p.deps _ (.ok ()) r hr).trans (ih h)
    | failed fault =>
      obtain ⟨hfailed, rfl⟩ := Prod.mk.inj h
      rw [Ending.eq_error_of_failed hfailed]
      exact (hv entry rest p.deps _ (.error fault) r hr).trans (failing_leadsTo_returned fault _)
    | tooDeep => exact absurd (Prod.mk.inj h).1.symm (Ending.ofOutcome_ne_tooDeep outcome)

theorem expand_leadsTo {depth : Nat} {source : String} {outer : Option Dependencies}
    {outcome : Except Fault Unit} {p q : Progress}
    (h : expand s c depth (frames.map Frame.source) source p = (.ofOutcome outcome, q)) :
    LeadsTo s c (.running (⟨source, none, outer⟩ :: frames) sources p)
      (returned outer frames sources outcome q) := by
  induction depth generalizing frames source outer outcome p q with
  | zero => exact absurd (Prod.mk.inj h).1.symm (Ending.ofOutcome_ne_tooDeep outcome)
  | succ depth ih =>
    refine .step ?_
    change LeadsTo s c (enter s c ⟨source, none, outer⟩ frames sources p) _
    rcases hf : fetch s c source p with ⟨fault | _ | text, r⟩
    · simp only [expand, hf] at h
      simp only [enter, hf]
      obtain ⟨hfailed, rfl⟩ := Prod.mk.inj h
      rw [Ending.eq_error_of_failed hfailed]
      exact failing_leadsTo_returned fault _
    · simp only [expand, hf] at h
      simp only [enter, hf]
      obtain ⟨hdone, rfl⟩ := Prod.mk.inj h
      rw [Ending.eq_ok_of_done hdone]
      exact running_leadsTo_returned _
    rcases hi : Includes.ofLines source text with fault | _ | entries
    · simp only [expand, hf, hi] at h
      simp only [enter, hf, hi]
      obtain ⟨hfailed, rfl⟩ := Prod.mk.inj h
      rw [Ending.eq_error_of_failed hfailed]
      exact failing_leadsTo_returned fault _
    · simp only [expand, hf, hi] at h
      simp only [enter, hf, hi]
      obtain ⟨hdone, rfl⟩ := Prod.mk.inj h
      rw [Ending.eq_ok_of_done hdone]
      exact running_leadsTo_returned _
    · simp only [expand, hf, hi] at h
      simp only [enter, hf, hi]
      exact follow_leadsTo (fun _ _ _ _ _ _ hv => ih hv) h

theorem visitAll_leadsTo {depth : Nat} {outcome : Except Fault Unit} {p q : Progress}
    (h : visitAll (expand s c depth []) sources p = (.ofOutcome outcome, q)) :
    LeadsTo s c (.running [] sources p) (.halted outcome q) := by
  induction sources generalizing p with
  | nil =>
    obtain ⟨hdone, rfl⟩ := Prod.mk.inj h
    rw [Ending.eq_ok_of_done hdone]
    exact .step (.refl _)
  | cons source rest ih =>
    refine .step ?_
    unfold visitAll at h
    rcases hr : expand s c depth [] source p with ⟨ending, r⟩
    rw [hr] at h
    cases ending with
    | done =>
      have hcall : LeadsTo s c (.running [⟨source, none, none⟩] rest p)
          (returned none [] rest (.ok ()) r) := expand_leadsTo hr
      exact hcall.trans (ih h)
    | failed fault =>
      have hcall : LeadsTo s c (.running [⟨source, none, none⟩] rest p)
          (returned none [] rest (.error fault) r) := expand_leadsTo hr
      obtain ⟨hfailed, rfl⟩ := Prod.mk.inj h
      rw [Ending.eq_error_of_failed hfailed]
      exact hcall.trans (.step (.refl _))
    | tooDeep => exact absurd (Prod.mk.inj h).1.symm (Ending.ofOutcome_ne_tooDeep outcome)

/-- Over finitely many files every crawl comes to an end, around all cycles, and never has more
calls under way at once than there are different entries, `self` aside, and one. -/
theorem halts_with_few_frames (s : Setup) (files : Snapshot) (sources : List String)
    (p : Progress) :
    (∃ n, (step s files.catalog)^[n] (.running [] sources p) =
      .halted (gather s files sources p).1 (gather s files sources p).2) ∧
    ∀ n, ((step s files.catalog)^[n] (.running [] sources p)).frames.length ≤
      (allEntries files.texts).length + 1 := by
  constructor
  · have hends : Ends s files.catalog sources p (gather s files sources p).1
        (gather s files sources p).2 := gather_eq_iff.1 rfl
    obtain ⟨depth, h⟩ := hends
    exact visitAll_leadsTo h
  · intro n
    exact (wellFormed_iterate n wellFormed_nil).length_le

end Machine

end ShaderIncludes.Crawl
