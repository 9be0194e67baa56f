import ShaderIncludes.Proofs.Collected

/-!
# The calls of a crawl are all it depends on

A crawl learns of the files by its calls alone. Another catalog that gives the same answers to the
calls that were made, each after the same calls before it, makes for the same crawl, whatever it
would say to any other call (`Ends.congr`). So who keeps the calls of a crawl and finds their answers
unchanged need not crawl again (`gather_eq_of_sameAnswer`).
-/
namespace ShaderIncludes

namespace Catalog

/-- The two catalogs answer the call alike, once the calls of `before` have been made. -/
def SameAnswer (c c' : Catalog) (before : List Call) : Call → Prop
  | .probe path => c.present before path = c'.present before path
  | .read path => c.lines before path = c'.lines before path
  | .refresh => True

/-- They answer all calls alike by which the record `first` has become `last`. -/
def SameAnswers (c c' : Catalog) (first last : List Call) : Prop :=
  ∀ before call, first <+: before → before ++ [call] <+: last → SameAnswer c c' before call

variable {c c' : Catalog} {first middle last : List Call}

theorem SameAnswers.left (h : SameAnswers c c' first last) (hml : middle <+: last) :
    SameAnswers c c' first middle :=
  fun before call hb hc => h before call hb (hc.trans hml)

theorem SameAnswers.right (h : SameAnswers c c' first last) (hfm : first <+: middle) :
    SameAnswers c c' middle last :=
  fun before call hb hc => h before call (hfm.trans hb) hc

theorem SameAnswers.of_call {call : Call} (h : SameAnswers c c' first (first ++ [call])) :
    SameAnswer c c' first call :=
  h first call (List.prefix_refl _) (List.prefix_refl _)

/-- What is done adds to the record of calls, and depends on the catalog by the answers to the calls
it adds and by nothing else. -/
structure Tracked {σ α : Type} (calls : σ → List Call) (f : Catalog → σ → α × σ) : Prop where
  grows : ∀ c x, calls x <+: calls (f c x).2
  congr : ∀ {c c' x}, SameAnswers c c' (calls x) (calls (f c x).2) → f c' x = f c x

namespace Tracked

variable {σ α β : Type} {calls : σ → List Call} {f : Catalog → σ → α × σ}
  {g : Catalog → σ → β × σ}

theorem pure (a : α) (change : σ → σ) (h : ∀ x, calls (change x) = calls x) :
    Tracked calls fun _ x => (a, change x) where
  grows _ x := by rw [h]
  congr _ := rfl

/-- `g` does what `f` does and then goes on by its result. -/
theorem andThen (hf : Tracked calls f)
    (hg : ∀ a, ∃ next, Tracked calls next ∧ ∀ {c x y}, f c x = (a, y) → g c x = next c y) :
    Tracked calls g where
  grows c x := by
    obtain ⟨next, hnext, heq⟩ := hg (f c x).1
    rw [heq rfl]
    exact (hf.grows c x).trans (hnext.grows c _)
  congr {c c' x} hsame := by
    obtain ⟨next, hnext, heq⟩ := hg (f c x).1
    rw [heq rfl] at hsame ⊢
    have hfirst : f c' x = f c x := hf.congr (hsame.left (hnext.grows c _))
    rw [heq hfirst]
    exact hnext.congr (hsame.right (hf.grows c x))

theorem probe (path : String) : Tracked Trace.calls fun c => c.probe path where
  grows _ _ := List.prefix_append _ _
  congr {c c' t} hsame := by
    have hanswer : c.present t.calls path = c'.present t.calls path := hsame.of_call
    simp [Catalog.probe, hanswer]

theorem read (path : String) : Tracked Trace.calls fun c => c.read path where
  grows _ _ := List.prefix_append _ _
  congr {c c' t} hsame := by
    have hanswer : c.lines t.calls path = c'.lines t.calls path := hsame.of_call
    simp [Catalog.read, hanswer]

end Tracked

end Catalog

open Catalog (SameAnswer SameAnswers Tracked)

namespace Lookup

theorem tracked_firstPresent? (paths : List String) :
    Tracked Trace.calls fun c => firstPresent? c paths := by
  induction paths with
  | nil => exact .pure none id fun _ => rfl
  | cons path rest ih =>
    refine (Tracked.probe path).andThen fun present => ?_
    cases present with
    | true => exact ⟨_, .pure (some path) id fun _ => rfl, fun h => by simp [firstPresent?, h]⟩
    | false => exact ⟨_, ih, fun h => by simp [firstPresent?, h]⟩

theorem tracked_inFolder? (base path : String) :
    Tracked Trace.calls fun c => inFolder? c base path := by
  refine (tracked_firstPresent? (candidates base path)).andThen fun found => ?_
  cases found with
  | some place =>
    exact ⟨_, .pure (some place) (·.addNote (.located path place)) fun _ => rfl,
      fun h => by simp [inFolder?, h]⟩
  | none => exact ⟨_, .pure none id fun _ => rfl, fun h => by simp [inFolder?, h]⟩

theorem tracked_inFolders? (path : String) (folders : List String) :
    Tracked Trace.calls fun c => inFolders? c path folders := by
  induction folders with
  | nil => exact .pure none id fun _ => rfl
  | cons folder rest ih =>
    refine (tracked_inFolder? folder path).andThen fun found => ?_
    cases found with
    | some place => exact ⟨_, .pure (some place) id fun _ => rfl, fun h => by simp [inFolders?, h]⟩
    | none => exact ⟨_, ih, fun h => by simp [inFolders?, h]⟩

theorem tracked_find (roots : Roots) (base : String) (ref : Reference) :
    Tracked Trace.calls fun c => find c roots base ref := by
  refine (tracked_inFolders? ref.path (ref.folders roots base)).andThen fun found => ?_
  cases found with
  | some place => exact ⟨_, .pure (.ok place) id fun _ => rfl, fun h => by simp [find, h]⟩
  | none =>
    let fault := Fault.missing ref.toString (ref.folders roots base)
    exact ⟨_, .pure (.error fault) (·.addNote (.warned fault)) fun _ => rfl,
      fun h => by simp [find, h, fault]⟩

end Lookup

namespace Crawl

def Progress.calls (p : Progress) : List Call := p.trace.calls

@[simp] theorem Progress.calls_insert (p : Progress) (ref : String) :
    (p.insert ref).calls = p.calls := rfl

/-- As `Tracked.andThen`, where `f` knows of the trace alone. -/
theorem tracked_of_trace {α β : Type} {f : Catalog → Trace → α × Trace}
    {g : Catalog → Progress → β × Progress} (hf : Tracked Trace.calls f)
    (hg : ∀ a, ∃ next, Tracked Progress.calls next ∧
      ∀ {c p t}, f c p.trace = (a, t) → g c p = next c { p with trace := t }) :
    Tracked Progress.calls g := by
  have hlift : Tracked Progress.calls fun c p =>
      ((f c p.trace).1, { p with trace := (f c p.trace).2 }) :=
    ⟨fun c p => hf.grows c p.trace, fun hsame => by rw [hf.congr hsame]⟩
  refine hlift.andThen fun a => ?_
  obtain ⟨next, hnext, heq⟩ := hg a
  refine ⟨next, hnext, fun h => ?_⟩
  obtain ⟨rfl, rfl⟩ := Prod.mk.inj h
  exact heq rfl

variable {s : Setup} {c c' : Catalog} {stack sources : List String} {source : String}
  {task : Task} {outcome : Except Fault Unit} {p q : Progress}

theorem tracked_read (place : String) : Tracked Progress.calls fun c p =>
    ((c.read place p.trace).1.map some, { p with trace := (c.read place p.trace).2 }) :=
  tracked_of_trace (.read place) fun text =>
    ⟨_, .pure (text.map some) id fun _ => rfl, fun h => by simp [h]⟩

theorem tracked_fetch (s : Setup) (source : String) :
    Tracked Progress.calls fun c => fetch s c source := by
  refine tracked_of_trace (Lookup.tracked_find s.roots s.base (.ofString source)) fun found => ?_
  cases found with
  | ok place => exact ⟨_, tracked_read place, fun h => by simp [fetch, h]⟩
  | error fault =>
    cases hpolicy : s.policy with
    | abort =>
      exact ⟨_, .pure (.error fault) id fun _ => rfl, fun h => by simp [fetch, h, hpolicy]⟩
    | leaf =>
      exact ⟨_, .pure (.ok (some [])) (·.store fault) fun _ => rfl,
        fun h => by simp [fetch, h, hpolicy]⟩
    | _ =>
      exact ⟨_, .pure (.ok none) (·.store fault) fun _ => rfl,
        fun h => by simp [fetch, h, hpolicy]⟩

theorem tracked_look (s : Setup) (source : String) :
    Tracked Progress.calls fun c => look s c source := by
  refine (tracked_fetch s source).andThen fun text => ?_
  rcases text with fault | _ | text
  · exact ⟨_, .pure (.broken fault) id fun _ => rfl, fun h => by simp [look, h]⟩
  · exact ⟨_, .pure .absent id fun _ => rfl, fun h => by simp [look, h]⟩
  · cases hi : Includes.ofLines source text with
    | error fault =>
      exact ⟨_, .pure (.broken fault) id fun _ => rfl, fun h => by simp [look, h, hi]⟩
    | ok list =>
      cases list with
      | none => exact ⟨_, .pure .leaf id fun _ => rfl, fun h => by simp [look, h, hi]⟩
      | some entries =>
        exact ⟨_, .pure (.list entries) id fun _ => rfl, fun h => by simp [look, h, hi]⟩

theorem prefix_calls_look {node : Node} (h : look s c source p = (node, q)) :
    p.calls <+: q.calls := by
  have hgrows := (tracked_look s source).grows c p
  rwa [h] at hgrows

theorem look_congr {node : Node} (h : look s c source p = (node, q))
    (hsame : SameAnswers c c' p.calls q.calls) : look s c' source p = (node, q) := by
  rw [← h]
  apply (tracked_look s source).congr
  rwa [h]

theorem Runs.prefix_calls (h : Runs s c stack task p outcome q) : p.calls <+: q.calls := by
  induction h with
  | broken hlook | absent hlook => exact prefix_calls_look hlook
  | leaf hlook =>
    rw [Progress.calls_insert]
    exact prefix_calls_look hlook
  | list hlook _ ih => exact (prefix_calls_look hlook).trans ih
  | nil => exact List.prefix_refl _
  | self _ ih | collected _ _ _ ih | recursive _ _ _ _ ih | failed _ _ _ _ ih => exact ih
  | expanded _ _ _ _ _ ihentry ihrest => exact ihentry.trans ihrest

theorem Runs.congr (h : Runs s c stack task p outcome q)
    (hsame : SameAnswers c c' p.calls q.calls) : Runs s c' stack task p outcome q := by
  induction h with
  | broken hlook => exact .broken (look_congr hlook hsame)
  | absent hlook => exact .absent (look_congr hlook hsame)
  | leaf hlook => exact .leaf (look_congr hlook hsame)
  | list hlook hlist ih =>
    exact .list (look_congr hlook (hsame.left hlist.prefix_calls))
      (ih (hsame.right (prefix_calls_look hlook)))
  | nil => exact .nil
  | self _ ih => exact .self (ih hsame)
  | collected hself hdeps _ ih => exact .collected hself hdeps (ih hsame)
  | recursive hself hdeps hstack _ ih => exact .recursive hself hdeps hstack (ih hsame)
  | expanded hself hdeps hstack hentry hrest ihentry ihrest =>
    exact .expanded hself hdeps hstack (ihentry (hsame.left hrest.prefix_calls))
      (ihrest (hsame.right hentry.prefix_calls))
  | failed hself hdeps hstack _ ih => exact .failed hself hdeps hstack (ih hsame)

theorem Ends.prefix_calls (h : Ends s c sources p outcome q) : p.calls <+: q.calls := by
  induction sources generalizing p with
  | nil => rw [(ends_nil_iff.1 h).2]
  | cons source rest ih =>
    rcases ends_cons_iff.1 h with ⟨r, hsource, hrest⟩ | ⟨fault, -, hsource⟩
    · exact hsource.prefix_calls.trans (ih hrest)
    · exact hsource.prefix_calls

/-- The catalogs may change on the way, as long as both say the same when asked. -/
theorem Ends.congr (h : Ends s c sources p outcome q)
    (hsame : SameAnswers c c' p.calls q.calls) : Ends s c' sources p outcome q := by
  induction sources generalizing p with
  | nil => exact ends_nil_iff.2 (ends_nil_iff.1 h)
  | cons source rest ih =>
    apply ends_cons_iff.2
    rcases ends_cons_iff.1 h with ⟨r, hsource, hrest⟩ | ⟨fault, rfl, hsource⟩
    · exact .inl ⟨r, hsource.congr (hsame.left hrest.prefix_calls),
        ih hrest (hsame.right hsource.prefix_calls)⟩
    · exact .inr ⟨fault, rfl, hsource.congr hsame⟩

end Crawl

/-! ## Files that stay as they are -/

def Snapshot.SameAnswer (files other : Snapshot) : Call → Prop
  | .probe path => files.present path = other.present path
  | .read path => files.lines path = other.lines path
  | .refresh => True

instance (files other : Snapshot) : DecidablePred (files.SameAnswer other)
  | .probe _ => inferInstanceAs (Decidable (_ = _))
  | .read _ => inferInstanceAs (Decidable (_ = _))
  | .refresh => isTrue trivial

theorem Snapshot.sameAnswers_of_mem {files other : Snapshot} {first made : List Call}
    (h : ∀ call ∈ made, files.SameAnswer other call) :
    SameAnswers files.catalog other.catalog first (first ++ made) := by
  rintro _ call ⟨more, rfl⟩ hcalls
  rw [List.append_assoc, List.prefix_append_right_inj] at hcalls
  have hcall := h call (hcalls.subset (List.mem_append_right more List.mem_cons_self))
  cases call <;> exact hcall

namespace Crawl

/-- The calls that a crawl has made are a complete account of its input: over any other files that
give the same answers to these calls, the same crawl comes to the same end, with the same
dependencies, warnings, calls and notes. -/
theorem gather_eq_of_sameAnswer (s : Setup) (files : Snapshot) (sources : List String)
    (p : Progress) :
    ∃ made, (gather s files sources p).2.trace.calls = p.trace.calls ++ made ∧
      ∀ other : Snapshot, (∀ call ∈ made, files.SameAnswer other call) →
        gather s other sources p = gather s files sources p := by
  have hends : Ends s files.catalog sources p (gather s files sources p).1
      (gather s files sources p).2 := gather_eq_iff.1 rfl
  obtain ⟨made, hmade⟩ := hends.prefix_calls
  refine ⟨made, hmade.symm, fun other h => ?_⟩
  have hsame : SameAnswers files.catalog other.catalog p.calls
      (gather s files sources p).2.calls := hmade ▸ Snapshot.sameAnswers_of_mem h
  exact gather_eq_iff.2 (hends.congr hsame)

/-- As `crossedFiles`, with files that its crawl does not ask for. -/
def encumberedFiles : Snapshot :=
  Store.Memory.snapshot
    { files :=
        [("Assets/A", listing ["B", "C", "self"]), ("Assets/B.orlshader", listing ["Z"]),
         ("Assets/B.orlsource", listing ["C", "self", "A", "Gone"]),
         ("Assets/C", ["float c;"]), ("Assets/C.orlsource", ["%"]), ("Gone", ["float g;"])] }

open IncludeGraph (crossed crossedFiles) in
theorem gather_eq_of_sameAnswer_crossed :
    (∀ call ∈ (gather crossed.setup crossedFiles ["A", "B"] {}).2.trace.calls,
      crossedFiles.SameAnswer encumberedFiles call) ∧
    gather crossed.setup encumberedFiles ["A", "B"] {} =
      gather crossed.setup crossedFiles ["A", "B"] {} := by
  obtain ⟨made, hmade, h⟩ := gather_eq_of_sameAnswer crossed.setup crossedFiles ["A", "B"] {}
  have hsame : ∀ call ∈ (gather crossed.setup crossedFiles ["A", "B"] {}).2.trace.calls,
      crossedFiles.SameAnswer encumberedFiles call := by
    decide
  refine ⟨hsame, h encumberedFiles ?_⟩
  rwa [hmade] at hsame

end Crawl

end ShaderIncludes
