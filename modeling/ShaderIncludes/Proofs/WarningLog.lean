import Mathlib.Data.List.Forall2
import ShaderIncludes.Proofs.Rules

/-!
# Stored warnings and noted warnings

A crawl stores its warnings for the caller and notes them in its trace, at different places. The two
records agree: what is noted as a warning is stored, in the same order, and nothing else is. The one
exception is a missing file that ends the crawl, which is noted and returned. Since a crawl never
looks at the warnings that are stored already, this goes for all that a crawler ever does
(`serveAll_keeps_warnings`).
-/
namespace ShaderIncludes

def Trace.warnings (t : Trace) : List Note := t.notes.filter (·.level = .warning)

@[simp] theorem Trace.warnings_addCall (t : Trace) (call : Call) :
    (t.addCall call).warnings = t.warnings := rfl

@[simp] theorem Trace.warnings_located (t : Trace) (path place : String) :
    (t.addNote (.located path place)).warnings = t.warnings := by
  simp [Trace.warnings, Note.level]

@[simp] theorem Trace.warnings_warned (t : Trace) (fault : Fault) :
    (t.addNote (.warned fault)).warnings = t.warnings ++ [.warned fault] := by
  simp [Trace.warnings, Note.level]

/-- The fault that a result tells of, if it is a missing file. -/
def missed {α : Type} : Except Fault α → List Fault
  | .error fault => if fault.isMissing then [fault] else []
  | .ok _ => []

theorem missed_of_isMissing {α : Type} {fault : Fault} (h : fault.isMissing = true) :
    missed (.error fault : Except Fault α) = [fault] := if_pos h

namespace Lookup

variable (c : Catalog)

theorem warnings_firstPresent? (paths : List String) (t : Trace) :
    (firstPresent? c paths t).2.warnings = t.warnings := by
  induction paths generalizing t with
  | nil => rfl
  | cons path rest ih =>
    unfold firstPresent? Catalog.probe
    cases c.present t.calls path with
    | true => rfl
    | false => exact ih _

theorem warnings_inFolder? (base path : String) (t : Trace) :
    (inFolder? c base path t).2.warnings = t.warnings := by
  rw [← warnings_firstPresent? c (candidates base path) t]
  unfold inFolder?
  rcases firstPresent? c (candidates base path) t with ⟨_ | place, t'⟩
  · rfl
  · exact Trace.warnings_located t' path place

theorem warnings_inFolders? (path : String) (folders : List String) (t : Trace) :
    (inFolders? c path folders t).2.warnings = t.warnings := by
  induction folders generalizing t with
  | nil => rfl
  | cons folder rest ih =>
    rw [← warnings_inFolder? c folder path t]
    unfold inFolders?
    rcases inFolder? c folder path t with ⟨_ | place, t'⟩
    · exact ih t'
    · rfl

theorem warnings_find (roots : Roots) (base : String) (ref : Reference) (t : Trace) :
    (find c roots base ref t).2.warnings =
      t.warnings ++ (missed (find c roots base ref t).1).map .warned := by
  rw [← warnings_inFolders? c ref.path (ref.folders roots base) t]
  unfold find
  dsimp only
  rcases inFolders? c ref.path (ref.folders roots base) t with ⟨_ | place, t'⟩
  · exact Trace.warnings_warned t' _
  · exact (List.append_nil _).symm

end Lookup

namespace Crawl

variable {s : Setup} {c : Catalog} {stack sources : List String} {source : String}
  {task : Task} {outcome : Except Fault Unit} {node : Node} {p q r : Progress}

/-! ## Warnings that are stored already -/

/-- The same progress, with these warnings stored in front of all others. -/
def Progress.behind (stored : List Fault) (p : Progress) : Progress :=
  { p with warnings := stored ++ p.warnings }

theorem Progress.store_behind (stored : List Fault) (p : Progress) (fault : Fault) :
    (p.behind stored).store fault = (p.store fault).behind stored := by
  simp [Progress.behind, Progress.store]

theorem Progress.warn_behind (stored : List Fault) (p : Progress) (fault : Fault) :
    (p.behind stored).warn fault = (p.warn fault).behind stored := by
  simp [Progress.behind, Progress.warn, Progress.store]

theorem fetch_behind (stored : List Fault) (source : String) (p : Progress) :
    fetch s c source (p.behind stored) =
      ((fetch s c source p).1, (fetch s c source p).2.behind stored) := by
  have htrace : (p.behind stored).trace = p.trace := rfl
  unfold fetch
  rw [htrace]
  rcases Lookup.find c s.roots s.base (.ofString source) p.trace with ⟨fault | place, trace⟩
  · have hstore := Progress.store_behind stored { p with trace } fault
    cases s.policy
    · exact Prod.ext rfl hstore
    · exact Prod.ext rfl hstore
    · rfl
  · rfl

theorem look_behind (stored : List Fault) (h : look s c source p = (node, q)) :
    look s c source (p.behind stored) = (node, q.behind stored) := by
  rw [look_eq_fetch] at h ⊢
  obtain ⟨rfl, rfl⟩ := Prod.mk.inj h
  rw [fetch_behind]

theorem Runs.behind (stored : List Fault) (h : Runs s c stack task p outcome q) :
    Runs s c stack task (p.behind stored) outcome (q.behind stored) := by
  induction h with
  | broken hlook => exact .broken (look_behind stored hlook)
  | absent hlook => exact .absent (look_behind stored hlook)
  | leaf hlook => exact .leaf (look_behind stored hlook)
  | list hlook _ ih => exact .list (look_behind stored hlook) ih
  | nil => exact .nil
  | self _ ih => exact .self ih
  | collected hself hdeps _ ih => exact .collected hself hdeps ih
  | recursive hself hdeps hstack _ ih =>
    rw [← Progress.warn_behind] at ih
    exact .recursive hself hdeps hstack ih
  | expanded hself hdeps hstack _ _ ihentry ihrest =>
    exact .expanded hself hdeps hstack ihentry ihrest
  | @failed _ _ _ _ p r _ hself hdeps hstack _ ih =>
    exact .failed (p := p.behind stored) (r := r.behind stored) hself hdeps hstack ih

theorem Ends.behind (stored : List Fault) (h : Ends s c sources p outcome q) :
    Ends s c sources (p.behind stored) outcome (q.behind stored) := by
  induction h using Ends.induction with
  | nil p => exact ends_nil_iff.2 ⟨rfl, rfl⟩
  | next hsource _ ih => exact ends_cons_iff.2 (.inl ⟨_, hsource.behind stored, ih⟩)
  | failed hsource => exact ends_cons_iff.2 (.inr ⟨_, rfl, hsource.behind stored⟩)

theorem gather_behind (s : Setup) (files : Snapshot) (sources : List String) (p : Progress)
    (stored : List Fault) :
    gather s files sources (p.behind stored) =
      ((gather s files sources p).1, (gather s files sources p).2.behind stored) :=
  gather_eq_iff.2 ((ends_gather s files sources p).behind stored)

/-! ## Warnings that are noted -/

/-- All that has been noted as a warning between `p` and `q` is stored, apart from `lost`, which
comes last, and only where a missing file is fatal. -/
structure Logged (s : Setup) (lost : List Fault) (p q : Progress) : Prop where
  stored : ∃ new, q.warnings = p.warnings ++ new ∧
    q.trace.warnings = p.trace.warnings ++ (new ++ lost).map .warned
  policy : lost ≠ [] → s.policy = .abort

theorem logged_of_eq (hwarnings : q.warnings = p.warnings)
    (htrace : q.trace.warnings = p.trace.warnings) : Logged s [] p q := by
  refine ⟨⟨[], ?_, ?_⟩, fun h => absurd rfl h⟩
  · rw [hwarnings, List.append_nil]
  · rw [htrace]
    exact (List.append_nil _).symm

theorem logged_of_stored {fault : Fault} (hwarnings : q.warnings = p.warnings ++ [fault])
    (htrace : q.trace.warnings = p.trace.warnings ++ [.warned fault]) : Logged s [] p q :=
  ⟨⟨[fault], hwarnings, htrace⟩, fun h => absurd rfl h⟩

theorem Logged.trans {lost : List Fault} (hpr : Logged s [] p r) (hrq : Logged s lost r q) :
    Logged s lost p q := by
  obtain ⟨new, hr, hnew⟩ := hpr.stored
  obtain ⟨more, hq, hmore⟩ := hrq.stored
  refine ⟨⟨new ++ more, ?_, ?_⟩, hrq.policy⟩
  · rw [hq, hr, List.append_assoc]
  · rw [hmore, hnew]
    simp

theorem missed_read (place : String) (t : Trace) : missed ((c.read place t).1.map some) = [] := by
  unfold Catalog.read
  cases c.lines t.calls place with
  | ok text => rfl
  | error cause => rfl

theorem logged_fetch (source : String) (p : Progress) :
    Logged s (missed (fetch s c source p).1) p (fetch s c source p).2 := by
  have hwarnings := Lookup.warnings_find c s.roots s.base (.ofString source) p.trace
  unfold fetch
  rcases hfind : Lookup.find c s.roots s.base (.ofString source) p.trace with ⟨fault | place, t⟩
  · -- the lookup has noted its fault already, and the policy decides what else becomes of it
    have hmissing := Lookup.isMissing_of_find hfind
    rw [hfind] at hwarnings
    dsimp only at hwarnings ⊢
    rw [missed_of_isMissing hmissing] at hwarnings
    cases hpolicy : s.policy
    · exact logged_of_stored rfl hwarnings
    · exact logged_of_stored rfl hwarnings
    · dsimp only
      rw [missed_of_isMissing hmissing]
      exact ⟨⟨[], (List.append_nil _).symm, hwarnings⟩, fun _ => hpolicy⟩
  · rw [hfind] at hwarnings
    dsimp only
    rw [missed_read]
    exact logged_of_eq rfl (hwarnings.trans (List.append_nil _))

end Crawl

def Node.outcome : Node → Except Fault Unit
  | .broken fault => .error fault
  | _ => .ok ()

/-- A file that is there but not well formed is not missing. -/
theorem missed_nodeOf (source : String) (text : Except Fault (Option (List String))) :
    missed (Crawl.nodeOf source text).outcome = missed text := by
  unfold Crawl.nodeOf
  rcases text with fault | _ | text
  · rfl
  · rfl
  · rcases hi : Includes.ofLines source text with fault | _ | entries
    · obtain ⟨line, rfl⟩ := Directive.exists_line_of_parse (Includes.ofLines_eq_error.1 hi)
      simp [hi, Node.outcome, missed, Fault.isMissing]
    · simp [hi, Node.outcome, missed]
    · simp [hi, Node.outcome, missed]

namespace Crawl

variable {s : Setup} {c : Catalog} {stack sources : List String} {source : String}
  {task : Task} {outcome : Except Fault Unit} {node : Node} {p q r : Progress}

theorem logged_look (h : look s c source p = (node, q)) : Logged s (missed node.outcome) p q := by
  rw [look_eq_fetch] at h
  obtain ⟨rfl, rfl⟩ := Prod.mk.inj h
  rw [missed_nodeOf]
  exact logged_fetch source p

/-- All that a crawl notes as a warning it stores, unless it ends with it. -/
theorem Runs.logged (h : Runs s c stack task p outcome q) : Logged s (missed outcome) p q := by
  induction h with
  | broken hlook | absent hlook => exact logged_look hlook
  | leaf hlook => exact (logged_look hlook).trans (logged_of_eq rfl rfl)
  | list hlook _ ih => exact (logged_look hlook).trans ih
  | nil => exact logged_of_eq rfl rfl
  | self _ ih => exact ⟨ih.stored, ih.policy⟩
  | collected _ _ _ ih => exact ih
  | recursive _ _ _ _ ih =>
    exact (logged_of_stored rfl (Trace.warnings_warned _ _)).trans ih
  | @expanded _ _ _ _ p _ r _ _ _ _ _ _ ihentry ihrest =>
    have hentry : Logged s [] p { r with deps := p.deps.union r.deps } :=
      ⟨ihentry.stored, ihentry.policy⟩
    exact hentry.trans ihrest
  | failed _ _ _ _ ih => exact ⟨ih.stored, ih.policy⟩

theorem Ends.logged (h : Ends s c sources p outcome q) : Logged s (missed outcome) p q := by
  induction h using Ends.induction with
  | nil p => exact logged_of_eq rfl rfl
  | next hsource _ ih => exact hsource.logged.trans ih
  | failed hsource => exact hsource.logged

end Crawl

/-! ## A crawler at work -/

namespace Crawler

inductive Request where
  /-- A crawl, of the files that there are at the time. -/
  | gather (files : Snapshot) (base : String) (sources : List String) (deps : Dependencies)
  /-- The stored warnings. -/
  | peek
  /-- The stored warnings, to be stored no longer. -/
  | take

inductive Reply where
  | gathered (result : Gathered)
  | shown (warnings : List Fault)
  | taken (warnings : List Fault)

def serve (crawler : Crawler) : Request → Reply × Crawler
  | .gather files base sources deps =>
    let (result, next) := crawler.gather files base sources deps
    (.gathered result, next)
  | .peek => (.shown crawler.warnings, crawler)
  | .take =>
    let (warnings, next) := crawler.takeWarnings
    (.taken warnings, next)

def serveAll (crawler : Crawler) : List Request → List Reply × Crawler
  | [] => ([], crawler)
  | request :: rest =>
    let (reply, next) := crawler.serve request
    let (replies, last) := next.serveAll rest
    (reply :: replies, last)

/-- The warnings that are handed over for good. -/
def Reply.handed : Reply → List Fault
  | .taken warnings => warnings
  | _ => []

/-- The texts of the warnings noted meanwhile. -/
def Reply.records : Reply → List String
  | .gathered result => result.trace.warnings.map Note.text
  | _ => []

/-- The missing file that the reply is an error about. -/
def Reply.refused : Reply → List Fault
  | .gathered result => missed result.outcome
  | _ => []

def renewed (crawler : Crawler) : Crawler := { crawler with warnings := [] }

variable (crawler : Crawler)

/-- Apart from what it adds to the stored warnings, a crawl is that of a new crawler. -/
theorem gather_eq_renewed (files : Snapshot) (base : String) (sources : List String)
    (deps : Dependencies) :
    crawler.gather files base sources deps =
      ((crawler.renewed.gather files base sources deps).1,
        { crawler with
          warnings := crawler.warnings ++
            (crawler.renewed.gather files base sources deps).2.warnings }) := by
  have hstart : (⟨deps, crawler.warnings, {}⟩ : Crawl.Progress) =
      Crawl.Progress.behind crawler.warnings ⟨deps, [], {}⟩ := by
    simp [Crawl.Progress.behind]
  unfold gather
  rw [hstart, Crawl.gather_behind]
  rfl

theorem renewed_serve (request : Request) : (crawler.serve request).2.renewed = crawler.renewed := by
  cases request <;> rfl

theorem renewed_serveAll (requests : List Request) :
    (crawler.serveAll requests).2.renewed = crawler.renewed := by
  induction requests generalizing crawler with
  | nil => rfl
  | cons request rest ih => exact (ih (crawler.serve request).2).trans (crawler.renewed_serve request)

/-- One request: the warnings handed over and those left are those stored before and the new ones,
and the new ones are what has been noted. -/
theorem serve_logged (request : Request) :
    ∃ stored, (crawler.serve request).1.handed ++ (crawler.serve request).2.warnings =
        crawler.warnings ++ stored ∧
      (crawler.serve request).1.records =
        (stored ++ (crawler.serve request).1.refused).map Fault.message ∧
      ((crawler.serve request).1.refused ≠ [] → crawler.policy = .abort) := by
  cases request with
  | gather files base sources deps =>
    have hends := Crawl.ends_gather ⟨crawler.roots, base, crawler.policy⟩ files sources
      ⟨deps, crawler.warnings, {}⟩
    obtain ⟨⟨stored, hstored, hnoted⟩, hpolicy⟩ := hends.logged
    refine ⟨stored, hstored, ?_, hpolicy⟩
    calc (crawler.serve (.gather files base sources deps)).1.records
        = ((stored ++ missed _).map Note.warned).map Note.text := congrArg (List.map Note.text) hnoted
      _ = (stored ++ missed _).map Fault.message := List.map_map
  | peek => exact ⟨[], (List.append_nil _).symm, rfl, fun h => absurd rfl h⟩
  | take => exact ⟨[], rfl, rfl, fun h => absurd rfl h⟩

theorem serveAll_logged (requests : List Request) :
    ∃ stored : List (List Fault),
      (crawler.serveAll requests).1.flatMap Reply.handed ++
          (crawler.serveAll requests).2.warnings = crawler.warnings ++ stored.flatten ∧
      List.Forall₂ (fun reply faults =>
          reply.records = (faults ++ reply.refused).map Fault.message)
        (crawler.serveAll requests).1 stored ∧
      ∀ reply ∈ (crawler.serveAll requests).1, reply.refused ≠ [] → crawler.policy = .abort := by
  induction requests generalizing crawler with
  | nil => exact ⟨[], (List.append_nil _).symm, .nil, fun _ h => absurd h List.not_mem_nil⟩
  | cons request rest ih =>
    obtain ⟨first, hfirst, hrecords, hpolicy⟩ := crawler.serve_logged request
    obtain ⟨stored, hstored, hall, hpolicies⟩ := ih (crawler.serve request).2
    refine ⟨first :: stored, ?_, .cons hrecords hall, List.forall_mem_cons.2 ⟨hpolicy, ?_⟩⟩
    · calc (crawler.serve request).1.handed ++
            ((crawler.serve request).2.serveAll rest).1.flatMap Reply.handed ++
            ((crawler.serve request).2.serveAll rest).2.warnings
          = (crawler.serve request).1.handed ++
              ((crawler.serve request).2.warnings ++ stored.flatten) := by
            rw [List.append_assoc, hstored]
        _ = crawler.warnings ++ (first ++ stored.flatten) := by
            rw [← List.append_assoc, hfirst, List.append_assoc]
    · have hkept := congrArg Crawler.policy (crawler.renewed_serve request)
      change (crawler.serve request).2.policy = crawler.policy at hkept
      rwa [hkept] at hpolicies

/-- Whatever a crawler is asked for, and however the files change in between, every crawl is that of
a new crawler, and no warning is lost, doubled or moved: the warnings handed over and those left at
the end are those noted from the first crawl to the last, but for the missing files that a crawl has
ended with. -/
theorem serveAll_keeps_warnings (roots : Roots) (policy : Crawl.MissingPolicy)
    (requests : List Request) :
    let new : Crawler := { roots, policy }
    let served := new.serveAll requests
    (∀ files base sources deps,
      served.2.gather files base sources deps =
        ((new.gather files base sources deps).1,
          { served.2 with
            warnings := served.2.warnings ++ (new.gather files base sources deps).2.warnings })) ∧
    ∃ stored : List (List Fault),
      served.1.flatMap Reply.handed ++ served.2.warnings = stored.flatten ∧
      List.Forall₂ (fun reply faults =>
          reply.records = (faults ++ reply.refused).map Fault.message) served.1 stored ∧
      ∀ reply ∈ served.1, reply.refused ≠ [] → policy = .abort := by
  intro new served
  constructor
  · intro files base sources deps
    rw [gather_eq_renewed, new.renewed_serveAll requests]
    rfl
  · exact new.serveAll_logged requests

end Crawler

end ShaderIncludes
