import ShaderIncludes.Proofs.CallOrder

/-!
# The first match

A reference comes down to one list of paths: a bare path and its three extensions, and for a bundled
file all four of them in the one root and then in the other. Main statement: a look-up finds the first
of them at which there is a file, probes it and those before it and nothing else, and fails when there
is none (`find_first`). A catalog may change its answers from one call to the next, so whether there is
a file at a path is its answer after the probes of the paths before.
-/
namespace ShaderIncludes.Lookup

/-- Where a path leads from a folder. A path with a slash in front leads away from any folder. -/
def target (folder path : String) : String :=
  String.ofList <| Path.dropSlash <|
    if ['/'] <+: path.toList then path.toList.tail
    else if ['.', '.'] <+: path.toList then Path.walk folder.toList path.toList
    else folder.toList ++ '/' :: path.toList

/-- The bare path, and with each extension. -/
def variants (folder path : String) : List String :=
  let bare := target folder path
  [bare, bare ++ ".orlsource", bare ++ ".orlshader", bare ++ ".orltemplate"]

/-- All paths that a reference can mean, the preferred ones first. -/
def tried (roots : Roots) (base : String) : Reference → List String
  | .bundled path => variants roots.primary path ++ variants roots.secondary path
  | .absolute path => variants base path
  | .relative path => variants base path

/-- Whether there is a file at the path in position `i` when the ones before have been probed. -/
def answer (c : Catalog) (before : List Call) (paths : List String) (i : Nat) : Bool :=
  paths[i]?.any (c.present (before ++ (paths.take i).map .probe))

/-- At `place`, the path in position `i`, there is a file, and at none of those before it. -/
structure FirstAt (c : Catalog) (before : List Call) (paths : List String) (i : Nat)
    (place : String) : Prop where
  position : paths[i]? = some place
  present : answer c before paths i = true
  absent : ∀ j < i, answer c before paths j = false

variable {c : Catalog} {before calls : List Call} {paths rest : List String} {path place other : String}
  {i j : Nat}

theorem firstAt_iff : FirstAt c before paths i place ↔
    paths[i]? = some place ∧ answer c before paths i = true ∧
      ∀ j < i, answer c before paths j = false :=
  ⟨fun h => ⟨h.position, h.present, h.absent⟩, fun ⟨h, h', h''⟩ => ⟨h, h', h''⟩⟩

instance : Decidable (FirstAt c before paths i place) := decidable_of_iff _ firstAt_iff.symm

/-! ## The paths -/

theorem target_eq_locate (folder path : String) : target folder path = Path.locate folder path := by
  unfold target Path.locate Path.place
  congr 2
  by_cases hslash : ['/'] <+: path.toList
  · rw [if_pos hslash]
    obtain ⟨rest, hrest⟩ := hslash
    rw [← hrest]
    rfl
  by_cases hdots : ['.', '.'] <+: path.toList
  · rw [if_neg hslash, if_pos hdots]
    obtain ⟨rest, hrest⟩ := hdots
    rw [← hrest]
    rfl
  rw [if_neg hslash, if_neg hdots]
  split
  · rename_i rest hpath
    exact absurd ⟨rest, hpath.symm⟩ hslash
  · rename_i rest hpath
    exact absurd ⟨rest, hpath.symm⟩ hdots
  · rfl

theorem variants_eq_candidates (folder path : String) :
    variants folder path = candidates folder path := by
  simp only [variants, candidates, target_eq_locate, Kind.all, Kind.extend, List.map_cons,
    List.map_nil, String.append_assoc]
  rfl

theorem tried_eq (roots : Roots) (base : String) (ref : Reference) :
    tried roots base ref = (ref.folders roots base).flatMap (candidates · ref.path) := by
  cases ref <;> simp [tried, Reference.folders, Reference.path, variants_eq_candidates]

/-! ## The first of them with a file -/

theorem answer_nil : answer c before [] i = false := rfl

theorem answer_zero : answer c before (path :: rest) 0 = c.present before path :=
  congrArg (c.present · path) (List.append_nil before)

theorem answer_succ :
    answer c before (path :: rest) (i + 1) = answer c (before ++ [.probe path]) rest i := by
  unfold answer
  rw [List.getElem?_cons_succ, List.take_succ_cons, List.map_cons, List.append_cons]

theorem FirstAt.eq (h : FirstAt c before paths i place) (h' : FirstAt c before paths j other) :
    i = j ∧ place = other := by
  rcases Nat.lt_trichotomy i j with hlt | rfl | hlt
  · exact absurd h.present (Bool.eq_false_iff.1 (h'.absent i hlt))
  · exact ⟨rfl, Option.some.inj (h.position.symm.trans h'.position)⟩
  · exact absurd h'.present (Bool.eq_false_iff.1 (h.absent j hlt))

theorem FirstAt.cons (habsent : c.present before path = false)
    (h : FirstAt c (before ++ [.probe path]) rest i place) :
    FirstAt c before (path :: rest) (i + 1) place where
  position := h.position
  present := answer_succ.trans h.present
  absent j hj := by
    cases j with
    | zero => exact answer_zero.trans habsent
    | succ j => exact answer_succ.trans (h.absent j (Nat.lt_of_succ_lt_succ hj))

theorem Probes.firstAt (h : Probes c before paths calls (some place)) :
    ∃ i, FirstAt c before paths i place ∧ calls = (paths.take (i + 1)).map .probe := by
  generalize hfound : some place = found at h
  induction h with
  | nothing => cases hfound
  | hit hpresent =>
    cases hfound
    exact ⟨0, ⟨rfl, answer_zero.trans hpresent, fun j hj => absurd hj (Nat.not_lt_zero j)⟩, rfl⟩
  | miss habsent _ ih =>
    obtain ⟨i, hfirst, rfl⟩ := ih hfound
    exact ⟨i + 1, hfirst.cons habsent, rfl⟩

theorem Probes.answer_eq_false (h : Probes c before paths calls none) (i : Nat) :
    answer c before paths i = false := by
  generalize hfound : (none : Option String) = found at h
  induction h generalizing i with
  | nothing => exact answer_nil
  | hit => cases hfound
  | miss habsent _ ih =>
    cases i with
    | zero => exact answer_zero.trans habsent
    | succ i => exact answer_succ.trans (ih i hfound)

theorem Probes.calls_eq (h : Probes c before paths calls none) : calls = paths.map .probe := by
  generalize hfound : (none : Option String) = found at h
  induction h with
  | nothing => rfl
  | hit => cases hfound
  | miss _ _ ih => rw [ih hfound, List.map_cons]

/-- A look-up ends at the first path with a file, or behind the last one. -/
theorem find_cases (c : Catalog) (roots : Roots) (base : String) (ref : Reference) (t : Trace) :
    let paths := tried roots base ref
    let fault := .missing ref.toString (ref.folders roots base)
    (∃ i place, FirstAt c t.calls paths i place ∧ find c roots base ref t =
      (.ok place, t.append ⟨(paths.take (i + 1)).map .probe, [.located ref.path place]⟩)) ∨
    (∀ i, answer c t.calls paths i = false) ∧
      find c roots base ref t = (.error fault, t.append ⟨paths.map .probe, [.warned fault]⟩) := by
  obtain ⟨calls, htrace, hprobes⟩ := inFolders?_probes c t ref.path (ref.folders roots base)
  rw [← tried_eq] at hprobes
  unfold find
  dsimp only
  rcases hfolders : inFolders? c ref.path (ref.folders roots base) t with ⟨_ | place, u⟩ <;>
    rw [hfolders] at htrace hprobes <;> dsimp only at htrace hprobes <;> subst htrace
  · obtain rfl := hprobes.calls_eq
    exact .inr ⟨hprobes.answer_eq_false, congrArg (Prod.mk _) (Trace.append_addNote t _ _)⟩
  · obtain ⟨i, hfirst, rfl⟩ := hprobes.firstAt
    exact .inl ⟨i, place, hfirst, rfl⟩

/-- A reference is found at a place if and only if that is the first of its paths with a file. The
calls are the probes of the paths up to there. Where there is no file at any, all of them are probed
once, one warning is noted, and the fault names the reference as it is written and the folders it has
been looked for in. -/
theorem find_first (c : Catalog) (roots : Roots) (base : String) (ref : Reference) (t : Trace) :
    let paths := tried roots base ref
    let fault := .missing ref.toString (ref.folders roots base)
    (∀ place, (find c roots base ref t).1 = .ok place ↔
      ∃ i, FirstAt c t.calls paths i place) ∧
    (∀ i place, FirstAt c t.calls paths i place → find c roots base ref t =
      (.ok place, t.append ⟨(paths.take (i + 1)).map .probe, [.located ref.path place]⟩)) ∧
    ((∀ i < paths.length, answer c t.calls paths i = false) →
      find c roots base ref t = (.error fault, t.append ⟨paths.map .probe, [.warned fault]⟩)) := by
  intro paths fault
  rcases find_cases c roots base ref t with ⟨i, place, hfirst, hfind⟩ | ⟨hnone, hfind⟩ <;> rw [hfind]
  · refine ⟨fun other => ⟨?_, ?_⟩, ?_, ?_⟩
    · rintro ⟨⟩
      exact ⟨i, hfirst⟩
    · rintro ⟨j, hother⟩
      rw [(hfirst.eq hother).2]
    · intro j other hother
      obtain ⟨rfl, rfl⟩ := hfirst.eq hother
      rfl
    · intro hnone
      obtain ⟨hi, -⟩ := List.getElem?_eq_some_iff.1 hfirst.position
      exact absurd hfirst.present (Bool.eq_false_iff.1 (hnone i hi))
  · refine ⟨fun other => ⟨nofun, ?_⟩, ?_, fun _ => rfl⟩
    · rintro ⟨i, hfirst⟩
      exact absurd hfirst.present (Bool.eq_false_iff.1 (hnone i))
    · intro i other hfirst
      exact absurd hfirst.present (Bool.eq_false_iff.1 (hnone i))

/-- A bundled file that is only in the second root and has two of the extensions there; and a missing
file two folders up from the base. -/
theorem find_first_second_root :
    let c : Catalog :=
      .fixed (fun path => path = "S/X.orlshader" || path = "S/X.orltemplate") fun _ => .ok []
    let roots : Roots := ⟨"/P", "S"⟩
    FirstAt c [] (tried roots "A/B/C" (.bundled "X")) 6 "S/X.orlshader" ∧
      find c roots "A/B/C" (.bundled "X") {} = (.ok "S/X.orlshader",
        ⟨[.probe "P/X", .probe "P/X.orlsource", .probe "P/X.orlshader", .probe "P/X.orltemplate",
            .probe "S/X", .probe "S/X.orlsource", .probe "S/X.orlshader"],
          [.located "X" "S/X.orlshader"]⟩) ∧
      find c roots "A/B/C" (.relative "../../X") {} = (.error (.missing "../../X" ["A/B/C"]),
        ⟨[.probe "A/X", .probe "A/X.orlsource", .probe "A/X.orlshader", .probe "A/X.orltemplate"],
          [.warned (.missing "../../X" ["A/B/C"])]⟩) := by
  intro c roots
  have hfirst : FirstAt c [] (tried roots "A/B/C" (.bundled "X")) 6 "S/X.orlshader" := by decide
  refine ⟨hfirst, ?_, ?_⟩
  · have hfind := (find_first c roots "A/B/C" (.bundled "X") {}).2.1 6 "S/X.orlshader" hfirst
    exact hfind.trans (congrArg (Prod.mk _) (by decide))
  · have hfind := (find_first c roots "A/B/C" (.relative "../../X") {}).2.2 (by decide)
    exact hfind.trans (congrArg (Prod.mk _) (by decide))

end ShaderIncludes.Lookup
