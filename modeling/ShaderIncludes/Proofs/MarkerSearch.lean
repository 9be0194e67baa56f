import ShaderIncludes.Discovery
import ShaderIncludes.Proofs.FirstMatch
import ShaderIncludes.Store.Memory

/-!
# The search for the marker

The markers are probed in order up to the first that there is. Where there is none the catalog is
refreshed and all is done once more. Main statement: which calls and notes that makes, and what comes
of it, by what there is before the refresh and what there is after it (`discover_first`). The catalog
may answer as it likes, so long as a file comes or goes at a refresh only.
-/
namespace ShaderIncludes

/-- Files come and go at a refresh, and at no other call. -/
def Catalog.ChangesAtRefresh (c : Catalog) : Prop :=
  ∀ before more path, .refresh ∉ more → c.present (before ++ more) path = c.present before path

theorem Store.Memory.changesAtRefresh (m : Store.Memory) : m.catalog.ChangesAtRefresh := by
  intro before more path hmore
  simp only [catalog, after, List.mem_append, hmore, or_false]

namespace Lookup

variable {c : Catalog} {before : List Call} {paths : List String} {i : Nat} {place : String}

/-- There is a file at `place`, the path in position `i`, and at none of those before it. -/
structure IsFirst (there : String → Bool) (paths : List String) (i : Nat) (place : String) :
    Prop where
  position : paths[i]? = some place
  present : there place = true
  absent : ∀ other ∈ paths.take i, there other = false

theorem IsFirst.not_absent {there : String → Bool} (h : IsFirst there paths i place) :
    ¬ ∀ path ∈ paths, there path = false := by
  intro hnone
  have habsent := hnone place (List.mem_of_getElem? h.position)
  rw [h.present] at habsent
  cases habsent

theorem read_not_mem_probes (path : String) (paths : List String) :
    .read path ∉ paths.map Call.probe := by
  simp

theorem refresh_not_mem_probes (paths : List String) : .refresh ∉ paths.map Call.probe := by
  simp

/-- While nothing is refreshed, the answers are those before the first probe. -/
theorem answer_eq (hc : c.ChangesAtRefresh) (before : List Call) (paths : List String) (i : Nat) :
    answer c before paths i = paths[i]?.any (c.present before) := by
  unfold answer
  congr 1
  funext path
  exact hc before _ path (refresh_not_mem_probes _)

theorem FirstAt.isFirst (hc : c.ChangesAtRefresh) (h : FirstAt c before paths i place) :
    IsFirst (c.present before) paths i place where
  position := h.position
  present := by
    have hpresent := h.present
    rw [answer_eq hc, h.position] at hpresent
    exact hpresent
  absent other hother := by
    obtain ⟨j, hj, hget⟩ := List.mem_take_iff_getElem.1 hother
    have habsent := h.absent j (Nat.lt_of_lt_of_le hj (Nat.min_le_left _ _))
    rw [answer_eq hc, List.getElem?_eq_getElem (Nat.lt_of_lt_of_le hj (Nat.min_le_right _ _)), hget]
      at habsent
    exact habsent

theorem absent_of_answers (hc : c.ChangesAtRefresh) (h : ∀ i, answer c before paths i = false) :
    ∀ path ∈ paths, c.present before path = false := by
  intro path hpath
  obtain ⟨i, hi⟩ := List.mem_iff_getElem?.1 hpath
  have habsent := h i
  rw [answer_eq hc, hi] at habsent
  exact habsent

/-- One round of probes, where files come and go at a refresh only. -/
theorem firstPresent?_cases (hc : c.ChangesAtRefresh) (paths : List String) (t : Trace) :
    (∃ i place, IsFirst (c.present t.calls) paths i place ∧ firstPresent? c paths t =
      (some place, t.append ⟨(paths.take (i + 1)).map .probe, []⟩)) ∨
    (∀ path ∈ paths, c.present t.calls path = false) ∧
      firstPresent? c paths t = (none, t.append ⟨paths.map .probe, []⟩) := by
  obtain ⟨calls, htrace, hprobes⟩ := firstPresent?_probes c t paths
  rcases hround : firstPresent? c paths t with ⟨_ | place, u⟩ <;>
    rw [hround] at htrace hprobes <;> dsimp only at htrace hprobes <;> subst htrace
  · obtain rfl := hprobes.calls_eq
    exact .inr ⟨absent_of_answers hc hprobes.answer_eq_false, rfl⟩
  · obtain ⟨i, hfirst, rfl⟩ := hprobes.firstAt
    exact .inl ⟨i, place, hfirst.isFirst hc, rfl⟩

end Lookup

namespace Roots

open Lookup (IsFirst)

variable {c : Catalog}

/-- What is noted when a marker has been found. -/
def found (marker : String) : Note := .markerFound marker (ofMarker marker).primary

/-- A search ends in the first round, in the second one, or without a marker. -/
theorem discover_cases (hc : c.ChangesAtRefresh) (candidates : List String) (t : Trace) :
    let all := candidates.map Call.probe
    let now := c.present t.calls
    let later := c.present (t.calls ++ all ++ [.refresh])
    (∃ i marker, IsFirst now candidates i marker ∧ discover c candidates t =
      (.ok (ofMarker marker), t.append ⟨(candidates.take (i + 1)).map .probe, [found marker]⟩)) ∨
    (∀ marker ∈ candidates, now marker = false) ∧
      ((∃ i marker, IsFirst later candidates i marker ∧ discover c candidates t =
        (.ok (ofMarker marker), t.append
          ⟨all ++ .refresh :: (candidates.take (i + 1)).map .probe, [.refreshing, found marker]⟩)) ∨
      (∀ marker ∈ candidates, later marker = false) ∧ discover c candidates t =
        (.error (.noMarker candidates), t.append ⟨all ++ .refresh :: all, [.refreshing]⟩)) := by
  intro all now later
  let again : Trace := ((t.append ⟨all, []⟩).addNote .refreshing).addCall .refresh
  have hagain : ∀ calls notes, again.append ⟨calls, notes⟩ =
      t.append ⟨all ++ .refresh :: calls, .refreshing :: notes⟩ := by
    intro calls notes
    simp [again, Trace.append, Trace.addNote, Trace.addCall]
  unfold discover marker?
  rcases Lookup.firstPresent?_cases hc candidates t with ⟨i, marker, hfirst, hround⟩ | ⟨hnow, hround⟩ <;>
    rw [hround]
  · exact .inl ⟨i, marker, hfirst, congrArg (Prod.mk _) (Trace.append_addNote t _ _)⟩
  · refine .inr ⟨hnow, ?_⟩
    rcases Lookup.firstPresent?_cases hc candidates again with
      ⟨i, marker, hfirst, hround'⟩ | ⟨hlater, hround'⟩ <;> dsimp only <;> rw [hround', hagain]
    · exact .inl ⟨i, marker, hfirst, congrArg (Prod.mk _) (Trace.append_addNote t _ _)⟩
    · exact .inr ⟨hlater, rfl⟩

/-- What the records of a search have in common. -/
theorem discover_record (hc : c.ChangesAtRefresh) (candidates : List String) (t : Trace) :
    ∃ calls notes, (discover c candidates t).2 = t.append ⟨calls, notes⟩ ∧
      (∀ path, .read path ∉ calls) ∧ (∀ note ∈ notes, note.level = .debug) ∧
      (.refreshing ∈ notes ↔ .refresh ∈ calls) ∧
      ((∃ marker, found marker ∈ notes) ↔ ∃ roots, (discover c candidates t).1 = .ok roots) := by
  have hreads := Lookup.read_not_mem_probes
  rcases discover_cases hc candidates t with
    ⟨i, marker, -, h⟩ | ⟨-, ⟨i, marker, -, h⟩ | ⟨-, h⟩⟩ <;> rw [h]
  · have hrefresh := Lookup.refresh_not_mem_probes (candidates.take (i + 1))
    refine ⟨_, _, rfl, fun path => hreads path _, ?_, ?_, ?_⟩
    · simp [found, Note.level]
    · simp only [hrefresh, iff_false]
      simp [found]
    · exact ⟨fun _ => ⟨_, rfl⟩, fun _ => ⟨marker, List.mem_cons_self⟩⟩
  · refine ⟨_, _, rfl, fun path => ?_, ?_, ?_, ?_⟩
    · simp only [List.mem_append, List.mem_cons, hreads, or_false, false_or]
      exact Call.noConfusion
    · simp [found, Note.level]
    · simp
    · exact ⟨fun _ => ⟨_, rfl⟩, fun _ => ⟨marker, by simp⟩⟩
  · refine ⟨_, _, rfl, fun path => ?_, ?_, ?_, ?_⟩
    · simp only [List.mem_append, List.mem_cons, hreads, or_false, false_or]
      exact Call.noConfusion
    · simp [Note.level]
    · simp
    · simp [found]

/-- If there is a marker it is the first one that tells the folders, and those before it are all that is
probed besides. If there is none the catalog is refreshed, once, and the first one that there is then
does. If there is still none the fault names all of them, and each has been probed twice. Nothing is
read, and the notes are for the curious: of a refresh if there was one, and then of a marker if it was
found. -/
theorem discover_first (hc : c.ChangesAtRefresh) (candidates : List String) (t : Trace) :
    let all := candidates.map Call.probe
    let now := c.present t.calls
    let later := c.present (t.calls ++ all ++ [.refresh])
    ((∃ marker ∈ candidates, now marker = true) →
      ∃ i marker, IsFirst now candidates i marker ∧ discover c candidates t =
        (.ok (ofMarker marker), t.append ⟨(candidates.take (i + 1)).map .probe, [found marker]⟩)) ∧
    ((∀ marker ∈ candidates, now marker = false) → (∃ marker ∈ candidates, later marker = true) →
      ∃ i marker, IsFirst later candidates i marker ∧ discover c candidates t =
        (.ok (ofMarker marker), t.append
          ⟨all ++ .refresh :: (candidates.take (i + 1)).map .probe, [.refreshing, found marker]⟩)) ∧
    ((∀ marker ∈ candidates, now marker = false) → (∀ marker ∈ candidates, later marker = false) →
      discover c candidates t =
        (.error (.noMarker candidates), t.append ⟨all ++ .refresh :: all, [.refreshing]⟩)) ∧
    ∃ calls notes, (discover c candidates t).2 = t.append ⟨calls, notes⟩ ∧
      (∀ path, .read path ∉ calls) ∧ (∀ note ∈ notes, note.level = .debug) ∧
      (.refreshing ∈ notes ↔ .refresh ∈ calls) ∧
      ((∃ marker, found marker ∈ notes) ↔ ∃ roots, (discover c candidates t).1 = .ok roots) := by
  intro all now later
  have hnone : ∀ {there : String → Bool}, (∀ marker ∈ candidates, there marker = false) →
      ¬ ∃ marker ∈ candidates, there marker = true := by
    rintro there hnone ⟨marker, hmem, hmarker⟩
    rw [hnone marker hmem] at hmarker
    cases hmarker
  have hrecord := discover_record hc candidates t
  rcases discover_cases hc candidates t with
    ⟨i, marker, hnow, h⟩ | ⟨hnow, ⟨i, marker, hlater, h⟩ | ⟨hlater, h⟩⟩
  · exact ⟨fun _ => ⟨i, marker, hnow, h⟩, fun habsent => absurd habsent hnow.not_absent,
      fun habsent => absurd habsent hnow.not_absent, hrecord⟩
  · exact ⟨fun hsome => absurd hsome (hnone hnow), fun _ _ => ⟨i, marker, hlater, h⟩,
      fun _ habsent => absurd habsent hlater.not_absent, hrecord⟩
  · exact ⟨fun hsome => absurd hsome (hnone hnow), fun _ hsome => absurd hsome (hnone hlater),
      fun _ _ => h, hrecord⟩

/-- Two markers that are late, and before them one that never comes: the second one tells the folder. -/
theorem discover_first_late :
    let m : Store.Memory := { late := [("C/Resources/M", []), ("B/Resources/M", [])] }
    let candidates := ["A/Resources/M", "B/Resources/M", "C/Resources/M"]
    let later := m.catalog.present (candidates.map .probe ++ [.refresh])
    m.catalog.ChangesAtRefresh ∧
      (∃ i marker, IsFirst later candidates i marker ∧ discover m.catalog candidates {} =
        (.ok (ofMarker marker),
          ⟨candidates.map .probe ++ .refresh :: (candidates.take (i + 1)).map .probe,
            [.refreshing, found marker]⟩)) ∧
      (discover m.catalog candidates {}).1.toOption =
        some ⟨"B/Sources", "/Packages/sh.orels.shaders/Runtime"⟩ := by
  intro m candidates later
  have hc := m.changesAtRefresh
  exact ⟨hc, (discover_first hc candidates {}).2.1 (by decide) (by decide), by decide⟩

end Roots

end ShaderIncludes
