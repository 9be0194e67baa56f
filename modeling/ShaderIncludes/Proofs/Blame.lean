import ShaderIncludes.Proofs.Composition

/-!
# The line that is blamed

A fault is found when the lines run out, perhaps far behind the directive that is at fault. Main
statement: the line blamed is the only one that is malformed with all lines in front of it read well,
and without such a line there is no fault (`parse_eq_error_iff_malformedAt`).
-/
namespace ShaderIncludes.Directive

open Header (isMarked)
open Text (trim)

/-- The lines in front of this one, counted from 1, are read well, and this one is malformed. -/
structure MalformedAt (file : String) (lines : List String) (number : Nat) : Prop where
  one_le : 1 ≤ number
  le_length : number ≤ lines.length
  parse_before : ∃ directives, parse file (lines.take (number - 1)) = .ok directives
  malformed : ∃ line, lines[number - 1]? = some line ∧ isMarked (trim line.toList) = true ∧
    Malformed (trim line.toList) (lines.drop number)

variable {file line : String} {lines before behind : List String} {number bad : Nat}
  {directives : List Directive}

theorem malformedAt_append (hbefore : parse file before = .ok directives)
    (hline : isMarked (trim line.toList) = true)
    (hmalformed : Malformed (trim line.toList) behind) :
    MalformedAt file (before ++ line :: behind) (before.length + 1) where
  one_le := by omega
  le_length := by simp
  parse_before := ⟨directives, by simpa using hbefore⟩
  malformed := ⟨line, by simp, hline, by simpa using hmalformed⟩

theorem MalformedAt.exists_append (h : MalformedAt file lines number) :
    ∃ before line behind directives, lines = before ++ line :: behind ∧
      number = before.length + 1 ∧ parse file before = .ok directives ∧
      isMarked (trim line.toList) = true ∧ Malformed (trim line.toList) behind := by
  obtain ⟨directives, hparse⟩ := h.parse_before
  obtain ⟨line, hget, hline, hmalformed⟩ := h.malformed
  obtain ⟨index, rfl⟩ := Nat.exists_eq_add_of_le' h.one_le
  have hlt : index < lines.length := h.le_length
  refine ⟨lines.take index, line, lines.drop (index + 1), directives, ?_, ?_, hparse, hline,
    hmalformed⟩
  · rw [Nat.add_sub_cancel, List.getElem?_eq_getElem hlt, Option.some_inj] at hget
    rw [← hget, List.getElem_cons_drop, List.take_append_drop]
  · rw [List.length_take, Nat.min_eq_left (Nat.le_of_lt hlt)]

theorem Reading.exists_malformed (h : Reading number lines (.error bad)) :
    ∃ before line behind directives, lines = before ++ line :: behind ∧
      bad = number + before.length ∧ Reading number before (.ok directives) ∧
      isMarked (trim line.toList) = true ∧ Malformed (trim line.toList) behind := by
  generalize herror : Except.error bad = outcome at h
  induction h with
  | finish => cases herror
  | @other number first rest outcome hfirst _ ih =>
    obtain ⟨before, line, behind, directives, rfl, rfl, hbefore, hline, hmalformed⟩ := ih herror
    refine ⟨first :: before, line, behind, directives, rfl, ?_, .other hfirst hbefore, hline,
      hmalformed⟩
    rw [List.length_cons]
    omega
  | @malformed number line behind hline hmalformed =>
    cases herror
    exact ⟨[], line, behind, [], rfl, rfl, .finish, hline, hmalformed⟩
  | @directive number first taken rest header body outcome hfirst hheader hbelongs _ ih =>
    obtain ⟨before, line, behind, directives, rfl, rfl, hbefore, hline, hmalformed⟩ :=
      ih (map_eq_error.1 herror.symm).symm
    -- the lines up to the malformed one hold all that belongs to this directive
    have hread := Reading.directive hfirst hheader hbelongs.of_append hbefore
    refine ⟨first :: (taken ++ before), line, behind, _, ?_, ?_, hread, hline, hmalformed⟩
    · simp
    · rw [List.length_cons, List.length_append]
      omega

theorem MalformedAt.parse_eq (h : MalformedAt file lines number) :
    parse file lines = .error (.malformed file number) := by
  obtain ⟨before, line, behind, directives, rfl, rfl, hbefore, hline, hmalformed⟩ :=
    h.exists_append
  have hread := (parse_eq_ok_iff.1 hbefore).append (opening?_of_marked hline behind)
    (.malformed hline hmalformed)
  rw [Nat.add_comm]
  exact parse_eq_error_iff.2 ⟨_, rfl, hread⟩

theorem exists_malformedAt {fault : Fault} (h : parse file lines = .error fault) :
    ∃ number, fault = .malformed file number ∧ MalformedAt file lines number := by
  obtain ⟨number, rfl, hread⟩ := parse_eq_error_iff.1 h
  obtain ⟨before, line, behind, directives, rfl, rfl, hbefore, hline, hmalformed⟩ :=
    hread.exists_malformed
  refine ⟨_, rfl, ?_⟩
  rw [Nat.add_comm]
  exact malformedAt_append (parse_eq_ok_iff.2 hbefore) hline hmalformed

/-- Reading fails with a fault that names the file and a line just where this line is malformed and all
in front of it is read well. There is one such line at most, and if there is none reading succeeds. -/
theorem parse_eq_error_iff_malformedAt (file : String) (lines : List String) :
    (∀ fault, parse file lines = .error fault ↔
      ∃ number, fault = .malformed file number ∧ MalformedAt file lines number) ∧
    (∀ m n, MalformedAt file lines m → MalformedAt file lines n → m = n) ∧
    ((∀ number, ¬ MalformedAt file lines number) →
      ∃ directives, parse file lines = .ok directives) := by
  refine ⟨fun fault => ⟨exists_malformedAt, ?_⟩, ?_, ?_⟩
  · rintro ⟨number, rfl, h⟩
    exact h.parse_eq
  · intro m n hm hn
    have hsame := hm.parse_eq.symm.trans hn.parse_eq
    simpa using hsame
  · intro hnone
    cases h : parse file lines with
    | ok directives => exact ⟨directives, rfl⟩
    | error fault =>
      obtain ⟨number, -, hmalformed⟩ := exists_malformedAt h
      exact absurd hmalformed (hnone number)

/-- The third line is text of the body that is never closed. -/
example : parse "shader" ["%A", "%B \x7b", "%C("] = .error (.malformed "shader" 2) := rfl

end ShaderIncludes.Directive
