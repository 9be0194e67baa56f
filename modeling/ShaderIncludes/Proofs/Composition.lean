import ShaderIncludes.Proofs.Reading

/-!
# Files put together

Reading goes through a file from front to back and carries nothing along but the number of the line.
Main statement: a file that is read well, and any lines behind it that do not begin with a brace, are
read as the two of them are on their own (`parse_append`).
-/
namespace ShaderIncludes.Directive

/-- The same directive, so many lines further down. -/
def down (lines : Nat) (directive : Directive) : Directive :=
  { directive with line := directive.line + lines }

/-- What reading comes to, so many lines further down. -/
def resultDown (lines : Nat) : Except Nat (List Directive) → Except Nat (List Directive)
  | .ok directives => .ok (directives.map (down lines))
  | .error number => .error (number + lines)

variable {file : String} {lines more : List String} {number : Nat} {directives : List Directive}
  {result : Except Nat (List Directive)}

theorem resultDown_map (count : Nat) (directive : Directive) (result : Except Nat (List Directive)) :
    resultDown count (result.map (directive :: ·)) =
      (resultDown count result).map (down count directive :: ·) := by
  cases result <;> rfl

theorem Reading.down (h : Reading number lines result) (count : Nat) :
    Reading (number + count) lines (resultDown count result) := by
  induction h with
  | finish => exact .finish
  | other hline _ ih =>
    refine .other hline ?_
    rwa [Nat.add_right_comm]
  | malformed hline hmalformed => exact .malformed hline hmalformed
  | directive hline hheader hbelongs _ ih =>
    rw [resultDown_map]
    refine .directive hline hheader hbelongs ?_
    rwa [Nat.add_right_comm _ count, Nat.add_right_comm _ count]

theorem Reading.append (h : Reading number lines (.ok directives)) (hmore : opening? more = none)
    (hresult : Reading (number + lines.length) more result) :
    Reading number (lines ++ more) (result.map (directives ++ ·)) := by
  generalize hok : Except.ok directives = outcome at h
  induction h generalizing directives with
  | finish =>
    cases hok
    cases result <;> exact hresult
  | @other number line rest outcome hline _ ih =>
    have hnumber : number + (line :: rest).length = number + 1 + rest.length := by
      rw [List.length_cons]
      omega
    rw [hnumber] at hresult
    exact .other hline (ih hresult hok)
  | malformed => cases hok
  | @directive number line taken rest header body outcome hline hheader hbelongs _ ih =>
    obtain ⟨others, rfl, rfl⟩ := map_eq_ok.1 hok.symm
    have hnumber : number + (line :: (taken ++ rest)).length =
        number + 1 + taken.length + rest.length := by
      rw [List.length_cons, List.length_append]
      omega
    rw [hnumber] at hresult
    have hall := Reading.directive hline hheader (hbelongs.append hmore) (ih hresult rfl)
    rw [List.cons_append, List.append_assoc]
    cases result <;> exact hall

theorem parse_eq_ok_iff : parse file lines = .ok directives ↔ Reading 1 lines (.ok directives) := by
  rw [reading_iff, parse, mapError_eq_ok]

theorem parse_eq_error_iff {fault : Fault} : parse file lines = .error fault ↔
    ∃ number, fault = .malformed file number ∧ Reading 1 lines (.error number) := by
  rw [parse, mapError_eq_error]
  constructor
  · rintro ⟨number, herror, rfl⟩
    exact ⟨number, rfl, reading_iff.2 herror⟩
  · rintro ⟨number, rfl, herror⟩
    exact ⟨number, reading_iff.1 herror, rfl⟩

/-- The condition under which lines open no body for the header in front of them. -/
theorem opening?_eq_none_of_find? (h : ∀ line, lines.find? (fun l => !isBlankLine l) = some line →
    (Text.trimStart line.toList).head? ≠ some '{') : opening? lines = none := by
  cases hopening : opening? lines with
  | none => rfl
  | some found =>
    obtain ⟨blanks, line, lead, rest, rfl, -, hblanks, hlead, hline⟩ :=
      exists_of_opening? hopening
    have hbrace : Text.isBlank '{' = false := by decide
    have hfull : isBlankLine line = false := by
      simp [isBlankLine, Text.allBlank, hline, hbrace]
    have hnone : blanks.find? (fun l => !isBlankLine l) = none := by
      simpa using hblanks
    refine absurd ?_ (h line (by simp [List.find?_append, hnone, hfull]))
    rw [hline, Text.trimStart_append hlead, Text.trimStart_cons hbrace]
    rfl

/-- Lines that are read well, and lines behind them whose first text is no brace. If the latter are
read well, the whole is read as the directives of both; if not, the whole has their fault. Either way
what comes from the latter stands further down by the number of the former. -/
theorem parse_append (hlines : parse file lines = .ok directives)
    (hmore : ∀ line, more.find? (fun l => !isBlankLine l) = some line →
      (Text.trimStart line.toList).head? ≠ some '{') :
    (∀ others, parse file more = .ok others →
      parse file (lines ++ more) = .ok (directives ++ others.map (down lines.length))) ∧
    ∀ fault, parse file more = .error fault → ∃ number, fault = .malformed file number ∧
      parse file (lines ++ more) = .error (.malformed file (number + lines.length)) := by
  have hopening := opening?_eq_none_of_find? hmore
  have hread := parse_eq_ok_iff.1 hlines
  constructor
  · intro others hothers
    exact parse_eq_ok_iff.2 (hread.append hopening ((parse_eq_ok_iff.1 hothers).down lines.length))
  · intro fault hfault
    obtain ⟨number, rfl, herror⟩ := parse_eq_error_iff.1 hfault
    refine ⟨number, rfl, parse_eq_error_iff.2 ⟨_, rfl, ?_⟩⟩
    exact hread.append hopening (herror.down lines.length)

/-- The header in front looks for its body as far as the second file. -/
theorem parse_append_bare_header :
    parse "shader" ["%A(a)", ""] = .ok [⟨"%A", some "a", [], 1⟩] ∧
    (∀ line, ["", "note", "%B \x7b", " x \x7d"].find? (fun l => !isBlankLine l) = some line →
      (Text.trimStart line.toList).head? ≠ some '{') ∧
    parse "shader" (["%A(a)", ""] ++ ["", "note", "%B \x7b", " x \x7d"]) =
      .ok [⟨"%A", some "a", [], 1⟩, ⟨"%B", none, [" x "], 5⟩] := by
  have hlines : parse "shader" ["%A(a)", ""] = .ok [⟨"%A", some "a", [], 1⟩] := rfl
  have hmore : ∀ line,
      ["", "note", "%B \x7b", " x \x7d"].find? (fun l => !isBlankLine l) = some line →
        (Text.trimStart line.toList).head? ≠ some '{' := by
    decide +kernel
  exact ⟨hlines, hmore, (parse_append hlines hmore).1 [⟨"%B", none, [" x "], 3⟩] rfl⟩

end ShaderIncludes.Directive
