import ShaderIncludes.Proofs.Matching

/-!
# The position of the opening brace

The brace of a directive may stand on the header's own line or begin a later one, and the two are told
apart and read in different ways. Main statement: it makes no difference to what is read, only to the
numbers of the lines behind (`parse_brace_below`).
-/
namespace ShaderIncludes.Directive

open Header (Form IsHeader)
open Text (allBlank isBlank trim)

/-- Two results of reading a directive on the first line, and so many lines behind it, which in the
second file stand `added` lines further down. -/
inductive Displaced (file : String) (behind added : Nat) :
    Except Fault (List Directive) → Except Fault (List Directive) → Prop where
  | header : Displaced file behind added
      (.error (.malformed file 1)) (.error (.malformed file 1))
  | later {line} (hline : 1 ≤ line ∧ line ≤ behind) : Displaced file behind added
      (.error (.malformed file (1 + line))) (.error (.malformed file (1 + added + line)))
  | read {first others} (hfirst : first.line = 1) : Displaced file behind added
      (.ok (first :: others)) (.ok (first :: others.map (down added)))

variable {file head rest indent : String} {blanks : List String}

/-- The lines behind a body, and the same lines further down, behind the same directive. -/
theorem displaced_of_behind (first : Directive) (hfirst : first.line = 1) (used added : Nat)
    (following : List String) :
    Displaced file following.length added
      (((parseFrom (1 + 1 + used) 0 (following.drop used)).map (first :: ·)).mapError
        (.malformed file))
      (((parseFrom (1 + 1 + (added + used)) 0 (following.drop used)).map (first :: ·)).mapError
        (.malformed file)) := by
  have hread := reading_parseFrom (1 + 1 + used) (following.drop used)
  have hdown := reading_iff.1 (hread.down added)
  have hnumber : 1 + 1 + (added + used) = 1 + 1 + used + added := by omega
  rw [hnumber, hdown]
  cases hresult : parseFrom (1 + 1 + used) 0 (following.drop used) with
  | ok others => exact .read hfirst
  | error bad =>
    rw [hresult] at hread
    obtain ⟨before, line, behind, -, hdrop, rfl, -⟩ := hread.exists_malformed
    have hlength := congrArg List.length hdrop
    rw [List.length_drop, List.length_append, List.length_cons] at hlength
    have hline : 1 + 1 + used + before.length = 1 + (1 + used + before.length) := by omega
    have hline' : 1 + 1 + used + before.length + added =
        1 + added + (1 + used + before.length) := by omega
    have hlater : Displaced file following.length added
        (.error (.malformed file (1 + (1 + used + before.length))))
        (.error (.malformed file (1 + added + (1 + used + before.length)))) :=
      .later (by omega)
    rwa [← hline, ← hline'] at hlater

/-- Two lines with the same header are read in the same way, wherever the brace stands. -/
theorem displaced_of_opens {line line' name : String} {params first last : Option String}
    {passed : List String} (hheader : Form (trim line.toList) ⟨name, params, first⟩)
    (hheader' : Form (trim line'.toList) ⟨name, params, last⟩)
    (hopens : Opens (trim line.toList) [] rest.toList)
    (hopens' : Opens (trim line'.toList) passed rest.toList) (file : String)
    (following : List String) :
    Displaced file following.length passed.length (parse file (line :: following))
      (parse file (line' :: (passed ++ following))) := by
  have hone := parseFrom_opens hheader.isMarked hheader hopens 1 following
  have htwo := parseFrom_opens hheader'.isMarked hheader' hopens' 1 following
  rw [List.nil_append, List.length_nil] at hone
  unfold parse
  rw [hone, htwo]
  cases hread : Body.read? rest following with
  | none => exact .header
  | some found =>
    obtain ⟨body, used⟩ := found
    dsimp only
    rw [Nat.zero_add]
    exact displaced_of_behind ⟨name, params, body, 1⟩ rfl used passed.length following

/-- Behind a header, the first text of a body can stand on the header's line or, behind blank lines, on
a line of its own that it begins. Either both files are at fault on the header's line, or both on the
same one of the lines that follow, or both are read as the same directives, of which those behind the
first stand further down by the lines that have been added. -/
theorem parse_brace_below (hhead : IsHeader (trim head.toList)) (hbrace : '{' ∉ head.toList)
    (hfeed : '\n' ∉ rest.toList) (hrest : ∀ c ∈ rest.toList.getLast?, isBlank c = false)
    (hindent : allBlank indent.toList = true) (hblanks : ∀ b ∈ blanks, isBlankLine b = true)
    (file : String) (following : List String) :
    Displaced file following.length (blanks.length + 1)
      (parse file ((head ++ "\x7b" ++ rest) :: following))
      (parse file (head :: (blanks ++ (indent ++ "\x7b" ++ rest) :: following))) := by
  obtain ⟨header, hform⟩ := hhead
  have hbrace' : '{' ∉ trim head.toList := fun hmem => hbrace (Text.mem_of_mem_trim hmem)
  have hne : trim head.toList ≠ [] := by
    intro hnil
    have hmarked := hform.isMarked
    rw [hnil] at hmarked
    cases hmarked
  obtain ⟨after, hafter, htrim⟩ :=
    Text.exists_trim_append_cons (c := '{') (by decide) hne rest.toList
  rw [Text.trimEnd_of_getLast hrest] at htrim
  have hone : (head ++ "\x7b" ++ rest).toList = head.toList ++ '{' :: rest.toList := by simp
  have htwo : (indent ++ "\x7b" ++ rest).toList = indent.toList ++ '{' :: rest.toList := by simp
  rw [← hone] at htrim
  have hform' := hform.append_brace hbrace' hafter hfeed
  rw [← htrim] at hform'
  have hopens : Opens (trim (head ++ "\x7b" ++ rest).toList) [] rest.toList := by
    refine .here ?_ htrim
    simp [hbrace', Header.opening_not_mem_of_allBlank hafter]
  have hopens' : Opens (trim head.toList) (blanks ++ [indent ++ "\x7b" ++ rest]) rest.toList :=
    .below hbrace' hblanks hindent htwo
  have hdisplaced := displaced_of_opens hform' hform hopens hopens' file following
  rwa [List.length_append, List.append_assoc] at hdisplaced

/-- A body with a brace in it, opened behind two blank lines, and two more directives behind it; and
with the last line gone, which leaves the third directive open. -/
theorem parse_brace_below_nested :
    let here (following : List String) := (" %A(x)\t" ++ "\x7b" ++ " a \x7b") :: following
    let below (following : List String) :=
      " %A(x)\t" :: (["", "\t"] ++ ("  " ++ "\x7b" ++ " a \x7b") :: following)
    let unclosed := ["b \x7d", "\x7d c", "%B", "%C \x7b"]
    let closed := unclosed ++ ["\x7d"]
    Displaced "shader" 5 3 (parse "shader" (here closed)) (parse "shader" (below closed)) ∧
      Displaced "shader" 4 3 (parse "shader" (here unclosed)) (parse "shader" (below unclosed)) ∧
      parse "shader" (below closed) = .ok [⟨"%A", some "x", [" a \x7b", "b \x7d"], 1⟩,
        ⟨"%B", none, [], 7⟩, ⟨"%C", none, [], 8⟩] ∧
      parse "shader" (here unclosed) = .error (.malformed "shader" 5) := by
  have hhead : IsHeader (trim " %A(x)\t".toList) := Header.isHeader_iff.2 ⟨_, rfl⟩
  have hlast : ∀ c ∈ " a \x7b".toList.getLast?, isBlank c = false := by
    rintro c ⟨⟩
    rfl
  have hplaced := @parse_brace_below " %A(x)\t" " a \x7b" "  " ["", "\t"] hhead (by decide) (by decide)
    hlast (by decide) (by decide) "shader"
  exact ⟨hplaced ["b \x7d", "\x7d c", "%B", "%C \x7b", "\x7d"],
    hplaced ["b \x7d", "\x7d c", "%B", "%C \x7b"], rfl, rfl⟩

end ShaderIncludes.Directive
