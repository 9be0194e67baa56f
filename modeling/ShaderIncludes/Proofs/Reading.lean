import ShaderIncludes.Directive
import ShaderIncludes.Proofs.Braces
import ShaderIncludes.Proofs.HeaderForm

/-!
# Files by rules

What a file is read as, one rule for each thing that can stand at the beginning of what is left of it:
a line that is no header, a directive with the lines that belong to it, or a directive that is not
well formed. Main statement: the rules derive what reading comes to, and nothing else
(`reading_iff`), so that an induction on derivations goes from directive to directive.
-/
namespace ShaderIncludes.Directive

open Body (Encloses StaysOpen chars)
open Header (Form IsHeader isMarked)
open Text (allBlank trim)

/-- The text of a header opens a body: behind the brace, on the header's own line or at the beginning
of the last of the lines `passed` behind it, there is `rest`. -/
inductive Opens (head : List Char) : (passed : List String) → (rest : List Char) → Prop where
  | here {before rest} (hbefore : '{' ∉ before) (hhead : head = before ++ '{' :: rest) :
      Opens head [] rest
  | below {blanks line lead rest} (hhead : '{' ∉ head)
      (hblanks : ∀ b ∈ blanks, isBlankLine b = true) (hlead : allBlank lead = true)
      (hline : line.toList = lead ++ '{' :: rest) : Opens head (blanks ++ [line]) rest

/-- Of the lines behind a header with this text, `taken` are those of its body; `more` come next. -/
inductive Belongs (head : List Char) : (taken body more : List String) → Prop where
  | body {passed rest enclosed body more} (hopens : Opens head passed rest)
      (hencloses : Encloses rest enclosed body) : Belongs head (passed ++ enclosed) body more
  | bare {more} (hhead : '{' ∉ head) (hmore : opening? more = none) : Belongs head [] [] more

/-- The text is no header, or it is one whose body is opened and not closed by the lines behind it. -/
def Malformed (head : List Char) (behind : List String) : Prop :=
  ¬ IsHeader head ∨ ∃ passed rest more, behind = passed ++ more ∧ Opens head passed rest ∧
    StaysOpen 0 (rest ++ chars more)

/-- The lines, of which the first has this number, are read with this result. -/
inductive Reading : (number : Nat) → List String → Except Nat (List Directive) → Prop where
  | finish {number} : Reading number [] (.ok [])
  | other {number line rest result} (hline : isMarked (trim line.toList) = false)
      (hrest : Reading (number + 1) rest result) : Reading number (line :: rest) result
  | malformed {number line behind} (hline : isMarked (trim line.toList) = true)
      (hmalformed : Malformed (trim line.toList) behind) :
      Reading number (line :: behind) (.error number)
  | directive {number line taken rest header body result}
      (hline : isMarked (trim line.toList) = true) (hheader : Form (trim line.toList) header)
      (hbelongs : Belongs (trim line.toList) taken body rest)
      (hrest : Reading (number + 1 + taken.length) rest result) :
      Reading number (line :: (taken ++ rest))
        (result.map (⟨header.name, header.params, body, number⟩ :: ·))

variable {head : List Char} {header : Header} {behind taken body passed more blanks lines : List String}
  {line : String} {number used : Nat} {result : Except Nat (List Directive)}

/-! ## Opening braces below the header -/

theorem opening?_append {lead rest : List Char} (hblanks : ∀ b ∈ blanks, isBlankLine b = true)
    (hlead : allBlank lead = true) (hline : line.toList = lead ++ '{' :: rest)
    (more : List String) :
    opening? (blanks ++ line :: more) = some (String.ofList rest, blanks.length + 1) := by
  have hbrace : Text.isBlank '{' = false := by decide
  have htrim : Text.trimStart line.toList = '{' :: rest := by
    rw [hline, Text.trimStart_append hlead, Text.trimStart_cons hbrace]
  have hfull : isBlankLine line = false := by
    simp [isBlankLine, allBlank, hline, hbrace]
  have hdrop : (blanks ++ line :: more).dropWhile isBlankLine = line :: more := by
    rw [List.dropWhile_append_of_pos hblanks, List.dropWhile_cons_of_neg (by simp [hfull])]
  have htake : (blanks ++ line :: more).takeWhile isBlankLine = blanks := by
    rw [List.takeWhile_append_of_pos hblanks, List.takeWhile_cons_of_neg (by simp [hfull]),
      List.append_nil]
  unfold opening?
  rw [hdrop, htake]
  simp [htrim]

theorem exists_of_opening? {rest : String} (h : opening? lines = some (rest, used)) :
    ∃ blanks line lead more, lines = blanks ++ line :: more ∧ used = blanks.length + 1 ∧
      (∀ b ∈ blanks, isBlankLine b = true) ∧ allBlank lead = true ∧
      line.toList = lead ++ '{' :: rest.toList := by
  unfold opening? at h
  split at h
  · cases h
  · rename_i line more hdrop
    split at h
    · rename_i cs htrim
      obtain ⟨rfl, rfl⟩ := Prod.mk.inj (Option.some.inj h)
      obtain ⟨lead, hlead, hline⟩ := Text.exists_trimStart line.toList
      refine ⟨lines.takeWhile isBlankLine, line, lead, more, ?_, rfl, ?_, hlead, ?_⟩
      · rw [← hdrop, List.takeWhile_append_dropWhile]
      · exact List.all_eq_true.1 List.all_takeWhile
      · rw [String.toList_ofList, ← htrim]
        exact hline
    · cases h

theorem exists_of_marked {cs : List Char} (h : isMarked (trim cs) = true) :
    ∃ lead rest, allBlank lead = true ∧ cs = lead ++ '%' :: rest := by
  obtain ⟨lead, after, hlead, -, hcs⟩ := Text.exists_trim cs
  obtain ⟨rest, hrest⟩ : ∃ rest, trim cs = '%' :: rest := by
    simpa [isMarked, List.head?_eq_some_iff] using h
  refine ⟨lead, rest ++ after, hlead, ?_⟩
  rw [hrest, List.append_assoc, List.cons_append] at hcs
  exact hcs

/-- A header keeps the one before it from having a body below it. -/
theorem opening?_of_marked (hline : isMarked (trim line.toList) = true) (more : List String) :
    opening? (line :: more) = none := by
  obtain ⟨lead, rest, hlead, hcs⟩ := exists_of_marked hline
  have hpercent : Text.isBlank '%' = false := by decide
  have htrim : Text.trimStart line.toList = '%' :: rest := by
    rw [hcs, Text.trimStart_append hlead, Text.trimStart_cons hpercent]
  have hfull : isBlankLine line = false := by
    simp [isBlankLine, allBlank, hcs, hpercent]
  unfold opening?
  simp [hfull, htrim]

theorem opening?_eq_none_of_append (h : opening? (lines ++ more) = none) :
    opening? lines = none := by
  cases hlines : opening? lines with
  | none => rfl
  | some found =>
    obtain ⟨blanks, line, lead, rest, rfl, -, hblanks, hlead, hline⟩ := exists_of_opening? hlines
    rw [List.append_assoc, List.cons_append, opening?_append hblanks hlead hline] at h
    cases h

theorem opening?_append_eq_none (hlines : opening? lines = none) (hmore : opening? more = none) :
    opening? (lines ++ more) = none := by
  cases h : opening? (lines ++ more) with
  | none => rfl
  | some found =>
    obtain ⟨blanks, line, lead, rest, hsplit, -, hblanks, hlead, hline⟩ := exists_of_opening? h
    rcases List.append_eq_append_iff.1 hsplit with ⟨others, rfl, rfl⟩ | ⟨others, rfl, hothers⟩
    · -- all of `lines` is blank, and the brace comes in `more`
      have hothers : ∀ b ∈ others, isBlankLine b = true :=
        fun b hb => hblanks b (List.mem_append_right lines hb)
      rw [opening?_append hothers hlead hline] at hmore
      cases hmore
    · cases others with
      | nil =>
        obtain rfl : more = line :: rest := by simpa using hothers.symm
        rw [← List.nil_append (line :: rest),
          opening?_append (List.forall_mem_nil _) hlead hline] at hmore
        cases hmore
      | cons first others =>
        obtain ⟨rfl, -⟩ := List.cons.inj hothers
        rw [opening?_append hblanks hlead hline] at hlines
        cases hlines

/-! ## What belongs to a header -/

theorem Belongs.append (h : Belongs head taken body behind) (hmore : opening? more = none) :
    Belongs head taken body (behind ++ more) := by
  cases h with
  | body hopens hencloses => exact .body hopens hencloses
  | bare hhead hbehind => exact .bare hhead (opening?_append_eq_none hbehind hmore)

theorem Belongs.of_append (h : Belongs head taken body (behind ++ more)) :
    Belongs head taken body behind := by
  cases h with
  | body hopens hencloses => exact .body hopens hencloses
  | bare hhead hbehind => exact .bare hhead (opening?_eq_none_of_append hbehind)

/-- The first brace of a header is where its text for a body begins. -/
theorem rest_of_opens {rest : List Char} (hheader : Form head header)
    (h : Opens head passed rest) :
    (header.rest = some (String.ofList rest) ∧ passed = []) ∨
      header.rest = none ∧ ∃ blanks line lead, passed = blanks ++ [line] ∧
        (∀ b ∈ blanks, isBlankLine b = true) ∧ allBlank lead = true ∧
        line.toList = lead ++ '{' :: rest := by
  rcases hheader.rest_cases with ⟨hnone, hbrace⟩ | ⟨before', rest', hsome, hbefore', hhead'⟩
  · cases h with
    | here _ hhead => simp [hhead] at hbrace
    | below _ hblanks hlead hline => exact .inr ⟨hnone, _, _, _, rfl, hblanks, hlead, hline⟩
  · cases h with
    | @here before _ hbefore hhead =>
      have hcut : head.dropWhile (· ≠ '{') = '{' :: rest :=
        hhead ▸ (Header.cut_append hbefore (by simp)).2
      have hcut' : head.dropWhile (· ≠ '{') = '{' :: rest' :=
        hhead' ▸ (Header.cut_append hbefore' (by simp)).2
      obtain rfl : rest = rest' := (List.cons.inj (hcut.symm.trans hcut')).2
      exact .inl ⟨hsome, rfl⟩
    | below hbrace => simp [hhead'] at hbrace

theorem Belongs.bodyOf? (hheader : Form head header) (h : Belongs head taken body more) :
    bodyOf? header (taken ++ more) = some (body, taken.length) := by
  unfold Directive.bodyOf?
  cases h with
  | @body passed rest enclosed _ _ hopens hencloses =>
    rw [← String.toList_ofList (l := rest)] at hencloses
    have hread := hencloses.read? more
    rcases rest_of_opens hheader hopens with
      ⟨hsome, rfl⟩ | ⟨hnone, blanks, line, lead, rfl, hblanks, hlead, hline⟩
    · rw [hsome]
      exact hread
    · have hopening := opening?_append hblanks hlead hline (enclosed ++ more)
      simp [hnone, hopening, hread, Nat.add_comm, Nat.add_left_comm]
  | bare hbrace hmore =>
    rcases hheader.rest_cases with ⟨hnone, -⟩ | ⟨before, rest, -, -, hhead⟩
    · simp [hnone, hmore]
    · simp [hhead] at hbrace

/-- Where a header opens a body that is not closed, that is the only one it opens. -/
theorem bodyOf?_eq_none {rest : List Char} (hheader : Form head header)
    (hopens : Opens head passed rest) (hopen : StaysOpen 0 (rest ++ chars more)) :
    bodyOf? header (passed ++ more) = none := by
  unfold Directive.bodyOf?
  rw [← String.toList_ofList (l := rest)] at hopen
  have hread := Body.read?_eq_none_iff.2 hopen
  rcases rest_of_opens hheader hopens with
    ⟨hsome, rfl⟩ | ⟨hnone, blanks, line, lead, rfl, hblanks, hlead, hline⟩
  · rw [hsome]
    exact hread
  · have hopening := opening?_append hblanks hlead hline more
    simp [hnone, hopening, hread]

theorem belongs_or_staysOpen {rest : List Char} (hopens : Opens head passed rest)
    (behind : List String) :
    (∃ taken body more, passed ++ behind = taken ++ more ∧ Belongs head taken body more) ∨
      StaysOpen 0 (rest ++ chars behind) := by
  cases hread : Body.read? (String.ofList rest) behind with
  | none =>
    have hopen := Body.read?_eq_none_iff.1 hread
    rw [String.toList_ofList] at hopen
    exact .inr hopen
  | some found =>
    obtain ⟨body, used⟩ := found
    obtain ⟨enclosed, more, rfl, -, hencloses⟩ := Body.read?_eq_some_iff.1 hread
    rw [String.toList_ofList] at hencloses
    refine .inl ⟨passed ++ enclosed, body, more, ?_, .body hopens hencloses⟩
    rw [List.append_assoc]

/-- What follows a line with a percent sign in front is malformed, or some of it belongs to it. -/
theorem malformed_or_belongs (head : List Char) (behind : List String) :
    Malformed head behind ∨ ∃ header taken body more, Form head header ∧
      behind = taken ++ more ∧ Belongs head taken body more := by
  by_cases hheader : IsHeader head
  · obtain ⟨header, hform⟩ := hheader
    obtain hbare | ⟨passed, rest, more, rfl, hopens⟩ :
        Belongs head [] [] behind ∨
          ∃ passed rest more, behind = passed ++ more ∧ Opens head passed rest := by
      rcases hform.rest_cases with ⟨-, hbrace⟩ | ⟨before, rest, -, hbefore, hhead⟩
      · cases hopening : opening? behind with
        | none => exact .inl (.bare hbrace hopening)
        | some found =>
          obtain ⟨blanks, line, lead, more, rfl, -, hblanks, hlead, hline⟩ :=
            exists_of_opening? hopening
          refine .inr ⟨blanks ++ [line], _, more, ?_, .below hbrace hblanks hlead hline⟩
          rw [List.append_assoc, List.singleton_append]
      · exact .inr ⟨[], rest, behind, rfl, .here hbefore hhead⟩
    · exact .inr ⟨header, [], [], behind, hform, rfl, hbare⟩
    · rcases belongs_or_staysOpen hopens more with ⟨taken, body, last, hsplit, hbelongs⟩ | hopen
      · exact .inr ⟨header, taken, body, last, hform, hsplit, hbelongs⟩
      · exact .inl (.inr ⟨passed, rest, more, rfl, hopens, hopen⟩)
  · exact .inl (.inl hheader)

/-! ## Reading -/

theorem begin?_of_malformed (h : Malformed head behind) : begin? number head behind = none := by
  unfold begin?
  rcases h with hheader | ⟨passed, rest, more, rfl, hopens, hopen⟩
  · cases hparse : Header.parse? head with
    | none => rfl
    | some header => exact absurd (Header.isHeader_iff.2 ⟨header, hparse⟩) hheader
  · cases hparse : Header.parse? head with
    | none => rfl
    | some header =>
      have hbody := bodyOf?_eq_none (Header.parse?_eq_some_iff.1 hparse) hopens hopen
      simp [hbody]

theorem Belongs.begin? (hheader : Form head header) (h : Belongs head taken body more) :
    begin? number head (taken ++ more) =
      some (⟨header.name, header.params, body, number⟩, taken.length) := by
  unfold Directive.begin?
  simp [hheader.parse?, h.bodyOf? hheader]

theorem parseFrom_append (number : Nat) (taken lines : List String) :
    parseFrom number taken.length (taken ++ lines) = parseFrom (number + taken.length) 0 lines := by
  induction taken generalizing number with
  | nil => rfl
  | cons line taken ih =>
    rw [List.cons_append, List.length_cons, parseFrom, ih]
    congr 1
    omega

theorem Reading.parseFrom (h : Reading number lines result) :
    parseFrom number 0 lines = result := by
  induction h with
  | finish => rfl
  | other hline _ ih => simp [Directive.parseFrom, hline, ih]
  | malformed hline hmalformed =>
    simp [Directive.parseFrom, hline, begin?_of_malformed hmalformed]
  | directive hline hheader hbelongs _ ih =>
    simp [Directive.parseFrom, hline, hbelongs.begin? hheader, parseFrom_append, ih]

theorem reading_parseFrom (number : Nat) (lines : List String) :
    Reading number lines (parseFrom number 0 lines) := by
  -- on the number of lines left, as a directive takes many at once
  induction hlength : lines.length using Nat.strongRecOn generalizing number lines with
  | ind length ih =>
    cases lines with
    | nil => exact .finish
    | cons line behind =>
      cases hline : isMarked (trim line.toList) with
      | false =>
        have hrest := ih behind.length (by simp at hlength; omega) (number + 1) behind rfl
        simpa [parseFrom, hline] using Reading.other hline hrest
      | true =>
        rcases malformed_or_belongs (trim line.toList) behind with
          hmalformed | ⟨header, taken, body, rest, hheader, rfl, hbelongs⟩
        · simpa [parseFrom, hline, begin?_of_malformed hmalformed] using
            Reading.malformed hline hmalformed
        · have hrest := ih rest.length (by simp at hlength; omega)
            (number + 1 + taken.length) rest rfl
          simpa [parseFrom, hline, hbelongs.begin? hheader, parseFrom_append] using
            Reading.directive hline hheader hbelongs hrest

/-- The rules derive what reading comes to, and nothing else. -/
theorem reading_iff : Reading number lines result ↔ parseFrom number 0 lines = result := by
  constructor
  · exact Reading.parseFrom
  · rintro rfl
    exact reading_parseFrom number lines

end ShaderIncludes.Directive
