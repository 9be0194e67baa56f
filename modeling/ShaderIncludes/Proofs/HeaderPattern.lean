import ShaderIncludes.Proofs.Blame
import ShaderIncludes.Proofs.Pattern

/-!
# The pattern of headers

A header can also be said by a pattern, in which adjacent parts may share blanks and the text in
parentheses may hold parentheses itself. Main statement: reading a header comes to what matching the
pattern comes to, in whichever way it is matched, and this is what the texts in front of the first brace
and behind it tell; only a line of this form lets a file be read (`headers_match_pattern`).
-/
namespace ShaderIncludes

namespace Header

open Pattern
open Text (allBlank isBlank trim)

/-- An identifier. -/
def namePattern : Pattern := .seq (.one isNameStart) (.many isNameRest)

/-- Text between parentheses, without a brace. -/
def paramsPattern : Pattern :=
  .seq (.one (· = '(')) (.seq (.group 2 (.many (· ≠ '{'))) (.one (· = ')')))

/-- A brace, and what follows it up to the end of its line. -/
def openingPattern : Pattern := .group 3 (.seq (.one (· = '{')) (.many (· ≠ '\n')))

/-- The pattern `^%([A-Za-z_][A-Za-z0-9_]*)\s*(?:\(([^{]*)\))?\s*(\{.*)?$`. -/
def pattern : Pattern :=
  .seq (.one (· = '%')) <| .seq (.group 1 namePattern) <| .seq (.many isBlank) <|
    .seq (.maybe paramsPattern) <| .seq (.many isBlank) <|
    .seq (.maybe openingPattern) .finish

/-- The header that a way of matching the pattern stands for. -/
def ofWay (way : Way) : Header where
  name := String.ofList ('%' :: (way.group? 1).getD [])
  params := (way.group? 2).map fun inner => String.ofList (trim inner)
  rest := (way.group? 3).map fun opening => String.ofList opening.tail

variable {text taken rest : List Char} {groups : List (Nat × List Char)} {way : Way}
  {header : Header}

theorem takes_namePattern_iff :
    Takes namePattern taken groups rest ↔ isName ('%' :: taken) = true ∧ groups = [] := by
  constructor
  · intro h
    obtain ⟨_, _, more, _, hfirst, hmore, rfl, rfl⟩ := takes_seq_iff.1 h
    obtain ⟨first, hstart, rfl, rfl⟩ := takes_one_iff.1 hfirst
    obtain ⟨hall, rfl⟩ := takes_many_iff.1 hmore
    exact ⟨Bool.and_eq_true_iff.2 ⟨hstart, List.all_eq_true.2 hall⟩, rfl⟩
  · rintro ⟨hname, rfl⟩
    cases taken with
    | nil => cases hname
    | cons first more =>
      obtain ⟨hfirst, hall⟩ := Bool.and_eq_true_iff.1 hname
      have hmany : Takes (.many isNameRest) more [] rest := .many (List.all_eq_true.1 hall)
      exact takes_seq_iff.2 ⟨[first], [], more, [], .one hfirst, hmany, rfl, rfl⟩

theorem takes_paramsPattern_iff :
    Takes paramsPattern taken groups rest ↔
      ∃ inner, '{' ∉ inner ∧ taken = '(' :: (inner ++ [')']) ∧ groups = [(2, inner)] := by
  constructor
  · intro h
    obtain ⟨_, _, _, _, hleft, hbehind, rfl, rfl⟩ := takes_seq_iff.1 h
    obtain ⟨inner, _, _, _, hgroup, hright, rfl, rfl⟩ := takes_seq_iff.1 hbehind
    obtain ⟨_, hc, rfl, rfl⟩ := takes_one_iff.1 hleft
    obtain ⟨_, hc', rfl, rfl⟩ := takes_one_iff.1 hright
    obtain ⟨_, hmany, rfl⟩ := takes_group_iff.1 hgroup
    obtain ⟨hall, rfl⟩ := takes_many_iff.1 hmany
    obtain rfl := of_decide_eq_true hc
    obtain rfl := of_decide_eq_true hc'
    exact ⟨inner, fun hmem => of_decide_eq_true (hall '{' hmem) rfl, rfl, rfl⟩
  · rintro ⟨inner, hinner, rfl, rfl⟩
    have hmany : Takes (.many (· ≠ '{')) inner [] (')' :: rest) :=
      .many (forall_ne_of_not_mem hinner)
    have hbehind : Takes (.seq (.group 2 (.many (· ≠ '{'))) (.one (· = ')'))) (inner ++ [')'])
        [(2, inner)] rest :=
      takes_seq_iff.2 ⟨inner, [(2, inner)], [')'], [], .group hmany, .one rfl, rfl, rfl⟩
    exact takes_seq_iff.2 ⟨['('], [], inner ++ [')'], [(2, inner)], .one rfl, hbehind, rfl, rfl⟩

theorem takes_openingPattern_iff :
    Takes openingPattern taken groups rest ↔
      ∃ behind, '\n' ∉ behind ∧ taken = '{' :: behind ∧ groups = [(3, taken)] := by
  constructor
  · intro h
    obtain ⟨_, hparts, rfl⟩ := takes_group_iff.1 h
    obtain ⟨_, _, behind, _, hbrace, hmany, rfl, rfl⟩ := takes_seq_iff.1 hparts
    obtain ⟨_, hc, rfl, rfl⟩ := takes_one_iff.1 hbrace
    obtain ⟨hall, rfl⟩ := takes_many_iff.1 hmany
    obtain rfl := of_decide_eq_true hc
    exact ⟨behind, fun hmem => of_decide_eq_true (hall '\n' hmem) rfl, rfl, rfl⟩
  · rintro ⟨behind, hbehind, rfl, rfl⟩
    have hmany : Takes (.many (· ≠ '\n')) behind [] rest := .many (forall_ne_of_not_mem hbehind)
    exact .group (takes_seq_iff.2 ⟨['{'], [], behind, [], .one rfl, hmany, rfl, rfl⟩)

theorem arguments_of_takes {before after : List Char} (hbefore : allBlank before = true)
    (hafter : allBlank after = true) (h : Takes (.maybe paramsPattern) taken groups rest) :
    Arguments (before ++ taken ++ after)
        ((groups.lookup 2).map fun inner => String.ofList (trim inner)) ∧
      groups.lookup 3 = none := by
  rcases takes_maybe_iff.1 h with hparams | ⟨rfl, rfl⟩
  · obtain ⟨inner, hinner, rfl, rfl⟩ := takes_paramsPattern_iff.1 hparams
    refine ⟨?_, rfl⟩
    simpa using Arguments.present hbefore hinner hafter
  · rw [List.append_nil]
    exact ⟨.absent (Text.allBlank_append.2 ⟨hbefore, hafter⟩), rfl⟩

theorem opening_of_takes (h : Takes (.maybe openingPattern) taken groups rest) :
    Opening taken ((groups.lookup 3).map fun opening => String.ofList opening.tail) ∧
      groups.lookup 2 = none := by
  rcases takes_maybe_iff.1 h with hopening | ⟨rfl, rfl⟩
  · obtain ⟨behind, hbehind, rfl, rfl⟩ := takes_openingPattern_iff.1 hopening
    exact ⟨.present hbehind, rfl⟩
  · exact ⟨.absent, rfl⟩

/-- However the pattern is matched with the whole of a text, the text is that of a header, and the
groups hold its parts. -/
theorem form_of_takes (h : Takes pattern text groups rest) :
    rest = [] ∧ Form text (ofWay ⟨text, groups, rest⟩) := by
  obtain ⟨_, _, _, _, hpercent, h₁, rfl, rfl⟩ := takes_seq_iff.1 h
  obtain ⟨name, _, _, _, hname, h₂, rfl, rfl⟩ := takes_seq_iff.1 h₁
  obtain ⟨before, _, _, _, hbefore, h₃, rfl, rfl⟩ := takes_seq_iff.1 h₂
  obtain ⟨params, inParams, _, _, hparams, h₄, rfl, rfl⟩ := takes_seq_iff.1 h₃
  obtain ⟨after, _, _, _, hafter, h₅, rfl, rfl⟩ := takes_seq_iff.1 h₄
  obtain ⟨opening, inOpening, _, _, hopening, h₆, rfl, rfl⟩ := takes_seq_iff.1 h₅
  obtain ⟨rfl, rfl, rfl⟩ := takes_finish_iff.1 h₆
  obtain ⟨_, hc, rfl, rfl⟩ := takes_one_iff.1 hpercent
  obtain rfl := of_decide_eq_true hc
  obtain ⟨_, hident, rfl⟩ := takes_group_iff.1 hname
  obtain ⟨hisName, rfl⟩ := takes_namePattern_iff.1 hident
  obtain ⟨hblank, rfl⟩ := takes_many_iff.1 hbefore
  obtain ⟨hblank', rfl⟩ := takes_many_iff.1 hafter
  obtain ⟨harguments, hthird⟩ := arguments_of_takes (List.all_eq_true.2 hblank)
    (List.all_eq_true.2 hblank') hparams
  obtain ⟨hrest, hsecond⟩ := opening_of_takes hopening
  have hform := Form.intro hisName harguments hrest
  have htwo : (inParams ++ inOpening).lookup 2 = inParams.lookup 2 := by
    rw [List.lookup_append, hsecond, Option.or_none]
  have hthree : (inParams ++ inOpening).lookup 3 = inOpening.lookup 3 := by
    rw [List.lookup_append, hthird, Option.none_or]
  refine ⟨rfl, ?_⟩
  simpa [ofWay, Way.group?, htwo, hthree, List.lookup_cons] using hform

theorem exists_takes_of_arguments {params : Option String} (h : Arguments text params) :
    ∃ before taken after groups, text = before ++ taken ++ after ∧ allBlank before = true ∧
      allBlank after = true ∧ ∀ rest, Takes (.maybe paramsPattern) taken groups rest := by
  cases h with
  | absent hblanks =>
    exact ⟨text, [], [], [], by simp, hblanks, rfl, fun _ => .nothing⟩
  | @present before inner after hbefore hinner hafter =>
    refine ⟨before, '(' :: (inner ++ [')']), after, [(2, inner)], by simp, hbefore, hafter, ?_⟩
    intro rest
    exact .part (takes_paramsPattern_iff.2 ⟨inner, hinner, rfl, rfl⟩)

theorem exists_takes_of_opening {rest : Option String} (h : Opening text rest) :
    ∃ groups, Takes (.maybe openingPattern) text groups [] := by
  cases h with
  | absent => exact ⟨[], .nothing⟩
  | present hrest => exact ⟨_, .part (takes_openingPattern_iff.2 ⟨_, hrest, rfl, rfl⟩)⟩

theorem exists_takes_of_form (h : Form text header) : ∃ groups, Takes pattern text groups [] := by
  cases h with
  | @intro name arguments opening _ _ hname harguments hopening =>
    obtain ⟨inner, last, rfl, -⟩ := exists_of_isName hname
    obtain ⟨before, params, after, _, rfl, hbefore, hafter, hparams⟩ :=
      exists_takes_of_arguments harguments
    obtain ⟨_, hopening⟩ := exists_takes_of_opening hopening
    have hident : ∀ rest, Takes namePattern (inner ++ [last]) [] rest :=
      fun _ => takes_namePattern_iff.2 ⟨hname, rfl⟩
    have htext : '%' :: (inner ++ [last]) ++ (before ++ params ++ after) ++ opening =
        ['%'] ++ ((inner ++ [last]) ++ (before ++ (params ++ (after ++ (opening ++ []))))) := by
      simp
    rw [htext]
    exact ⟨_, .seq (.one rfl) <| .seq (.group (hident _)) <|
      .seq (.many (List.all_eq_true.1 hbefore)) <| .seq (hparams _) <|
      .seq (.many (List.all_eq_true.1 hafter)) <| .seq (by simpa using hopening) .finish⟩

/-- Every way of matching the pattern with a text shows the header that the text is read as. So it makes
no difference which way is preferred. -/
theorem parse?_of_mem_ways (h : way ∈ pattern.ways text) : parse? text = some (ofWay way) := by
  obtain ⟨taken, groups, rest⟩ := way
  obtain ⟨rfl, htakes⟩ := mem_ways_iff.1 h
  obtain ⟨rfl, hform⟩ := form_of_takes htakes
  rw [List.append_nil]
  exact hform.parse?

theorem mem_ways_of_form (h : Form text header) : ∃ way, way ∈ pattern.ways text := by
  obtain ⟨groups, htakes⟩ := exists_takes_of_form h
  exact ⟨⟨text, groups, []⟩, mem_ways_iff.2 ⟨(List.append_nil text).symm, htakes⟩⟩

theorem first?_pattern (text : List Char) : (pattern.first? text).map ofWay = parse? text := by
  unfold Pattern.first?
  cases hways : pattern.ways text with
  | nil =>
    cases hparse : parse? text with
    | none => rfl
    | some header =>
      obtain ⟨way, hmem⟩ := mem_ways_of_form (parse?_eq_some_iff.1 hparse)
      rw [hways] at hmem
      cases hmem
  | cons way others =>
    have hmem : way ∈ pattern.ways text := hways ▸ List.mem_cons_self
    exact (parse?_of_mem_ways hmem).symm

/-! ## The text before the brace and the text behind it -/

/-- The text in front of the first brace. -/
def front (text : List Char) : List Char := text.takeWhile (· ≠ '{')

/-- The text behind the first brace, if there is one. -/
def behind? (text : List Char) : Option (List Char) := (text.dropWhile (· ≠ '{')).tail?

/-- How a header is written, by the texts in front of its brace and behind it. -/
structure SpelledBy (header : Header) (front : List Char) (behind : Option (List Char)) : Prop where
  front_eq : ∃ name blanks tail, front = name ++ blanks ++ tail ∧ isName name = true ∧
    allBlank blanks = true ∧ header.name = String.ofList name ∧
    (tail = [] ∧ header.params = none ∨
      ∃ inner after, tail = '(' :: inner ++ ')' :: after ∧ allBlank after = true ∧
        header.params = some (String.ofList (trim inner)))
  rest_eq : header.rest = behind.map String.ofList
  no_feed : ∀ rest ∈ behind, '\n' ∉ rest

theorem opening_not_mem_front (text : List Char) : '{' ∉ front text := by
  intro hmem
  simpa using List.all_eq_true.1 List.all_takeWhile _ hmem

theorem behind?_cases (text : List Char) :
    behind? text = none ∧ text = front text ∨
      ∃ rest, behind? text = some rest ∧ text = front text ++ '{' :: rest := by
  have hcut : front text ++ text.dropWhile (· ≠ '{') = text := List.takeWhile_append_dropWhile
  have hhead := List.head?_dropWhile_not (· ≠ '{') text
  unfold behind?
  cases hdrop : text.dropWhile (· ≠ '{') with
  | nil =>
    rw [hdrop, List.append_nil] at hcut
    exact .inl ⟨rfl, hcut.symm⟩
  | cons c rest =>
    rw [hdrop] at hcut hhead
    obtain rfl : c = '{' := by simpa using hhead
    exact .inr ⟨rest, rfl, hcut.symm⟩

theorem behind?_eq_none_iff : behind? text = none ↔ '{' ∉ text := by
  rcases behind?_cases text with ⟨hnone, htext⟩ | ⟨rest, hsome, htext⟩
  · have hbrace := opening_not_mem_front text
    rw [← htext] at hbrace
    simp [hnone, hbrace]
  · rw [hsome, htext]
    simp

theorem Form.spelledBy (h : Form text header) : header.SpelledBy (front text) (behind? text) := by
  cases h with
  | @intro name arguments opening params rest hname harguments hopening =>
    have hbrace : '{' ∉ name ++ arguments := by
      simp [not_mem_of_isName hname, harguments.not_mem]
    obtain ⟨hfront, hdrop⟩ := cut_append hbrace hopening.head_eq
    unfold front behind?
    rw [hfront, hdrop]
    refine ⟨?_, ?_, ?_⟩
    · cases harguments with
      | absent hblanks =>
        exact ⟨name, arguments, [], by simp, hname, hblanks, rfl, .inl ⟨rfl, rfl⟩⟩
      | @present before inner after hbefore _ hafter =>
        exact ⟨name, before, '(' :: inner ++ ')' :: after, by simp, hname, hbefore, rfl,
          .inr ⟨inner, after, rfl, hafter, rfl⟩⟩
    · cases hopening <;> rfl
    · cases hopening with
      | absent => exact nofun
      | present hrest =>
        rintro _ ⟨⟩
        exact hrest

theorem SpelledBy.arguments {front : List Char} {behind : Option (List Char)}
    (h : header.SpelledBy front behind) (hbrace : '{' ∉ front) :
    ∃ name arguments, front = name ++ arguments ∧ isName name = true ∧
      header.name = String.ofList name ∧ Arguments arguments header.params := by
  obtain ⟨name, blanks, tail, rfl, hname, hblanks, heq, hparams⟩ := h.front_eq
  refine ⟨name, blanks ++ tail, List.append_assoc _ _ _, hname, heq, ?_⟩
  rcases hparams with ⟨rfl, hnone⟩ | ⟨inner, after, rfl, hafter, hsome⟩
  · rw [List.append_nil, hnone]
    exact .absent hblanks
  · have hinner : '{' ∉ inner := fun hmem => hbrace (by simp [hmem])
    rw [hsome, ← List.append_assoc]
    exact .present hblanks hinner hafter

theorem SpelledBy.form (h : header.SpelledBy (front text) (behind? text)) : Form text header := by
  obtain ⟨name, arguments, hfront, hname, heq, harguments⟩ := h.arguments (opening_not_mem_front text)
  have hheader : header = ⟨String.ofList name, header.params, header.rest⟩ := by rw [← heq]
  have hrest := h.rest_eq
  rcases behind?_cases text with ⟨hnone, htext⟩ | ⟨rest, hsome, htext⟩
  · rw [hnone] at hrest
    rw [htext, hfront, hheader, hrest, ← List.append_nil (name ++ arguments)]
    exact .intro hname harguments .absent
  · rw [hsome] at hrest
    rw [htext, hfront, hheader, hrest]
    exact .intro hname harguments (.present (h.no_feed rest hsome))

theorem SpelledBy.text_eq {rest : String} (h : header.SpelledBy (front text) (behind? text))
    (hrest : header.rest = some rest) : text = front text ++ '{' :: rest.toList := by
  have hbehind := h.rest_eq
  rw [hrest] at hbehind
  rcases behind?_cases text with ⟨hnone, -⟩ | ⟨cs, hsome, htext⟩
  · rw [hnone] at hbehind
    cases hbehind
  · rw [hsome] at hbehind
    cases hbehind
    rwa [String.toList_ofList]

/-- Reading a header finds how it is written. -/
theorem parse?_eq_some_iff_spelledBy :
    parse? text = some header ↔ header.SpelledBy (front text) (behind? text) :=
  parse?_eq_some_iff.trans ⟨Form.spelledBy, SpelledBy.form⟩

theorem cut_at_first {c : Char} {before before' after after' : List Char} (hbefore : c ∉ before)
    (hbefore' : c ∉ before') (h : before ++ c :: after = before' ++ c :: after') :
    before = before' ∧ after = after' := by
  rcases List.append_eq_append_iff.1 h with ⟨more, rfl, hmore⟩ | ⟨more, rfl, hmore⟩ <;>
    cases more with
    | nil => simpa [eq_comm] using hmore
    | cons d more =>
      obtain ⟨rfl, -⟩ := List.cons.inj hmore
      simp at hbefore hbefore'

theorem cut_at_last {c : Char} {before before' after after' : List Char} (hafter : c ∉ after)
    (hafter' : c ∉ after') (h : before ++ c :: after = before' ++ c :: after') :
    before = before' ∧ after = after' := by
  have hreverse := congrArg List.reverse h
  simp only [List.reverse_append, List.reverse_cons, List.append_assoc, List.singleton_append] at hreverse
  obtain ⟨hback, hfront⟩ := cut_at_first (by simpa using hafter) (by simpa using hafter') hreverse
  exact ⟨List.reverse_inj.1 hfront, List.reverse_inj.1 hback⟩

theorem left_not_mem_of_isName {name : List Char} (h : isName name = true) : '(' ∉ name := by
  obtain ⟨inner, last, rfl, hall⟩ := exists_of_isName h
  intro hmem
  rcases List.mem_cons.1 hmem with hpercent | hrest
  · cases hpercent
  · have hleft : isNameRest '(' = true := hall '(' hrest
    revert hleft
    decide

/-- The parameters reach from the first opening parenthesis to the last closing one. -/
theorem SpelledBy.params_eq {behind : Option (List Char)} {before inner after : List Char}
    (h : header.SpelledBy (before ++ '(' :: (inner ++ ')' :: after)) behind) (hbefore : '(' ∉ before)
    (hafter : ')' ∉ after) : header.params = some (String.ofList (trim inner)) := by
  obtain ⟨name, blanks, tail, hcut, hname, hblanks, -, hparams⟩ := h.front_eq
  have hleft : '(' ∉ name ++ blanks := by
    simp [left_not_mem_of_isName hname, Text.not_mem_of_allBlank (c := '(') (by decide) hblanks]
  rcases hparams with ⟨rfl, -⟩ | ⟨inner', after', rfl, hafter', hsome⟩
  · rw [List.append_nil] at hcut
    rw [← hcut] at hleft
    simp at hleft
  · rw [List.cons_append] at hcut
    obtain ⟨-, hinner⟩ := cut_at_first hbefore hleft hcut
    obtain ⟨rfl, -⟩ :=
      cut_at_last hafter (Text.not_mem_of_allBlank (by decide) hafter') hinner
    exact hsome

theorem SpelledBy.params_eq_none {front : List Char} {behind : Option (List Char)}
    (h : header.SpelledBy front behind) (hleft : '(' ∉ front) : header.params = none := by
  obtain ⟨name, blanks, tail, rfl, -, -, -, hparams⟩ := h.front_eq
  rcases hparams with ⟨-, hnone⟩ | ⟨inner, after, rfl, -, -⟩
  · exact hnone
  · simp at hleft

end Header

namespace Directive

open Header (behind? front isMarked ofWay pattern)
open Text (trim)

variable {file line : String} {before behind : List String} {directives : List Directive}

theorem parse_append_marked (hbefore : parse file before = .ok directives)
    (hline : isMarked (trim line.toList) = true) (behind : List String) :
    parse file (before ++ line :: behind) =
      ((parseFrom (before.length + 1) 0 (line :: behind)).map (directives ++ ·)).mapError
        (.malformed file) := by
  have hread := (parse_eq_ok_iff.1 hbefore).append (opening?_of_marked hline behind)
    (reading_parseFrom _ _)
  rw [parse, reading_iff.1 hread, Nat.add_comm]

/-- A line of closing braces only is no directive. -/
theorem parseFrom_closing (count number used : Nat) :
    parseFrom number used [String.ofList (List.replicate count '}')] = .ok [] := by
  cases used with
  | zero =>
    cases hline : isMarked (trim (String.ofList (List.replicate count '}')).toList) with
    | false => simp only [parseFrom, hline, Bool.false_eq_true, if_false]
    | true =>
      obtain ⟨lead, rest, -, hcs⟩ := exists_of_marked hline
      have hpercent : '%' ∈ List.replicate count '}' := by
        rw [← String.toList_ofList (l := List.replicate count '}'), hcs]
        simp
      cases List.eq_of_mem_replicate hpercent
  | succ used => cases used <;> rfl

/-- Enough braces close any body. -/
theorem exists_read?_closing (rest : String) :
    ∃ count found, Body.read? rest [String.ofList (List.replicate count '}')] = some found := by
  refine ⟨rest.toList.count '{' + 1, Option.ne_none_iff_exists'.1 ?_⟩
  intro hnone
  have hopen := Body.read?_eq_none_iff.1 hnone _ (List.prefix_refl _)
  simp [List.count_replicate] at hopen
  omega

/-- For every header there are lines behind it with which it is read well. -/
theorem exists_bodyOf? (header : Header) :
    ∃ behind found, bodyOf? header behind = some found ∧
      ∀ number used, parseFrom number used behind = .ok [] := by
  unfold bodyOf?
  cases header.rest with
  | none => exact ⟨[], ([], 0), rfl, fun _ _ => by simp [parseFrom]⟩
  | some rest =>
    obtain ⟨count, found, hread⟩ := exists_read?_closing rest
    exact ⟨_, found, hread, parseFrom_closing count⟩

theorem parseFrom_marked (hline : isMarked (trim line.toList) = true) (number : Nat)
    (behind : List String) :
    parseFrom number 0 (line :: behind) =
      match Header.parse? (trim line.toList) with
      | none => .error number
      | some header =>
        match bodyOf? header behind with
        | none => .error number
        | some (body, used) => (parseFrom (number + 1) used behind).map
          (⟨header.name, header.params, body, number⟩ :: ·) := by
  rw [parseFrom, if_pos hline, begin?]
  cases Header.parse? (trim line.toList) with
  | none => rfl
  | some header =>
    rw [Option.bind_eq_bind, Option.bind_some]
    dsimp only
    cases bodyOf? header behind <;> rfl

/-- What a line is read as that reading comes to and that begins with a percent sign. -/
theorem parse_append_eq (hbefore : parse file before = .ok directives)
    (hline : isMarked (trim line.toList) = true) (behind : List String) :
    parse file (before ++ line :: behind) =
      match Header.parse? (trim line.toList) with
      | none => .error (.malformed file (before.length + 1))
      | some header =>
        match bodyOf? header behind with
        | none => .error (.malformed file (before.length + 1))
        | some (body, used) =>
          ((parseFrom (before.length + 2) used behind).map fun more =>
            directives ++ ⟨header.name, header.params, body, before.length + 1⟩ :: more).mapError
              (.malformed file) := by
  rw [parse_append_marked hbefore hline, parseFrom_marked hline]
  cases Header.parse? (trim line.toList) with
  | none => rfl
  | some header =>
    dsimp only
    cases bodyOf? header behind with
    | none => rfl
    | some found =>
      dsimp only
      cases parseFrom (before.length + 1 + 1) found.2 behind <;> rfl

theorem exists_parse_eq_ok_iff (hbefore : parse file before = .ok directives)
    (hline : isMarked (trim line.toList) = true) :
    (∃ behind all, parse file (before ++ line :: behind) = .ok all) ↔
      ∃ header, Header.parse? (trim line.toList) = some header := by
  constructor
  · rintro ⟨behind, all, hparse⟩
    rw [parse_append_eq hbefore hline] at hparse
    cases hheader : Header.parse? (trim line.toList) with
    | none =>
      rw [hheader] at hparse
      cases hparse
    | some header => exact ⟨header, rfl⟩
  · rintro ⟨header, hheader⟩
    obtain ⟨behind, ⟨body, used⟩, hbody, hrest⟩ := exists_bodyOf? header
    have hparse := parse_append_eq hbefore hline behind
    simp only [hheader, hbody, hrest] at hparse
    exact ⟨behind, _, hparse⟩

/-- A line that begins with a percent sign is a header just where the pattern matches it: no line feed
stands behind its first brace, and in front of that there is a name, then blanks, then nothing or text in
parentheses with blanks behind it. The parameters go from the first opening parenthesis to the last
closing one, whichever way the pattern is matched, and the body is opened on this line where there is a
brace, with the text behind it. Where reading comes to such a line, it goes on with the body. Behind any
other line nothing can make up for it, and that line is at fault. -/
theorem headers_match_pattern (line : String) (hline : isMarked (trim line.toList) = true) :
    let text := trim line.toList
    ((pattern.first? text).map ofWay = Header.parse? text ∧
      ∀ way ∈ pattern.ways text, Header.parse? text = some (ofWay way)) ∧
    (∀ header, Header.parse? text = some header ↔ header.SpelledBy (front text) (behind? text)) ∧
    (∀ header, Header.parse? text = some header →
      (('(' ∉ front text → header.params = none) ∧
        ∀ before inner after, front text = before ++ '(' :: (inner ++ ')' :: after) →
          '(' ∉ before → ')' ∉ after → header.params = some (String.ofList (trim inner))) ∧
      (header.rest = none ↔ '{' ∉ text) ∧
      ∀ rest, header.rest = some rest → text = front text ++ '{' :: rest.toList ∧
        ∀ behind, bodyOf? header behind = Body.read? rest behind) ∧
    ∀ file before directives, parse file before = .ok directives →
      ((∃ behind all, parse file (before ++ line :: behind) = .ok all) ↔
        ∃ header, Header.parse? text = some header) ∧
      ∀ behind, parse file (before ++ line :: behind) =
        match Header.parse? text with
        | none => .error (.malformed file (before.length + 1))
        | some header =>
          match bodyOf? header behind with
          | none => .error (.malformed file (before.length + 1))
          | some (body, used) =>
            ((parseFrom (before.length + 2) used behind).map fun more =>
              directives ++ ⟨header.name, header.params, body, before.length + 1⟩ :: more).mapError
                (.malformed file) := by
  refine ⟨⟨Header.first?_pattern _, fun way => Header.parse?_of_mem_ways⟩, fun header =>
    Header.parse?_eq_some_iff_spelledBy, ?_, ?_⟩
  · intro header hheader
    have hspelled := Header.parse?_eq_some_iff_spelledBy.1 hheader
    refine ⟨⟨hspelled.params_eq_none, ?_⟩, ?_, ?_⟩
    · intro before inner after hfront hbefore hafter
      rw [hfront] at hspelled
      exact hspelled.params_eq hbefore hafter
    · rw [hspelled.rest_eq, Option.map_eq_none_iff]
      exact Header.behind?_eq_none_iff
    · intro rest hrest
      refine ⟨hspelled.text_eq hrest, fun behind => ?_⟩
      rw [bodyOf?, hrest]
  · intro file before directives hbefore
    exact ⟨exists_parse_eq_ok_iff hbefore hline, parse_append_eq hbefore hline⟩

/-- A header with blanks around its parts and parentheses in its parameters, behind a directive that has
no body. -/
theorem headers_match_pattern_nested :
    let line := "  %Tint_2 \t( a)(b ) \x7b r \x7d "
    isMarked (trim line.toList) = true ∧ parse "shader" ["%A", ""] = .ok [⟨"%A", none, [], 1⟩] ∧
      (pattern.first? (trim line.toList)).map ofWay =
        some ⟨"%Tint_2", some "a)(b", some " r \x7d"⟩ ∧
      parse "shader" ["%A", "", line, "x"] =
        .ok [⟨"%A", none, [], 1⟩, ⟨"%Tint_2", some "a)(b", [" r "], 3⟩] := by
  have hline : isMarked (trim "  %Tint_2 \t( a)(b ) \x7b r \x7d ".toList) = true := by decide
  have hbefore : parse "shader" ["%A", ""] = .ok [⟨"%A", none, [], 1⟩] := rfl
  have hall := headers_match_pattern _ hline
  refine ⟨hline, hbefore, hall.1.1.trans ?_, ((hall.2.2.2 _ _ _ hbefore).2 ["x"]).trans ?_⟩
  · decide +kernel
  · rfl

/-- Behind parameters there is room for blanks only. -/
example : pattern.first? "%Tint (a) b".toList = none := by decide +kernel

end Directive

end ShaderIncludes
