import ShaderIncludes.Proofs.Blame

/-!
# Bodies and the places where they end

A body ends at the first place of the text behind its opening brace at which more braces have been
closed than opened, wherever the lines begin and end. The place alone tells what the body is. Main
statement: reading a body is finding this place, and cutting the text there (`bodies_match_braces`). A
count of the braces that are open, from one for the opening brace, comes to the same, and is never to
go below zero (`readByCount_eq`).
-/
namespace ShaderIncludes

namespace Body

open Text (allBlank)

/-- At this place, and at none before it, more braces have been closed than opened. -/
structure ClosesAt (text : List Char) (place : Nat) : Prop where
  exceeds : (text.take (place + 1)).count '{' < (text.take (place + 1)).count '}'
  stays : ∀ count ≤ place, (text.take count).count '}' ≤ (text.take count).count '{'

/-- The body that comes of cutting at this place of the text `rest` and of the lines behind it, and the
number of lines that it reaches over: the whole lines in front of the place as they are, and of the two
outer pieces those that are not blank. -/
inductive Cut (rest : String) (lines : List String) :
    (place : Nat) → (body : List String) → (used : Nat) → Prop where
  | atOnce {place} (hplace : place < rest.toList.length) :
      Cut rest lines place (keep (rest.toList.take place)) 0
  | later {between last more inner} (hlines : lines = between ++ last :: more)
      (hinner : inner < last.toList.length) :
      Cut rest lines (rest.toList.length + (chars between).length + inner)
        (keep rest.toList ++ between ++ keep (last.toList.take inner)) (between.length + 1)

/-- What a count of the open braces comes to on a piece of text. -/
inductive Count where
  /-- It comes down to zero behind this text. -/
  | zero (before : List Char)
  /-- So many are open at the end. -/
  | left (depth : Nat)
  /-- It is to go down from zero. -/
  | below
  deriving DecidableEq, Repr

def Count.cons (c : Char) : Count → Count
  | .zero before => .zero (c :: before)
  | .left depth => .left depth
  | .below => .below

/-- Counts the open braces, of which there are `depth` at first, until none is left. -/
def count (depth : Nat) : List Char → Count
  | [] => .left depth
  | c :: cs =>
    if c = '{' then (count (depth + 1) cs).cons c
    else if c = '}' then
      match depth with
      | 0 => .below
      | 1 => .zero []
      | depth + 2 => (count (depth + 1) cs).cons c
    else (count depth cs).cons c

inductive CountFault where
  | unclosed
  | belowZero
  deriving DecidableEq, Repr

/-- Reads a body piece by piece with a count of the open braces: the lines it keeps, and the number of
pieces up to its closing brace. A piece from the opening line is kept only if it is not blank. -/
def readByCount (depth : Nat) (fromOpening : Bool) :
    List String → Except CountFault (List String × Nat)
  | [] => .error .unclosed
  | piece :: rest =>
    match count depth piece.toList with
    | .zero before => .ok (keep before, 1)
    | .below => .error .belowZero
    | .left depth => (readByCount depth false rest).map fun (kept, used) =>
      ((if fromOpening then keep piece.toList else [piece]) ++ kept, used + 1)

variable {text piece before after : List Char} {place depth used : Nat} {rest : String}
  {lines taken body : List String}

/-! ## Places -/

theorem ClosesAt.lt_length (h : ClosesAt text place) : place < text.length := by
  rcases Nat.lt_or_ge place text.length with hlt | hle
  · exact hlt
  · have hexceeds := h.exceeds
    have hstays := h.stays place (Nat.le_refl place)
    rw [List.take_of_length_le hle] at hstays
    rw [List.take_of_length_le (Nat.le_succ_of_le hle)] at hexceeds
    omega

theorem closesAt_iff : ClosesAt text place ↔
    ∃ before after, text = before ++ '}' :: after ∧ before.length = place ∧ Balanced before := by
  constructor
  · intro h
    have hlt := h.lt_length
    have hexceeds := h.exceeds
    have hstays := h.stays place (Nat.le_refl place)
    rw [List.take_succ_eq_append_getElem hlt, List.count_append, List.count_append] at hexceeds
    have hclosing : text[place] = '}' := by
      by_cases hchar : text[place] = '}'
      · exact hchar
      · have hnone : List.count '}' [text[place]] = 0 :=
          List.count_eq_zero.2 fun hmem => hchar (List.mem_singleton.1 hmem).symm
        omega
    have hopening : List.count '{' ['}'] = 0 := rfl
    have hone : List.count '}' ['}'] = 1 := rfl
    rw [hclosing, hopening, hone] at hexceeds
    refine ⟨text.take place, text.drop (place + 1), ?_, ?_, ?_, ?_⟩
    · rw [← hclosing, List.getElem_cons_drop, List.take_append_drop]
    · rw [List.length_take, Nat.min_eq_left (Nat.le_of_lt hlt)]
    · intro beginning hb
      rw [List.prefix_iff_eq_take.1 hb, List.take_take, Nat.zero_add]
      exact h.stays _ (Nat.min_le_right _ _)
    · omega
  · rintro ⟨before, after, rfl, rfl, hbalanced⟩
    constructor
    · have htake : (before ++ '}' :: after).take (before.length + 1) = before ++ ['}'] := by
        rw [List.take_length_add_append]
        rfl
      have hcount := hbalanced.count_eq
      rw [htake, List.count_append, List.count_append, List.count_cons_self,
        List.count_cons_of_ne opening_ne_closing.symm, List.count_nil, List.count_nil]
      omega
    · intro count hle
      rw [List.take_append_of_le_length hle]
      simpa using hbalanced.staysOpen _ (List.take_prefix count before)

theorem staysOpen_iff_closesAt : StaysOpen 0 text ↔ ∀ place, ¬ ClosesAt text place := by
  constructor
  · intro hopen place hcloses
    obtain ⟨before, after, rfl, -, hbalanced⟩ := closesAt_iff.1 hcloses
    exact hbalanced.not_staysOpen after hopen
  · intro hnone
    rcases scan_cases 0 text with ⟨before, after, htext, hbalanced, -⟩ | ⟨inner, hopen, -, -⟩
    · exact absurd (closesAt_iff.2 ⟨before, after, htext, rfl, hbalanced⟩) (hnone _)
    · exact hopen

/-- A character within the first part of a text stands within that part. -/
theorem exists_rest_of_lt {left right : List Char} {c : Char}
    (h : left ++ right = before ++ c :: after) (hlt : before.length < left.length) :
    ∃ rest, left = before ++ c :: rest := by
  rcases List.append_eq_append_iff.1 h with ⟨more, rfl, -⟩ | ⟨more, rfl, hmore⟩
  · rw [List.length_append] at hlt
    omega
  · cases more with
    | nil =>
      rw [List.append_nil] at hlt
      exact absurd hlt (Nat.lt_irrefl _)
    | cons d more =>
      obtain ⟨rfl, -⟩ := List.cons_eq_cons.1 hmore
      exact ⟨more, rfl⟩

theorem Encloses.exists_place (h : Encloses rest.toList taken body) (more : List String) :
    ∃ place, ClosesAt (rest.toList ++ chars (taken ++ more)) place ∧
      Cut rest (taken ++ more) place body taken.length := by
  cases h with
  | @atOnce before after hrest hbalanced =>
    refine ⟨before.length, closesAt_iff.2 ⟨before, after ++ chars more, ?_, rfl, hbalanced⟩, ?_⟩
    · simp [hrest]
    · have htake : rest.toList.take before.length = before := by simp [hrest]
      have hplace : before.length < rest.toList.length := by simp [hrest]
      have hcut : Cut rest more before.length _ 0 := .atOnce hplace
      rwa [htake] at hcut
  | @later between last before after hlast hbalanced =>
    refine ⟨rest.toList.length + (chars between).length + before.length,
      closesAt_iff.2 ⟨_, after ++ chars more, ?_, ?_, hbalanced⟩, ?_⟩
    · simp [chars, hlast]
    · simp [Nat.add_assoc]
    · have htake : last.toList.take before.length = before := by simp [hlast]
      have hlines : between ++ [last] ++ more = between ++ last :: more := by simp
      have hinner : before.length < last.toList.length := by simp [hlast]
      have hcut : Cut rest _ _ _ _ := .later hlines hinner
      rw [htake] at hcut
      simpa using hcut

theorem exists_encloses (hcloses : ClosesAt (rest.toList ++ chars lines) place)
    (hcut : Cut rest lines place body used) :
    ∃ taken more, lines = taken ++ more ∧ used = taken.length ∧
      Encloses rest.toList taken body := by
  obtain ⟨before, after, htext, hlength, hbalanced⟩ := closesAt_iff.1 hcloses
  cases hcut with
  | atOnce hplace =>
    subst hlength
    obtain ⟨behind, hrest⟩ := exists_rest_of_lt htext hplace
    have htake : rest.toList.take before.length = before := by simp [hrest]
    rw [htake]
    exact ⟨[], lines, rfl, rfl, .atOnce hrest hbalanced⟩
  | @later between last more inner hlines hinner =>
    have hwhole : (rest.toList ++ chars between) ++ (last.toList ++ chars more) =
        before ++ '}' :: after := by
      rw [← htext, hlines]
      simp [chars]
    have hle : (rest.toList ++ chars between).length ≤ before.length := by
      rw [List.length_append]
      omega
    obtain ⟨front, rfl⟩ : rest.toList ++ chars between <+: before :=
      List.prefix_of_prefix_length_le ⟨_, hwhole⟩ (List.prefix_append before _) hle
    rw [List.append_assoc (rest.toList ++ chars between), List.append_cancel_left_eq] at hwhole
    obtain rfl : front.length = inner := by
      simp only [List.length_append] at hlength
      omega
    obtain ⟨behind, hlast⟩ := exists_rest_of_lt hwhole hinner
    have htake : last.toList.take front.length = front := by simp [hlast]
    rw [htake]
    refine ⟨between ++ [last], more, ?_, ?_, .later hlast hbalanced⟩
    · rw [hlines, List.append_assoc, List.singleton_append]
    · rw [List.length_append, List.length_singleton]

/-- A body ends at the first place at which more braces have been closed than opened, and is what comes
of cutting there. -/
theorem read?_eq_some_iff_closesAt : read? rest lines = some (body, used) ↔
    ∃ place, ClosesAt (rest.toList ++ chars lines) place ∧ Cut rest lines place body used := by
  rw [read?_eq_some_iff]
  constructor
  · rintro ⟨taken, more, rfl, rfl, hencloses⟩
    exact hencloses.exists_place more
  · rintro ⟨place, hcloses, hcut⟩
    exact exists_encloses hcloses hcut

/-- A brace of the last line closes one of the body, and the next brace closes the body. -/
example : read? " a \x7b" ["", "\x7d b \x7d\x7d c", "d"] = some ([" a \x7b", "", "\x7d b "], 2) := rfl

/-! ## Braces of a body -/

theorem balanced_keep_append (h : Balanced (piece ++ text)) :
    Balanced (chars (keep piece) ++ text) := by
  unfold keep
  split
  · rename_i hblank
    have hcount : 0 + piece.count '}' = 0 + piece.count '{' := by
      rw [List.count_eq_zero.2 (Text.not_mem_of_allBlank (by decide) hblank),
        List.count_eq_zero.2 (Text.not_mem_of_allBlank (by decide) hblank)]
    exact ((settles_append hcount).1 h).2
  · simpa using h

theorem balanced_append_keep (text : List Char) (h : Balanced (text ++ piece)) :
    Balanced (text ++ chars (keep piece)) := by
  unfold keep
  split
  · rename_i hblank
    have hcount := h.count_eq
    rw [List.count_append, List.count_append,
      List.count_eq_zero.2 (Text.not_mem_of_allBlank (by decide) hblank),
      List.count_eq_zero.2 (Text.not_mem_of_allBlank (by decide) hblank)] at hcount
    rw [chars_nil, List.append_nil]
    exact ⟨h.staysOpen.of_prefix (List.prefix_append text piece), hcount⟩
  · simpa using h

theorem Encloses.balanced {rest : List Char} (h : Encloses rest taken body) :
    Balanced (chars body) := by
  cases h with
  | atOnce _ hbalanced => exact balanced_append_keep [] hbalanced
  | @later between last before after _ hbalanced =>
    rw [List.append_assoc] at hbalanced
    have hfront := balanced_keep_append hbalanced
    rw [← List.append_assoc] at hfront
    simpa [chars] using balanced_append_keep _ hfront

theorem balanced_of_read? (h : read? rest lines = some (body, used)) : Balanced (chars body) := by
  obtain ⟨taken, more, -, -, hencloses⟩ := read?_eq_some_iff.1 h
  exact hencloses.balanced

/-! ## Counting -/

/-- A scan as a count, in which the opening brace counts too. -/
def Scan.toCount : Scan → Count
  | .closes before => .zero before
  | .leaves depth => .left (depth + 1)

theorem Scan.toCount_cons (c : Char) (scan : Scan) :
    (scan.cons c).toCount = scan.toCount.cons c := by
  cases scan <;> rfl

theorem count_eq_scan (depth : Nat) (text : List Char) :
    count (depth + 1) text = (scan depth text).toCount := by
  fun_induction scan depth text with
  | case1 depth => rfl
  | case2 depth cs ih => simp [count, ih, Scan.toCount_cons]
  | case3 cs => rfl
  | case4 depth cs ih => simp [count, ih, Scan.toCount_cons]
  | case5 depth c cs hopening hzero hsucc ih =>
    have hclosing := ne_closing hzero hsucc
    have hopening' : c ≠ '{' := hopening
    simp [count, hopening', hclosing, ih, Scan.toCount_cons]

theorem readByCount_lines (depth : Nat) (lines : List String) :
    readByCount (depth + 1) false lines =
      match readFrom? depth lines with
      | none => .error .unclosed
      | some found => .ok found := by
  induction lines generalizing depth with
  | nil => rfl
  | cons line rest ih =>
    unfold readByCount readFrom?
    rw [count_eq_scan]
    cases scan depth line.toList with
    | closes before => rfl
    | leaves inner =>
      simp only [Scan.toCount, ih]
      cases readFrom? inner rest <;> rfl

/-- Counting comes to the same, and the count is never to go below zero. -/
theorem readByCount_eq (rest : String) (lines : List String) :
    readByCount 1 true (rest :: lines) =
      match read? rest lines with
      | none => .error .unclosed
      | some (body, used) => .ok (body, used + 1) := by
  unfold readByCount read?
  rw [count_eq_scan 0]
  cases scan 0 rest.toList with
  | closes before => rfl
  | leaves inner =>
    simp only [Scan.toCount, readByCount_lines]
    cases readFrom? inner lines <;> rfl

end Body

namespace Directive

open Body (Balanced ClosesAt Cut chars readByCount)
open Header (Form isMarked)
open Text (trim)

variable {header : Header} {lines passed before : List String} {line rest file : String}
  {directives : List Directive}

theorem malformed_of_read? (hopens : Opens (trim line.toList) passed rest.toList)
    (hread : Body.read? rest lines = none) : Malformed (trim line.toList) (passed ++ lines) :=
  .inr ⟨passed, rest.toList, lines, rfl, hopens, Body.read?_eq_none_iff.1 hread⟩

/-- With its body read, a header makes a directive, and reading goes on with the next line; without a
body, the line of the header is at fault. -/
theorem parseFrom_opens (hline : isMarked (trim line.toList) = true)
    (hheader : Form (trim line.toList) header)
    (hopens : Opens (trim line.toList) passed rest.toList) (number : Nat) (lines : List String) :
    parseFrom number 0 (line :: (passed ++ lines)) =
      match Body.read? rest lines with
      | none => .error number
      | some (body, used) =>
        (parseFrom (number + 1 + (passed.length + used)) 0 (lines.drop used)).map
          (⟨header.name, header.params, body, number⟩ :: ·) := by
  cases hread : Body.read? rest lines with
  | none => exact reading_iff.1 (.malformed hline (malformed_of_read? hopens hread))
  | some found =>
    obtain ⟨body, used⟩ := found
    obtain ⟨taken, more, rfl, rfl, hencloses⟩ := Body.read?_eq_some_iff.1 hread
    have hrest := reading_parseFrom (number + 1 + (passed ++ taken).length) more
    have hall := Reading.directive hline hheader (.body hopens hencloses) hrest
    rw [List.append_assoc, List.length_append] at hall
    dsimp only
    rw [List.drop_left]
    exact reading_iff.1 hall

/-- Reading a body finds the first place behind the opening brace at which more braces have been closed
than opened, and cuts there. It fails if there is none. So what a body holds is balanced, and a count of
the open braces never goes below zero. Behind a header that opens a body, reading goes on with the line
behind that of the closing brace; if there is none, the fault is that of the header's line. -/
theorem bodies_match_braces (rest : String) (lines : List String) :
    (∀ body used, Body.read? rest lines = some (body, used) ↔
      ∃ place, ClosesAt (rest.toList ++ chars lines) place ∧ Cut rest lines place body used) ∧
    (Body.read? rest lines = none ↔ ∀ place, ¬ ClosesAt (rest.toList ++ chars lines) place) ∧
    (∀ body used, Body.read? rest lines = some (body, used) → Balanced (chars body)) ∧
    readByCount 1 true (rest :: lines) =
      (match Body.read? rest lines with
      | none => .error .unclosed
      | some (body, used) => .ok (body, used + 1)) ∧
    ∀ line passed header, isMarked (trim line.toList) = true → Form (trim line.toList) header →
      Opens (trim line.toList) passed rest.toList →
      (∀ number, parseFrom number 0 (line :: (passed ++ lines)) =
        match Body.read? rest lines with
        | none => .error number
        | some (body, used) =>
          (parseFrom (number + 1 + (passed.length + used)) 0 (lines.drop used)).map
            (⟨header.name, header.params, body, number⟩ :: ·)) ∧
      (Body.read? rest lines = none → ∀ file before directives, parse file before = .ok directives →
        parse file (before ++ line :: (passed ++ lines)) =
          .error (.malformed file (before.length + 1))) := by
  refine ⟨?_, ?_, ?_, Body.readByCount_eq rest lines, ?_⟩
  · intro body used
    exact Body.read?_eq_some_iff_closesAt
  · rw [Body.read?_eq_none_iff, Body.staysOpen_iff_closesAt]
  · intro body used
    exact Body.balanced_of_read?
  · intro line passed header hline hheader hopens
    constructor
    · intro number
      exact parseFrom_opens hline hheader hopens number lines
    · intro hread file before directives hbefore
      exact (malformedAt_append hbefore hline (malformed_of_read? hopens hread)).parse_eq

/-- A body that ends on the third line, and the same header with nothing behind it. -/
theorem bodies_match_braces_nested :
    let head := "%A(x) \x7b a \x7b"
    let behind := ["", "\x7d b \x7d\x7d c", "%B"]
    isMarked (trim head.toList) = true ∧
      Form (trim head.toList) ⟨"%A", some "x", some " a \x7b"⟩ ∧
      Opens (trim head.toList) [] " a \x7b".toList ∧
      parseFrom 1 0 (head :: behind) =
        .ok [⟨"%A", some "x", [" a \x7b", "", "\x7d b "], 1⟩, ⟨"%B", none, [], 4⟩] ∧
      Body.read? " a \x7b" [] = none ∧ parse "shader" ["%B"] = .ok [⟨"%B", none, [], 1⟩] ∧
      parse "shader" ["%B", head] = .error (.malformed "shader" 2) := by
  have hline : isMarked (trim "%A(x) \x7b a \x7b".toList) = true := by decide
  have hheader : Form (trim "%A(x) \x7b a \x7b".toList) ⟨"%A", some "x", some " a \x7b"⟩ :=
    Header.parse?_eq_some_iff.1 (by decide)
  have hopens : Opens (trim "%A(x) \x7b a \x7b".toList) [] " a \x7b".toList :=
    @Opens.here _ "%A(x) ".toList _ (by decide) (by decide)
  have hall := (bodies_match_braces " a \x7b" ["", "\x7d b \x7d\x7d c", "%B"]).2.2.2.2
    _ [] _ hline hheader hopens
  have hbare := (bodies_match_braces " a \x7b" []).2.2.2.2 _ [] _ hline hheader hopens
  have hbefore : parse "shader" ["%B"] = .ok [⟨"%B", none, [], 1⟩] := rfl
  exact ⟨hline, hheader, hopens, hall.1 1, rfl, hbefore, hbare.2 rfl "shader" ["%B"] _ hbefore⟩

end Directive

end ShaderIncludes
