import Mathlib.Data.List.Pairwise
import ShaderIncludes.Proofs.Composition

/-!
# Where directives stand

Every directive of a file takes up a stretch of lines, from its header to the brace that closes its
body. Main statement: these stretches follow one another without touching, hold what the directives
were read from, and leave no header outside (`exists_extents`).
-/
namespace ShaderIncludes.Directive

open Body (Encloses keep)
open Header (Form isMarked)
open Text (allBlank trim)

/-- The line with this number, counted from 1. -/
def lineAt? (lines : List String) : Nat → Option String
  | 0 => none
  | number + 1 => lines[number]?

/-- A stretch of lines that a directive takes up. -/
structure Extent where
  /-- The line of the header. -/
  first : Nat
  /-- The line with the brace that opens the body, or of the header if there is no body. -/
  opening : Nat
  /-- The line with the brace that closes the body, or of the header if there is no body. -/
  last : Nat
  /-- The lines of the body, each with the number of the line that it is taken from. -/
  pieces : List (Nat × String)
  deriving DecidableEq, Repr

/-- A text taken from the line with this number: part of the line, and all of it between the two
braces. -/
structure Extent.Takes (e : Extent) (lines : List String) (number : Nat) (text : String) : Prop where
  opening_le : e.opening ≤ number
  le_last : number ≤ e.last
  part : ∃ line, lineAt? lines number = some line ∧ text.toList <:+: line.toList ∧
    (e.opening < number → number < e.last → text = line)

/-- The lines behind a header with this text have the braces of its body where the extent says. -/
inductive Extent.Braces (e : Extent) (head : List Char) (behind body : List String) : Prop where
  | bare (hhead : '{' ∉ head) (hbehind : opening? behind = none) (hbody : body = [])
      (hopening : e.opening = e.first) (hlast : e.last = e.first) : Braces e head behind body
  | braced {passed rest enclosed more} (hbehind : behind = passed ++ enclosed ++ more)
      (hopens : Opens head passed rest) (hencloses : Encloses rest enclosed body)
      (hopening : e.opening = e.first + passed.length)
      (hlast : e.last = e.opening + enclosed.length) : Braces e head behind body

/-- The extent has taken the body from its lines, in order and at most once from each. -/
structure Extent.Collects (e : Extent) (lines body : List String) : Prop where
  body_eq : e.pieces.map Prod.snd = body
  increasing : (e.pieces.map Prod.fst).Pairwise (· < ·)
  takes : ∀ number text, (number, text) ∈ e.pieces → e.Takes lines number text
  between : ∀ number, e.opening < number → number < e.last → number ∈ e.pieces.map Prod.fst

/-- The directive was read from this extent of the lines. -/
structure Extent.Holds (e : Extent) (lines : List String) (d : Directive) : Prop where
  first_eq : e.first = d.line
  first_le : e.first ≤ e.opening
  opening_le : e.opening ≤ e.last
  last_le : e.last ≤ lines.length
  header : ∃ line, lineAt? lines e.first = some line ∧ isMarked (trim line.toList) = true ∧
    d.name.toList <+: trim line.toList ∧
    e.Braces (trim line.toList) (lines.drop e.first) d.body
  collects : e.Collects lines d.body

/-- Past line `start` the extent has taken all lines that look like headers as text. -/
def Extent.KeepsHeaders (e : Extent) (lines : List String) (start : Nat) : Prop :=
  ∀ number line, start < number → number ≤ e.last → lineAt? lines number = some line →
    isMarked (trim line.toList) = true →
    ∃ text, (number, text) ∈ e.pieces ∧ isMarked (trim text.toList) = true

variable {lines taken body passed enclosed between more : List String} {line last text : String}
  {start opening number : Nat} {rest before after : List Char}

/-! ## Numbers of lines -/

theorem lineAt?_of_drop (h : lines.drop start = taken) (index : Nat) :
    lineAt? lines (start + 1 + index) = taken[index]? := by
  rw [Nat.add_right_comm, lineAt?, ← h, List.getElem?_drop]

theorem drop_of_append (h : lines.drop start = taken ++ more) :
    lines.drop (start + taken.length) = more := by
  rw [← List.drop_drop, h, List.drop_left]

theorem drop_of_cons (h : lines.drop start = line :: more) : lines.drop (start + 1) = more := by
  rw [← List.drop_drop, h]
  rfl

theorem add_length_of_drop (h : lines.drop start = line :: more) :
    start + 1 + more.length = lines.length := by
  have hlength := congrArg List.length h
  rw [List.length_drop, List.length_cons] at hlength
  omega

/-! ## Lines that look like headers -/

theorem isMarked_iff {cs : List Char} : isMarked (trim cs) = true ↔
    ∃ lead more, allBlank lead = true ∧ cs = lead ++ '%' :: more := by
  refine ⟨exists_of_marked, ?_⟩
  rintro ⟨lead, more, hlead, rfl⟩
  have hpercent : Text.isBlank '%' = false := by decide
  obtain ⟨blanks, hblanks, hmore⟩ := Text.exists_trimEnd ('%' :: more)
  rw [trim, Text.trimStart_append hlead, Text.trimStart_cons hpercent]
  cases htrim : Text.trimEnd ('%' :: more) with
  | nil =>
    rw [htrim, List.nil_append] at hmore
    rw [← hmore] at hblanks
    simp [allBlank, hpercent] at hblanks
  | cons c cs =>
    rw [htrim, List.cons_append] at hmore
    rw [← (List.cons.inj hmore).1]
    rfl

/-- Where a text looks like a header, so does what comes before a closing brace in it. -/
theorem isMarked_before {cs : List Char} (h : isMarked (trim cs) = true)
    (hcs : cs = before ++ '}' :: after) : isMarked (trim before) = true := by
  obtain ⟨lead, more, hlead, hmore⟩ := isMarked_iff.1 h
  have hbrace : Text.isBlank '}' = false := by decide
  rcases List.append_eq_append_iff.1 (hcs.symm.trans hmore) with
    ⟨others, rfl, hothers⟩ | ⟨others, rfl, hothers⟩
  · cases others with
    | nil => cases hothers
    | cons c others =>
      obtain ⟨rfl, -⟩ := List.cons.inj hothers
      simp [allBlank, hbrace] at hlead
  · cases others with
    | nil => cases hothers
    | cons c others =>
      obtain ⟨rfl, -⟩ := List.cons.inj hothers
      exact isMarked_iff.2 ⟨lead, others, hlead, rfl⟩

theorem not_marked_of_isBlankLine (h : isBlankLine line = true) :
    isMarked (trim line.toList) ≠ true := by
  intro hline
  obtain ⟨lead, more, -, hcs⟩ := isMarked_iff.1 hline
  have hpercent : Text.isBlank '%' = true :=
    List.all_eq_true.1 h _ (hcs ▸ List.mem_append_right lead List.mem_cons_self)
  revert hpercent
  decide

/-- Up to the opening brace there is no line that looks like a header. -/
theorem Opens.not_marked {head : List Char} (h : Opens head passed rest) :
    ∀ line ∈ passed, isMarked (trim line.toList) ≠ true := by
  cases h with
  | here => exact List.forall_mem_nil _
  | below _ hblanks hlead hline =>
    refine List.forall_mem_append.2 ⟨fun b hb => not_marked_of_isBlankLine (hblanks b hb), ?_⟩
    refine List.forall_mem_singleton.2 fun hmarked => ?_
    have hopening := opening?_append (List.forall_mem_nil _) hlead hline []
    rw [List.nil_append, opening?_of_marked hmarked] at hopening
    cases hopening

/-- The brace that opens a body stands on the last line passed. -/
theorem Opens.exists_line (h : Opens (trim line.toList) passed rest)
    (hdrop : lines.drop start = line :: (passed ++ more)) :
    ∃ opened, lineAt? lines (start + 1 + passed.length) = some opened ∧
      rest <:+: opened.toList := by
  cases h with
  | @here before rest _ hhead =>
    refine ⟨line, by rw [List.length_nil, lineAt?_of_drop hdrop]; rfl, ?_⟩
    obtain ⟨lead, after, -, -, hline⟩ := Text.exists_trim line.toList
    refine ⟨lead ++ before ++ ['{'], after, ?_⟩
    rw [hline, hhead]
    simp
  | @below blanks opened lead rest _ _ _ hopened =>
    refine ⟨opened, ?_, ⟨lead ++ ['{'], [], by simp [hopened]⟩⟩
    rw [lineAt?_of_drop hdrop]
    simp

/-! ## Bodies and the lines they are taken from -/

/-- The lines of a body, with the text behind the opening brace on line `opening`. -/
def piecesOf (opening : Nat) (rest : List Char) (between : List String) (before : List Char) :
    List (Nat × String) :=
  (keep rest).map (opening, ·) ++ (between.zipIdx (opening + 1)).map Prod.swap ++
    (keep before).map (opening + between.length + 1, ·)

theorem map_snd_piecesOf : (piecesOf opening rest between before).map Prod.snd =
    keep rest ++ between ++ keep before := by
  simp [piecesOf, Function.comp_def]

theorem map_fst_piecesOf : (piecesOf opening rest between before).map Prod.fst =
    (keep rest).map (fun _ => opening) ++ List.range' (opening + 1) between.length ++
      (keep before).map (fun _ => opening + between.length + 1) := by
  simp [piecesOf, Function.comp_def]

theorem pairwise_map_keep (number : Nat) (piece : List Char) :
    ((keep piece).map fun _ => number).Pairwise (· < ·) := by
  unfold keep
  split <;> simp

theorem pairwise_piecesOf :
    ((piecesOf opening rest between before).map Prod.fst).Pairwise (· < ·) := by
  rw [map_fst_piecesOf]
  refine List.pairwise_append.2 ⟨List.pairwise_append.2 ⟨pairwise_map_keep _ _,
    List.pairwise_lt_range', ?_⟩, pairwise_map_keep _ _, ?_⟩
  · intro a ha b hb
    simp only [List.mem_map, List.mem_range'_1] at ha hb
    omega
  · intro a ha b hb
    simp only [List.mem_append, List.mem_map, List.mem_range'_1] at ha hb
    omega

theorem mem_map_swap_zipIdx : (number, text) ∈ (between.zipIdx start).map Prod.swap ↔
    ∃ index, number = start + index ∧ between[index]? = some text := by
  simp only [List.mem_map, Prod.exists, Prod.swap_prod_mk, Prod.mk.injEq,
    List.mk_mem_zipIdx_iff_le_and_getElem?_sub]
  constructor
  · rintro ⟨_, _, ⟨hle, hget⟩, rfl, rfl⟩
    exact ⟨_, (Nat.add_sub_cancel' hle).symm, hget⟩
  · rintro ⟨index, rfl, hget⟩
    exact ⟨text, start + index, ⟨Nat.le_add_right _ _, by rwa [Nat.add_sub_cancel_left]⟩, rfl, rfl⟩

theorem mem_piecesOf : (number, text) ∈ piecesOf opening rest between before ↔
    text ∈ keep rest ∧ opening = number ∨
      (∃ index, number = opening + 1 + index ∧ between[index]? = some text) ∨
      text ∈ keep before ∧ opening + between.length + 1 = number := by
  unfold piecesOf
  rw [List.mem_append, List.mem_append, mem_map_swap_zipIdx, or_assoc]
  simp

theorem toList_of_mem_keep {piece : List Char} (h : text ∈ keep piece) : text.toList = piece := by
  unfold keep at h
  split at h
  · cases h
  · rw [List.mem_singleton.1 h, String.toList_ofList]

theorem mem_keep_of_marked {piece : List Char} (h : isMarked (trim piece) = true) :
    String.ofList piece ∈ keep piece := by
  obtain ⟨lead, more, -, rfl⟩ := isMarked_iff.1 h
  have hpercent : Text.isBlank '%' = false := by decide
  simp [keep, allBlank, hpercent]

/-- A body on one line. -/
theorem collects_atOnce {opened : String} (first : Nat) (hopened : lineAt? lines opening = some opened)
    (hrest : rest <:+: opened.toList) (hbefore : before <+: rest) :
    Extent.Collects ⟨first, opening, opening, (keep before).map (opening, ·)⟩ lines
      (keep before) where
  body_eq := by simp [Function.comp_def]
  increasing := by
    rw [List.map_map]
    exact pairwise_map_keep opening before
  takes := by
    intro number text hmem
    obtain ⟨kept, hkept, heq⟩ := List.mem_map.1 hmem
    obtain ⟨rfl, rfl⟩ := Prod.mk.inj heq
    refine ⟨Nat.le_refl _, Nat.le_refl _, opened, hopened, ?_, fun h => absurd h (Nat.lt_irrefl _)⟩
    rw [toList_of_mem_keep hkept]
    exact hbefore.isInfix.trans hrest
  between := by
    intro number hopening hlast
    exact absurd hlast (Nat.lt_asymm hopening)

/-- A body over several lines. -/
theorem collects_later {opened : String} (first : Nat) (hopened : lineAt? lines opening = some opened)
    (hrest : rest <:+: opened.toList) (hdrop : lines.drop opening = between ++ last :: more)
    (hlast : last.toList = before ++ '}' :: after) :
    Extent.Collects
      ⟨first, opening, opening + between.length + 1, piecesOf opening rest between before⟩ lines
      (keep rest ++ between ++ keep before) where
  body_eq := map_snd_piecesOf
  increasing := pairwise_piecesOf
  takes := by
    intro number text hmem
    have hlength : opening ≤ opening + between.length + 1 := by omega
    rcases mem_piecesOf.1 hmem with ⟨hkept, rfl⟩ | ⟨index, rfl, hget⟩ | ⟨hkept, rfl⟩
    · refine ⟨Nat.le_refl _, hlength, opened, hopened, ?_, fun h => absurd h (Nat.lt_irrefl _)⟩
      rwa [toList_of_mem_keep hkept]
    · have hindex := (List.getElem?_eq_some_iff.1 hget).1
      have hle : opening ≤ opening + 1 + index := by omega
      have hle' : opening + 1 + index ≤ opening + between.length + 1 := by omega
      refine ⟨hle, hle', text, ?_, List.infix_rfl, fun _ _ => rfl⟩
      rw [lineAt?_of_drop hdrop, List.getElem?_append_left hindex, hget]
    · refine ⟨hlength, Nat.le_refl _, last, ?_, ?_, fun _ h => absurd h (Nat.lt_irrefl _)⟩
      · rw [Nat.add_right_comm, lineAt?_of_drop hdrop]
        simp
      · rw [toList_of_mem_keep hkept, hlast]
        exact (List.prefix_append before _).isInfix
  between := by
    intro number hopening hlast
    dsimp only at hopening hlast
    rw [map_fst_piecesOf]
    simp only [List.mem_append, List.mem_range'_1]
    omega

/-- A header within a body has become text of that body. -/
theorem exists_piece_of_marked (hdrop : lines.drop opening = between ++ last :: more)
    (hlast : last.toList = before ++ '}' :: after) (hopening : opening < number)
    (hnumber : number ≤ opening + between.length + 1) (hget : lineAt? lines number = some line)
    (hline : isMarked (trim line.toList) = true) :
    ∃ text, (number, text) ∈ piecesOf opening rest between before ∧
      isMarked (trim text.toList) = true := by
  obtain ⟨index, rfl⟩ := Nat.exists_eq_add_of_le (Nat.succ_le_of_lt hopening)
  rw [Nat.succ_eq_add_one, lineAt?_of_drop hdrop] at hget
  rcases Nat.lt_or_ge index between.length with hindex | hindex
  · rw [List.getElem?_append_left hindex] at hget
    exact ⟨line, mem_piecesOf.2 (.inr (.inl ⟨index, rfl, hget⟩)), hline⟩
  · obtain rfl : index = between.length := by omega
    obtain rfl : last = line := by simpa using hget
    -- the percent sign comes in front of the closing brace
    have hbefore : isMarked (trim before) = true := isMarked_before hline hlast
    refine ⟨String.ofList before, mem_piecesOf.2 (.inr (.inr ⟨mem_keep_of_marked hbefore, ?_⟩)), ?_⟩
    · omega
    · rwa [String.toList_ofList]

/-! ## Directives and their extents -/

theorem name_prefix {head : List Char} {header : Header} (h : Form head header) :
    header.name.toList <+: head := by
  cases h with
  | @intro name arguments opening =>
    rw [String.toList_ofList, List.append_assoc]
    exact List.prefix_append name _

/-- Lines passed on the way to the opening brace look like no headers. -/
theorem not_marked_of_le_opening {head : List Char} (hopens : Opens head passed rest)
    (hdrop : lines.drop start = passed ++ more) (hfirst : start < number)
    (hnumber : number ≤ start + passed.length) (hget : lineAt? lines number = some line) :
    isMarked (trim line.toList) ≠ true := by
  obtain ⟨index, rfl⟩ := Nat.exists_eq_add_of_le (Nat.succ_le_of_lt hfirst)
  have hindex : index < passed.length := by omega
  rw [Nat.succ_eq_add_one, lineAt?_of_drop hdrop, List.getElem?_append_left hindex] at hget
  exact hopens.not_marked line (List.mem_of_getElem? hget)

theorem exists_collects {opened : String} (first : Nat)
    (hopened : lineAt? lines opening = some opened) (hrest : rest <:+: opened.toList)
    (hdrop : lines.drop opening = enclosed ++ more) (hencloses : Encloses rest enclosed body) :
    ∃ e : Extent, e.first = first ∧ e.opening = opening ∧ e.last = opening + enclosed.length ∧
      e.Collects lines body ∧ e.KeepsHeaders lines opening := by
  cases hencloses with
  | @atOnce before after hbefore =>
    have hprefix : before <+: rest := hbefore ▸ List.prefix_append before _
    refine ⟨_, rfl, rfl, rfl, collects_atOnce first hopened hrest hprefix, ?_⟩
    intro number _ hlt hle
    exact absurd hlt (Nat.not_lt_of_le hle)
  | @later between last before after hlast =>
    rw [List.append_assoc, List.singleton_append] at hdrop
    refine ⟨_, rfl, rfl, ?_, collects_later first hopened hrest hdrop hlast, ?_⟩
    · rw [List.length_append, List.length_singleton, Nat.add_assoc]
    · intro number line hlt hle hget hline
      exact exists_piece_of_marked hdrop hlast hlt hle hget hline

/-- What belongs to a header is an extent of the lines. -/
theorem exists_extent {header : Header} (hdrop : lines.drop start = line :: (taken ++ more))
    (hline : isMarked (trim line.toList) = true) (hheader : Form (trim line.toList) header)
    (hbelongs : Belongs (trim line.toList) taken body more) :
    ∃ e : Extent, e.first = start + 1 ∧ e.last = start + 1 + taken.length ∧
      e.Holds lines ⟨header.name, header.params, body, start + 1⟩ ∧
      e.KeepsHeaders lines e.first := by
  have hfirst : lineAt? lines (start + 1) = some line := lineAt?_of_drop hdrop 0
  have hbehind := drop_of_cons hdrop
  have hlength := add_length_of_drop hdrop
  rw [List.length_append] at hlength
  have hname := name_prefix hheader
  cases hbelongs with
  | bare hhead hmore =>
    have hle : start + 1 ≤ lines.length := by omega
    refine ⟨⟨start + 1, start + 1, start + 1, []⟩, rfl, rfl,
      ⟨rfl, Nat.le_refl _, Nat.le_refl _, hle, ?_, ?_⟩, ?_⟩
    · exact ⟨line, hfirst, hline, hname, .bare hhead (hbehind ▸ hmore) rfl rfl rfl⟩
    · exact ⟨rfl, .nil, nofun, fun _ h h' => absurd h' (Nat.lt_asymm h)⟩
    · intro number _ hlt hle
      exact absurd hlt (Nat.not_lt_of_le hle)
  | @body passed rest enclosed _ _ hopens hencloses =>
    rw [List.append_assoc] at hdrop hbehind
    obtain ⟨opened, hopened, hrest⟩ := hopens.exists_line hdrop
    obtain ⟨e, he, hopening, hlast, hcollects, hkeeps⟩ :=
      exists_collects (start + 1) hopened hrest (drop_of_append hbehind) hencloses
    have hlast' : e.last = start + 1 + (passed ++ enclosed).length := by
      rw [hlast, List.length_append, Nat.add_assoc]
    have hsplit : lines.drop (start + 1) = passed ++ enclosed ++ more := by
      rw [hbehind, List.append_assoc]
    refine ⟨e, he, hlast', ⟨he, by omega, by omega, by omega, ?_, hcollects⟩, ?_⟩
    · rw [he]
      refine ⟨line, hfirst, hline, hname, .braced hsplit hopens hencloses ?_ ?_⟩
      · rw [hopening, he]
      · rw [hlast, hopening]
    · intro number text hlt hle hget hmarked
      rcases Nat.lt_or_ge (start + 1 + passed.length) number with hpast | hbefore
      · exact hkeeps number text hpast hle hget hmarked
      · -- the lines from the header to the opening brace are blank or begin with that brace
        rw [he] at hlt
        exact absurd hmarked (not_marked_of_le_opening hopens hbehind hlt hbefore hget)

/-! ## Files -/

/-- The directives were read from these extents, one after the other, and from line `number` on no line
outside of them looks like a header. -/
structure Covers (lines : List String) (number : Nat) (extents : List Extent)
    (directives : List Directive) : Prop where
  holds : List.Forall₂ (fun e d => e.Holds lines d) extents directives
  ordered : extents.Pairwise fun e f => e.last < f.first
  le_first : ∀ e ∈ extents, number ≤ e.first
  headers : ∀ index line, number ≤ index → lineAt? lines index = some line →
    isMarked (trim line.toList) = true → ∃ e ∈ extents, e.first ≤ index ∧ index ≤ e.last ∧
      (index = e.first ∨ e.first < index ∧
        ∃ text, (index, text) ∈ e.pieces ∧ isMarked (trim text.toList) = true)

variable {e : Extent} {d : Directive} {extents : List Extent} {directives : List Directive}

theorem covers_nil (h : lines.drop start = []) : Covers lines (start + 1) [] [] where
  holds := .nil
  ordered := .nil
  le_first := List.forall_mem_nil _
  headers := by
    intro index line hle hget
    obtain ⟨skipped, rfl⟩ := Nat.exists_eq_add_of_le hle
    rw [lineAt?_of_drop h] at hget
    cases hget

/-- A line that does not look like a header needs no extent. -/
theorem Covers.other (h : Covers lines (start + 1 + 1) extents directives)
    (hdrop : lines.drop start = line :: more) (hline : isMarked (trim line.toList) = false) :
    Covers lines (start + 1) extents directives where
  holds := h.holds
  ordered := h.ordered
  le_first := fun e he => Nat.le_of_succ_le (h.le_first e he)
  headers := by
    intro index found hle hget hmarked
    rcases Nat.eq_or_lt_of_le hle with rfl | hlt
    · have hfirst : lineAt? lines (start + 1) = some line := lineAt?_of_drop hdrop 0
      obtain rfl := Option.some.inj (hget.symm.trans hfirst)
      rw [hline] at hmarked
      cases hmarked
    · exact h.headers index found hlt hget hmarked

/-- An extent in front takes its directive, and the headers within it. -/
theorem Covers.cons (h : Covers lines (number + 1 + taken.length) extents directives)
    (hfirst : e.first = number) (hlast : e.last = number + taken.length) (hholds : e.Holds lines d)
    (hkeeps : e.KeepsHeaders lines e.first) : Covers lines number (e :: extents) (d :: directives) where
  holds := .cons hholds h.holds
  ordered := by
    refine List.pairwise_cons.2 ⟨fun f hf => ?_, h.ordered⟩
    have := h.le_first f hf
    omega
  le_first := by
    refine List.forall_mem_cons.2 ⟨Nat.le_of_eq hfirst.symm, fun f hf => ?_⟩
    have := h.le_first f hf
    omega
  headers := by
    intro index line hle hget hmarked
    rcases Nat.lt_or_ge e.last index with hpast | hwithin
    · obtain ⟨f, hf, hcovered⟩ := h.headers index line (by omega) hget hmarked
      exact ⟨f, List.mem_cons_of_mem e hf, hcovered⟩
    · refine ⟨e, List.mem_cons_self, hfirst ▸ hle, hwithin, ?_⟩
      rcases Nat.eq_or_lt_of_le hle with rfl | hlt
      · exact .inl hfirst.symm
      · rw [← hfirst] at hlt
        exact .inr ⟨hlt, hkeeps index line hlt hwithin hget hmarked⟩

theorem Reading.exists_covers (h : Reading (start + 1) taken (.ok directives))
    (hdrop : lines.drop start = taken) : ∃ extents, Covers lines (start + 1) extents directives := by
  generalize hnumber : start + 1 = number at h ⊢
  generalize hok : Except.ok directives = outcome at h
  induction h generalizing start directives with
  | finish =>
    cases hok
    exact ⟨[], hnumber ▸ covers_nil hdrop⟩
  | other hline _ ih =>
    subst hnumber
    obtain ⟨extents, hcovers⟩ := ih (drop_of_cons hdrop) rfl hok
    exact ⟨extents, hcovers.other hdrop hline⟩
  | malformed => cases hok
  | directive hline hheader hbelongs _ ih =>
    subst hnumber
    obtain ⟨others, rfl, rfl⟩ := map_eq_ok.1 hok.symm
    obtain ⟨e, hfirst, hlast, hholds, hkeeps⟩ := exists_extent hdrop hline hheader hbelongs
    have hrest := drop_of_append (drop_of_cons hdrop)
    obtain ⟨extents, hcovers⟩ := ih hrest (by omega) rfl
    exact ⟨e :: extents, hcovers.cons hfirst hlast hholds hkeeps⟩

/-- Of extents that follow one another, only one holds a line. -/
theorem eq_of_ordered (h : extents.Pairwise fun e f => e.last < f.first) {f : Extent}
    (he : e ∈ extents) (hf : f ∈ extents) (hfirst : e.first ≤ number) (hlast : number ≤ e.last)
    (hfirst' : f.first ≤ number) (hlast' : number ≤ f.last) : f = e := by
  have hapart : extents.Pairwise fun e f => e.last < f.first ∨ f.last < e.first :=
    h.imp .inl
  have hsymm : Std.Symm fun e f : Extent => e.last < f.first ∨ f.last < e.first :=
    ⟨fun _ _ => Or.symm⟩
  by_contra hne
  have := hapart.forall hf he hne
  omega

/-- A file that is read well divides into the extents of its directives and the lines outside of them.
Every line that looks like a header is the first line of one extent, or lies within one extent further
down and has become text of its body. -/
theorem exists_extents {file : String} (h : parse file lines = .ok directives) :
    ∃ extents : List Extent,
      List.Forall₂ (fun e d => e.Holds lines d) extents directives ∧
      extents.Pairwise (fun e f => e.last < f.first) ∧
      ∀ number line, lineAt? lines number = some line → isMarked (trim line.toList) = true →
        ∃ e ∈ extents, e.first ≤ number ∧ number ≤ e.last ∧
          (number = e.first ∨ e.first < number ∧
            ∃ text, (number, text) ∈ e.pieces ∧ isMarked (trim text.toList) = true) ∧
          ∀ f ∈ extents, f.first ≤ number → number ≤ f.last → f = e := by
  have hread : Reading (0 + 1) lines (.ok directives) := parse_eq_ok_iff.1 h
  obtain ⟨extents, hcovers⟩ := hread.exists_covers rfl
  refine ⟨extents, hcovers.holds, hcovers.ordered, ?_⟩
  intro number line hget hline
  have hpos : 1 ≤ number := by
    cases number with
    | zero => cases hget
    | succ number => exact Nat.le_add_left 1 number
  obtain ⟨e, he, hfirst, hlast, hwhere⟩ := hcovers.headers number line hpos hget hline
  refine ⟨e, he, hfirst, hlast, hwhere, ?_⟩
  intro f hf hfirst' hlast'
  exact eq_of_ordered hcovers.ordered he hf hfirst hlast hfirst' hlast'

/-- A directive whose body has braces and would-be headers, and a bare one. -/
def nested : List String := ["%A \x7b", " %x \x7b", "\x7d %y \x7d", "", "%B"]

/-- The second line looks like a header and is text. -/
theorem exists_extents_nested :
    parse "shader" nested = .ok [⟨"%A", none, [" %x \x7b", "\x7d %y "], 1⟩, ⟨"%B", none, [], 5⟩] ∧
    ∃ extents : List Extent,
      List.Forall₂ (fun e d => e.Holds nested d) extents
        [⟨"%A", none, [" %x \x7b", "\x7d %y "], 1⟩, ⟨"%B", none, [], 5⟩] ∧
      extents.Pairwise (fun e f => e.last < f.first) ∧
      ∃ e ∈ extents, e.first ≤ 2 ∧ 2 ≤ e.last ∧
        (2 = e.first ∨ e.first < 2 ∧
          ∃ text, (2, text) ∈ e.pieces ∧ isMarked (trim text.toList) = true) := by
  have hparse : parse "shader" nested =
      .ok [⟨"%A", none, [" %x \x7b", "\x7d %y "], 1⟩, ⟨"%B", none, [], 5⟩] := rfl
  obtain ⟨extents, hholds, hordered, hheaders⟩ := exists_extents hparse
  obtain ⟨e, he, hfirst, hlast, hwhere, -⟩ := hheaders 2 " %x \x7b" rfl rfl
  exact ⟨hparse, extents, hholds, hordered, e, he, hfirst, hlast, hwhere⟩

end ShaderIncludes.Directive
