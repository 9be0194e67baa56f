import ShaderIncludes.Includes
import ShaderIncludes.Store.Folder
import ShaderIncludes.Text.Replace

/-!
# Lines as they are written

Lines can be written in more than one way: each one ends with a line feed or with a carriage return
and a line feed, the last one perhaps with neither, and byte-order marks may stand in front. Every
text is such a writing of some lines (`exists_writing`). Main statement: these are the lines that it
is read as, so the directives of a file do not depend on how its lines end (`lines_of_writing`).
-/
namespace ShaderIncludes.Text

/-- What a line ends with: a line feed alone, or a carriage return and a line feed. -/
inductive Terminator where
  | feed
  | returnFeed
  deriving DecidableEq, Repr

def Terminator.chars : Terminator → List Char
  | .feed => ['\n']
  | .returnFeed => ['\r', '\n']

/-- A line and what it ends with. -/
structure Terminated where
  line : List Char
  terminator : Terminator
  feed_not_mem : '\n' ∉ line
  /-- Before a line feed alone, a carriage return would be part of the terminator. -/
  last_ne_return : terminator = .feed → line.getLast? ≠ some '\r'

/-- Lines with a terminator each, and behind them one without, if it has any text. -/
def writtenLines (rows : List Terminated) (rest : List Char) : List (List Char) :=
  rows.map (·.line) ++ if rest = [] then [] else [rest]

/-- A way to write lines as a text. -/
structure Writing where
  /-- How many byte-order marks stand in front. -/
  marks : Nat
  /-- The lines that are written with a terminator. -/
  rows : List Terminated
  /-- The last line, if its terminator is left out. It is empty if none is. -/
  rest : List Char
  feed_not_mem : '\n' ∉ rest
  /-- A mark that the first line began with would be one more in front. -/
  unmarked : ∀ line ∈ (writtenLines rows rest).head?, line.head? ≠ some byteOrderMark

namespace Terminated

def chars (row : Terminated) : List Char := row.line ++ row.terminator.chars

/-- The same line with a carriage return and a line feed. -/
def returned (row : Terminated) : Terminated := ⟨row.line, .returnFeed, row.feed_not_mem, nofun⟩

theorem split_chars_append (row : Terminated) (rest : List Char) :
    split (row.chars ++ rest) = row.line :: split rest := by
  obtain ⟨line, terminator, hline, hlast⟩ := row
  unfold chars
  rw [List.append_assoc]
  cases terminator with
  | feed => exact split_append_feed hline (hlast rfl) rest
  | returnFeed => exact split_append_returnFeed hline rest

theorem chars_of_not_mem {row : Terminated} (h : '\r' ∉ row.chars) :
    row.chars = row.line ++ ['\n'] := by
  obtain ⟨line, terminator, hline, hlast⟩ := row
  cases terminator with
  | feed => rfl
  | returnFeed => exact absurd (List.mem_append_right line List.mem_cons_self) h

/-- A text up to and with its first line feed. -/
theorem exists_chars {line : List Char} (h : '\n' ∉ line) :
    ∃ row : Terminated, row.chars = line ++ ['\n'] := by
  by_cases hreturn : line.getLast? = some '\r'
  · obtain ⟨front, rfl⟩ := List.getLast?_eq_some_iff.1 hreturn
    have hfront : '\n' ∉ front := fun hmem => h (List.mem_append_left _ hmem)
    exact ⟨⟨front, .returnFeed, hfront, nofun⟩, by simp [chars, Terminator.chars]⟩
  · exact ⟨⟨line, .feed, h, fun _ => hreturn⟩, rfl⟩

end Terminated

theorem split_rows (rows : List Terminated) {rest : List Char} (h : '\n' ∉ rest) :
    split (rows.flatMap Terminated.chars ++ rest) = writtenLines rows rest := by
  induction rows with
  | nil =>
    by_cases hrest : rest = []
    · subst hrest
      rfl
    · rw [List.flatMap_nil, List.nil_append, split_of_not_mem h hrest, writtenLines, if_neg hrest]
      rfl
  | cons row rows ih =>
    rw [List.flatMap_cons, List.append_assoc, row.split_chars_append, ih]
    rfl

/-- A mark in front of the text is one in front of its first line: no terminator begins with it. -/
theorem head?_rows_iff (rows : List Terminated) (rest : List Char) :
    (rows.flatMap Terminated.chars ++ rest).head? = some byteOrderMark ↔
      ∃ line ∈ (writtenLines rows rest).head?, line.head? = some byteOrderMark := by
  cases rows with
  | nil => cases rest <;> simp [writtenLines]
  | cons row rows =>
    obtain ⟨line, terminator, hline, hlast⟩ := row
    have hfeed : '\n' ≠ byteOrderMark := by decide
    have hreturn : '\r' ≠ byteOrderMark := by decide
    cases line with
    | nil =>
      cases terminator with
      | feed => simp [writtenLines, Terminated.chars, Terminator.chars, hfeed]
      | returnFeed => simp [writtenLines, Terminated.chars, Terminator.chars, hreturn]
    | cons c line => simp [writtenLines, Terminated.chars]

/-- A text is cut behind its line feeds, one after the other; what is left has none. -/
theorem exists_rows (text : List Char) : ∃ (rows : List Terminated) (rest : List Char),
    '\n' ∉ rest ∧ rows.flatMap Terminated.chars ++ rest = text := by
  induction hlength : text.length using Nat.strongRecOn generalizing text with
  | ind length ih =>
    by_cases hfeed : '\n' ∈ text
    · obtain ⟨line, behind, rfl, hline⟩ := List.eq_append_cons_of_mem hfeed
      have hshorter : behind.length < length := by
        rw [← hlength, List.length_append, List.length_cons]
        omega
      -- a carriage return at the end of the line goes to its terminator
      obtain ⟨row, hrow⟩ := Terminated.exists_chars hline
      obtain ⟨rows, rest, hrest, rfl⟩ := ih behind.length hshorter behind rfl
      refine ⟨row :: rows, rest, hrest, ?_⟩
      rw [List.flatMap_cons, hrow]
      simp
    · exact ⟨[], text, hfeed, rfl⟩

theorem writtenLines_returned (rows : List Terminated) (rest : List Char) :
    writtenLines (rows.map Terminated.returned) rest = writtenLines rows rest := by
  unfold writtenLines
  rw [List.map_map]
  rfl

theorem replace_rows {rows : List Terminated} {rest : List Char}
    (hrows : ∀ row ∈ rows, '\r' ∉ row.chars) (hrest : '\n' ∉ rest) :
    replace ['\n'] ['\r', '\n'] (rows.flatMap Terminated.chars ++ rest) =
      (rows.map Terminated.returned).flatMap Terminated.chars ++ rest := by
  induction rows with
  | nil =>
    have hself := replace_append_of_not_mem hrest [] ['\r', '\n'] []
    rwa [replace_nil, List.append_nil] at hself
  | cons row rows ih =>
    obtain ⟨hrow, hrows⟩ := List.forall_mem_cons.1 hrows
    have hfeed := replace_append_self '\n' [] ['\r', '\n'] (rows.flatMap Terminated.chars ++ rest)
    rw [List.flatMap_cons, Terminated.chars_of_not_mem hrow, List.append_assoc, List.append_assoc,
      replace_append_of_not_mem row.feed_not_mem, hfeed, ih hrows, List.map_cons, List.flatMap_cons,
      List.append_assoc]
    exact (List.append_assoc row.line ['\r', '\n'] _).symm

namespace Writing

/-- The lines that are written. -/
def lines (w : Writing) : List (List Char) := writtenLines w.rows w.rest

/-- The text behind the marks. -/
def body (w : Writing) : List Char := w.rows.flatMap Terminated.chars ++ w.rest

def text (w : Writing) : List Char := List.replicate w.marks byteOrderMark ++ w.body

theorem head?_body (w : Writing) : w.body.head? ≠ some byteOrderMark := by
  intro hmark
  obtain ⟨line, hline, hmark⟩ := (head?_rows_iff w.rows w.rest).1 hmark
  exact w.unmarked line hline hmark

theorem dropWhile_text (w : Writing) : w.text.dropWhile (· = byteOrderMark) = w.body := by
  have hmarks : ∀ c ∈ List.replicate w.marks byteOrderMark, decide (c = byteOrderMark) = true :=
    fun c hc => decide_eq_true (List.eq_of_mem_replicate hc)
  have hhead := w.head?_body
  unfold text
  rw [List.dropWhile_append_of_pos hmarks]
  cases hbody : w.body with
  | nil => rfl
  | cons c body =>
    rw [hbody] at hhead
    exact List.dropWhile_cons_of_neg fun hc => hhead (congrArg some (of_decide_eq_true hc))

theorem lines_text (w : Writing) : Text.lines w.text = w.lines := by
  unfold Text.lines
  rw [w.dropWhile_text]
  exact split_rows w.rows w.feed_not_mem

/-- Every text is a writing of some lines. -/
theorem exists_writing (text : List Char) : ∃ w : Writing, w.text = text := by
  have hmarks : text.takeWhile (· = byteOrderMark) =
      List.replicate (text.takeWhile (· = byteOrderMark)).length byteOrderMark :=
    List.eq_replicate_of_mem fun c hc =>
      of_decide_eq_true (List.all_eq_true.1 List.all_takeWhile c hc)
  obtain ⟨rows, rest, hrest, hbody⟩ := exists_rows (text.dropWhile (· = byteOrderMark))
  have hunmarked : ∀ line ∈ (writtenLines rows rest).head?, line.head? ≠ some byteOrderMark := by
    intro line hline hmark
    have hhead := List.head?_dropWhile_not (fun c => decide (c = byteOrderMark)) text
    rw [← hbody, (head?_rows_iff rows rest).2 ⟨line, hline, hmark⟩] at hhead
    exact of_decide_eq_false hhead rfl
  refine ⟨⟨(text.takeWhile (· = byteOrderMark)).length, rows, rest, hrest, hunmarked⟩, ?_⟩
  unfold Writing.text body
  rw [hbody, ← hmarks, List.takeWhile_append_dropWhile]

/-- The same lines with a carriage return in each terminator and one more mark in front. -/
def returned (w : Writing) : Writing where
  marks := w.marks + 1
  rows := w.rows.map Terminated.returned
  rest := w.rest
  feed_not_mem := w.feed_not_mem
  unmarked := by
    rw [writtenLines_returned]
    exact w.unmarked

theorem lines_returned (w : Writing) : w.returned.lines = w.lines :=
  writtenLines_returned w.rows w.rest

theorem text_returned {w : Writing} (h : '\r' ∉ w.text) :
    w.returned.text = byteOrderMark :: replace ['\n'] ['\r', '\n'] w.text := by
  have hmarks : '\n' ∉ List.replicate w.marks byteOrderMark := fun hmem =>
    absurd (List.eq_of_mem_replicate hmem) (by decide)
  have hrows : ∀ row ∈ w.rows, '\r' ∉ row.chars := fun row hrow hmem =>
    h (List.mem_append_right _ (List.mem_append_left _ (List.mem_flatMap.2 ⟨row, hrow, hmem⟩)))
  have hbody : replace ['\n'] ['\r', '\n'] w.body = w.returned.body :=
    replace_rows hrows w.feed_not_mem
  unfold text
  rw [replace_append_of_not_mem hmarks, hbody]
  rfl

end Writing

/-- A text without carriage returns is read the same with one before each line feed and a mark in
front. -/
theorem lines_replace_feed {text : List Char} (h : '\r' ∉ text) :
    lines (byteOrderMark :: replace ['\n'] ['\r', '\n'] text) = lines text := by
  obtain ⟨w, rfl⟩ := Writing.exists_writing text
  rw [← Writing.text_returned h, Writing.lines_text, Writing.lines_text, Writing.lines_returned]

/-- Lines are read as they were written, whatever they end with and however many marks are in
front, also from the bytes of a file. So a text without carriage returns has the same directives,
with the same entries, when each of its line feeds gets one and a mark is put in front. -/
theorem lines_of_writing :
    (∀ w : Writing, lines w.text = w.lines ∧
      Store.Folder.linesOf (encode w.text) = w.lines.map String.ofList) ∧
    ∀ (file : String) (text : List Char), '\r' ∉ text →
      let plain := (lines text).map String.ofList
      let marked := (lines (byteOrderMark :: replace ['\n'] ['\r', '\n'] text)).map String.ofList
      Directive.parse file marked = Directive.parse file plain ∧
        (Directive.parse file marked).map (·.map (Includes.entries ·.body)) =
          (Directive.parse file plain).map (·.map (Includes.entries ·.body)) := by
  constructor
  · intro w
    refine ⟨w.lines_text, ?_⟩
    rw [Store.Folder.linesOf, decode_encode, w.lines_text]
  · intro file text htext plain marked
    have hmarked : marked = plain := congrArg (List.map String.ofList) (lines_replace_feed htext)
    rw [hmarked]
    exact ⟨rfl, rfl⟩

/-- Two marks in front, both terminators, an empty line, a mark and carriage returns within the
lines, and no terminator at the end; and an include list whose line feeds get a carriage return. -/
theorem lines_of_writing_mixed :
    let w : Writing := ⟨2, [⟨['a', '\r'], .returnFeed, by decide, nofun⟩,
      ⟨[], .feed, by decide, fun _ => nofun⟩,
      ⟨[byteOrderMark, '\r', 'b'], .feed, by decide, by decide⟩], ['c', '\r'], by decide, by decide⟩
    let text := "%Includes\n\x7b\n\"A\",\n\nself \x7d\n".toList
    let plain := (lines text).map String.ofList
    let marked := (lines (byteOrderMark :: replace ['\n'] ['\r', '\n'] text)).map String.ofList
    w.text = [byteOrderMark, byteOrderMark, 'a', '\r', '\r', '\n', '\n', byteOrderMark, '\r', 'b',
        '\n', 'c', '\r'] ∧
      lines w.text = [['a', '\r'], [], [byteOrderMark, '\r', 'b'], ['c', '\r']] ∧
      '\r' ∉ text ∧
      Directive.parse "M" marked = Directive.parse "M" plain ∧
      ((Directive.parse "M" plain).map (·.map (Includes.entries ·.body))).toOption =
        some [["A", "self"]] := by
  intro w text plain marked
  have htext : '\r' ∉ text := by decide
  exact ⟨by decide, (lines_of_writing.1 w).1, htext, (lines_of_writing.2 "M" text htext).1,
    by decide⟩

end ShaderIncludes.Text
