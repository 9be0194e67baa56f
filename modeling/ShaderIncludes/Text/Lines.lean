/-!
# The lines of a text

A line ends at a line feed, and one carriage return directly before it belongs to that end; a text
that stops without a line feed ends its last line there, and an empty rest is no line. Byte-order
marks in front of the whole text are no part of the first line.
-/
namespace ShaderIncludes.Text

/-- The mark that may stand in front of a text, U+FEFF. -/
def byteOrderMark : Char := Char.ofNat 0xFEFF

/-- Puts a character in front of the first line, which it begins if there is none. -/
def consFirst (c : Char) : List (List Char) → List (List Char)
  | [] => [[c]]
  | line :: rest => (c :: line) :: rest

/-- The lines of a text without a mark in front. -/
def split : List Char → List (List Char)
  | [] => []
  | '\n' :: cs => [] :: split cs
  | '\r' :: '\n' :: cs => [] :: split cs
  | c :: cs => consFirst c (split cs)

/-- The lines of a text, with the byte-order marks in front of it left out. -/
def lines (text : List Char) : List (List Char) :=
  split (text.dropWhile (· = byteOrderMark))

theorem split_cons {c : Char} {rest : List Char} (hfeed : c ≠ '\n')
    (hreturn : c = '\r' → rest.head? ≠ some '\n') :
    split (c :: rest) = consFirst c (split rest) := by
  rw [split]
  · exact hfeed
  · rintro more rfl rfl
    exact hreturn rfl rfl

/-- Up to its first line feed a text is the beginning of one line, but for a carriage return
directly before the line feed. -/
theorem split_append {line rest : List Char} (hline : '\n' ∉ line)
    (hlast : line.getLast? = some '\r' → rest.head? ≠ some '\n') :
    split (line ++ rest) = line.foldr consFirst (split rest) := by
  induction line with
  | nil => rfl
  | cons c line ih =>
    obtain ⟨hc, hbehind⟩ := List.ne_and_not_mem_of_not_mem_cons hline
    have hreturn : c = '\r' → (line ++ rest).head? ≠ some '\n' := by
      rintro rfl hhead
      cases line with
      | nil => exact hlast rfl hhead
      | cons d line => exact hbehind (Option.some.inj hhead ▸ List.mem_cons_self)
    have hends : line.getLast? = some '\r' → rest.head? ≠ some '\n' := by
      intro hreturns
      cases line with
      | nil => cases hreturns
      | cons d line => exact hlast (List.getLast?_cons_cons.trans hreturns)
    rw [List.cons_append, split_cons hc.symm hreturn, ih hbehind hends]
    rfl

theorem foldr_consFirst_cons (line first : List Char) (rest : List (List Char)) :
    line.foldr consFirst (first :: rest) = (line ++ first) :: rest := by
  induction line with
  | nil => rfl
  | cons c line ih =>
    rw [List.foldr_cons, ih]
    rfl

theorem foldr_consFirst_nil (c : Char) (line : List Char) :
    (c :: line).foldr consFirst [] = [c :: line] := by
  induction line generalizing c with
  | nil => rfl
  | cons d line ih =>
    rw [List.foldr_cons, ih]
    rfl

theorem split_append_feed {line : List Char} (hline : '\n' ∉ line)
    (hlast : line.getLast? ≠ some '\r') (rest : List Char) :
    split (line ++ '\n' :: rest) = line :: split rest := by
  rw [split_append hline fun hreturn => absurd hreturn hlast, split, foldr_consFirst_cons,
    List.append_nil]

theorem split_append_returnFeed {line : List Char} (hline : '\n' ∉ line) (rest : List Char) :
    split (line ++ '\r' :: '\n' :: rest) = line :: split rest := by
  rw [split_append hline fun _ => by simp, split, foldr_consFirst_cons, List.append_nil]

theorem split_of_not_mem {line : List Char} (hline : '\n' ∉ line) (hne : line ≠ []) :
    split line = [line] := by
  obtain ⟨c, front, rfl⟩ := List.exists_cons_of_ne_nil hne
  have hsplit : split (c :: front ++ []) = (c :: front).foldr consFirst (split []) :=
    split_append hline fun _ => nofun
  rw [List.append_nil, split, foldr_consFirst_nil] at hsplit
  exact hsplit

end ShaderIncludes.Text
