/-!
# Paths below a base

A path is text with `/` between its pieces. `place` puts a path below a base folder: a path that
starts with `/` has no base, one that starts with `..` is walked piece by piece from the base, and
any other one is put behind it. Walking is navigation in text alone; no file is looked at.
-/
namespace ShaderIncludes.Path

/-- The text before the last slash; empty when there is no slash. -/
def parent (p : List Char) : List Char := ((p.reverse.dropWhile (· ≠ '/')).drop 1).reverse

/-- Up one level for `..`, down into the folder `piece` for any other piece, `.` and the empty one
included. -/
def enter (folder piece : List Char) : List Char :=
  if piece = ['.', '.'] then parent folder else folder ++ '/' :: piece

/-- Enters all pieces of the path but the last from `base`, and names the last one there. -/
def walk (base path : List Char) : List Char :=
  let pieces := path.splitOn '/'
  pieces.dropLast.foldl enter base ++ '/' :: pieces.getLastD []

def dropSlash : List Char → List Char
  | '/' :: p => p
  | p => p

/-- Where `path` lies when it is read from the folder `base`, with one slash in front left out. -/
def place (base path : List Char) : List Char :=
  dropSlash <| match path with
    | '/' :: p => p
    | '.' :: '.' :: _ => walk base path
    | _ => base ++ '/' :: path

/-- Where `path` lies when it is read from the folder `base`. -/
def locate (base path : String) : String := String.ofList (place base.toList path.toList)

@[simp] theorem toList_locate (base path : String) :
    (locate base path).toList = place base.toList path.toList :=
  String.toList_ofList

theorem dropSlash_cons {c : Char} (h : c ≠ '/') (p : List Char) : dropSlash (c :: p) = c :: p := by
  unfold dropSlash
  split
  · rename_i heq
    exact absurd (List.cons.inj heq).1 h
  · rfl

theorem walk_of_not_mem (base : List Char) {path : List Char} (h : '/' ∉ path) :
    walk base path = base ++ '/' :: path := by
  unfold walk
  rw [List.splitOn_eq_singleton h]
  rfl

/-- A path lies right below the base unless it is absolute or has a piece to walk. -/
theorem place_eq_dropSlash (base : List Char) {path : List Char} (hslash : ¬ ['/'] <+: path)
    (hdots : ['.', '.'] <+: path → '/' ∉ path) : place base path = dropSlash (base ++ '/' :: path) := by
  unfold place
  split
  · exact absurd ⟨_, rfl⟩ hslash
  · rw [walk_of_not_mem base (hdots ⟨_, rfl⟩)]
  · rfl

theorem dropWhile_ne_slash {passed : List Char} (h : '/' ∉ passed) (rest : List Char) :
    (passed ++ rest).dropWhile (· ≠ '/') = rest.dropWhile (· ≠ '/') := by
  apply List.dropWhile_append_of_pos
  intro c hc
  rw [decide_eq_true_eq]
  rintro rfl
  exact h hc

theorem parent_append {last : List Char} (h : '/' ∉ last) (front : List Char) :
    parent (front ++ '/' :: last) = front := by
  have hlast : '/' ∉ last.reverse := fun hmem => h (List.mem_reverse.1 hmem)
  unfold parent
  rw [List.reverse_append, List.reverse_cons, List.append_assoc, dropWhile_ne_slash hlast]
  simp

theorem parent_of_not_mem {p : List Char} (h : '/' ∉ p) : parent p = [] := by
  have hreverse : '/' ∉ p.reverse := fun hmem => h (List.mem_reverse.1 hmem)
  unfold parent
  rw [← List.append_nil p.reverse, dropWhile_ne_slash hreverse]
  rfl

/-- A path with a slash in it can be cut at the last one. -/
theorem exists_last_slash {p : List Char} (h : '/' ∈ p) :
    ∃ front last, p = front ++ '/' :: last ∧ '/' ∉ last := by
  obtain ⟨after, before, hp, hafter⟩ := List.eq_append_cons_of_mem (List.mem_reverse.2 h)
  refine ⟨before.reverse, after.reverse, ?_, fun hmem => hafter (List.mem_reverse.1 hmem)⟩
  have hreverse := congrArg List.reverse hp
  simpa using hreverse

theorem parent_cases (p : List Char) :
    ('/' ∉ p ∧ parent p = []) ∨ ∃ last, '/' ∉ last ∧ p = parent p ++ '/' :: last := by
  by_cases hslash : '/' ∈ p
  · obtain ⟨front, last, rfl, hlast⟩ := exists_last_slash hslash
    exact .inr ⟨last, hlast, by rw [parent_append hlast]⟩
  · exact .inl ⟨hslash, parent_of_not_mem hslash⟩

end ShaderIncludes.Path
